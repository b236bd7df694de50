/-
AgentLoop.Proofs.Number.Rounding — numbers that are written out are read back.

* `Format.nearest_mul_right` — rounding depends on the quotient alone
* `Format.nearest_units` — a magnitude of the format is its own nearest one
* `Binary.isFinite_ofInt` — whole numbers of few enough bits are not rounded to
  infinity
* `Decimal.nearestOrdinal_shift` — zeros moved between the digits and the
  power of ten make no difference
* `Finite.nearestOrdinal_shortest` — the decimal that is written for a number
  of double precision reads back as that number

Writing a number picks the first short decimal that reads back, so there is
nothing to prove of those. What has to be shown is that all digits together
read back, the last resort, and that zeros at the end may be dropped.
-/
import Mathlib.Algebra.Group.Nat.Defs
import AgentLoop.Number.Decimal

namespace AgentLoop.Number

namespace Format

theorem divNearestEven_mul_right (a b : Nat) {c : Nat} (hc : 0 < c) :
    divNearestEven (a * c) (b * c) = divNearestEven a b := by
  have hquotient : a * c / (b * c) = a / b := Nat.mul_div_mul_right a b hc
  have hrest : a * c % (b * c) = a % b * c := Nat.mul_mod_mul_right c a b
  have hmore : b * c < 2 * (a % b * c) ↔ b < 2 * (a % b) := by
    rw [← Nat.mul_assoc]
    exact Nat.mul_lt_mul_right hc
  have htie : 2 * (a % b * c) = b * c ↔ 2 * (a % b) = b := by
    rw [← Nat.mul_assoc]
    exact Nat.mul_left_inj (Nat.pos_iff_ne_zero.mp hc)
  simp only [divNearestEven, hquotient, hrest, gt_iff_lt, hmore, Bool.or_eq_true,
    decide_eq_true_eq, Bool.and_eq_true, beq_iff_eq, htie]

theorem divNearestEven_exact (a : Nat) {b : Nat} (hb : 0 < b) : divNearestEven (a * b) b = a := by
  have hrest : a * b % b = 0 := Nat.mul_mod_left a b
  have hnotie : ¬ 0 = b := by omega
  simp [divNearestEven, hrest, Nat.mul_div_cancel a hb, hnotie]

variable {f : Format}

/-- Rounding depends on the quotient alone. -/
theorem nearest_mul_right (a b : Nat) {c : Nat} (hc : 0 < c) :
    f.nearest (a * c) (b * c) = f.nearest a b := by
  simp only [nearest, Nat.mul_div_mul_right a b hc]
  rw [Nat.mul_right_comm, divNearestEven_mul_right _ _ hc]

theorem step_pos : 0 < f.step := Nat.pow_pos Nat.two_pos

theorem one_pos : 0 < f.one := Nat.pow_pos Nat.two_pos

theorem log2_significand {m s : Nat} (hlow : f.step ≤ m) (hhigh : m < 2 * f.step) :
    Nat.log2 (m * 2 ^ s) = f.precision - 1 + s := by
  have hstep : f.step = 2 ^ (f.precision - 1) := rfl
  have hpow : 0 < 2 ^ s := Nat.pow_pos Nat.two_pos
  have hm : 0 < m := Nat.lt_of_lt_of_le f.step_pos hlow
  rw [Nat.log2_eq_iff (Nat.pos_iff_ne_zero.mp (Nat.mul_pos hm hpow)), Nat.add_right_comm,
    Nat.pow_add, Nat.pow_add _ _ s, Nat.pow_succ, ← hstep]
  exact ⟨Nat.mul_le_mul_right _ hlow, Nat.mul_lt_mul_of_pos_right (by omega) hpow⟩

/-- A magnitude of the format is its own nearest one. -/
theorem nearest_units (k : Nat) : f.nearest (f.units k) 1 = k := by
  rw [units]
  split
  · rename_i hsmall
    have hlog : Nat.log2 k - (f.precision - 1) = 0 := by
      rcases Nat.eq_zero_or_pos k with rfl | hk
      · simp
      · have hlt : Nat.log2 k < f.precision - 1 :=
          (Nat.log2_lt (Nat.pos_iff_ne_zero.mp hk)).mpr hsmall
        omega
    have hexact := divNearestEven_exact k Nat.one_pos
    rw [Nat.mul_one] at hexact
    simp [nearest, hlog, hexact]
  · rename_i hlarge
    have hrest : k % f.step < f.step := Nat.mod_lt k f.step_pos
    have hbinade : 0 < k / f.step := Nat.div_pos (Nat.le_of_not_lt hlarge) f.step_pos
    have hlog := f.log2_significand (m := f.step + k % f.step) (s := k / f.step - 1)
      (Nat.le_add_right _ _) (by omega)
    have hexact := divNearestEven_exact (f.step + k % f.step)
      (Nat.pow_pos (n := k / f.step - 1) Nat.two_pos)
    have hparts := Nat.div_add_mod' k f.step
    obtain ⟨q, hq⟩ : ∃ q, k / f.step = q + 1 := ⟨k / f.step - 1, by omega⟩
    rw [hq] at hlog hexact hparts ⊢
    simp only [nearest, Nat.pow_eq, Nat.div_one, Nat.add_sub_cancel, Nat.one_mul] at hlog hexact ⊢
    rw [hlog, Nat.add_sub_cancel_left, hexact]
    rw [Nat.succ_mul] at hparts
    omega

theorem divNearestEven_le (a b : Nat) : divNearestEven a b ≤ a / b + 1 := by
  simp only [divNearestEven]
  split
  · exact Nat.le_refl _
  · exact Nat.le_succ _

/-- Rounding stays within the binade, or goes to the beginning of the next. -/
theorem nearest_le (a b : Nat) :
    f.nearest a b ≤ (Nat.log2 (a / b) - (f.precision - 1) + 2) * f.step := by
  have hquotient : a / b / 2 ^ (Nat.log2 (a / b) - (f.precision - 1)) < 2 * f.step := by
    refine Nat.div_lt_of_lt_mul (Nat.lt_of_lt_of_le Nat.lt_log2_self ?_)
    rw [step, Nat.pow_eq, ← Nat.pow_succ', ← Nat.pow_add]
    exact Nat.pow_le_pow_right Nat.two_pos (by omega)
  have hround := divNearestEven_le a (b * 2 ^ (Nat.log2 (a / b) - (f.precision - 1)))
  rw [← Nat.div_div_eq_div_mul] at hround
  rw [nearest, Nat.pow_eq, Nat.add_mul]
  omega

end Format

/-- Whole numbers of few enough bits are not rounded to infinity. -/
theorem Binary.isFinite_ofInt {f : Format} {n : Int} (bits : Nat) (h : n.natAbs ≤ 2 ^ bits)
    (hbits : bits + f.unitExponent - (f.precision - 1) + 1 < f.binades) :
    (Binary.ofInt f n).isFinite = true := by
  have hmagnitude : n.natAbs * f.one / 1 < 2 ^ (bits + f.unitExponent + 1) := by
    rw [Nat.div_one, Nat.pow_succ, Nat.pow_add]
    have hle := Nat.mul_le_mul_right f.one h
    have hpos : 0 < 2 ^ bits * f.one := Nat.mul_pos (Nat.pow_pos Nat.two_pos) f.one_pos
    rw [show f.one = 2 ^ f.unitExponent from rfl] at hle hpos ⊢
    omega
  have hlog : Nat.log2 (n.natAbs * f.one / 1) ≤ bits + f.unitExponent := by
    rcases Nat.eq_zero_or_pos (n.natAbs * f.one / 1) with hzero | hpos
    · simp [hzero]
    · exact Nat.le_of_lt_succ ((Nat.log2_lt (Nat.ne_of_gt hpos)).mpr hmagnitude)
  have hlimit : f.nearest (n.natAbs * f.one) 1 < f.limit :=
    Nat.lt_of_le_of_lt (f.nearest_le _ 1) (Nat.mul_lt_mul_of_pos_right (by omega) f.step_pos)
  rw [ofInt, ofUnits, ofOrdinal, dif_pos hlimit]
  rfl

/-! ## Decimals -/

theorem digitCount_pos (n : Nat) : 0 < digitCount n := Nat.length_toDigits_pos

theorem digitCount_le_iff {n k : Nat} (hk : 0 < k) : digitCount n ≤ k ↔ n < 10 ^ k :=
  Nat.length_toDigits_le_iff (by decide) hk

theorem digitCount_mul_ten {n : Nat} (h : n ≠ 0) : digitCount (n * 10) = digitCount n + 1 := by
  have hlarge : 10 ≤ n * 10 := by omega
  rw [digitCount, Nat.toDigits_of_base_le (by decide) hlarge, Nat.mul_div_cancel n (by decide)]
  simp [digitCount]

namespace Decimal

variable {f : Format}

/-- A decimal as a quotient. -/
theorem nearestOrdinal_of_nearest {d : Decimal} (hdigits : d.digits ≠ 0)
    (hlow : ¬ (digitCount d.digits : Int) + d.exponent < -hugeExponent)
    (hhigh : ¬ (digitCount d.digits : Int) + d.exponent > hugeExponent) {a b : Nat}
    (hb : d.exponent = (a : Int) - b) :
    d.nearestOrdinal f = f.nearest (d.digits * 10 ^ a * f.one) (10 ^ b) := by
  simp only [nearestOrdinal, hdigits, hlow, hhigh, decide_false, Bool.or_self, if_false,
    Bool.false_eq_true, Nat.pow_eq]
  split
  · rename_i hpos
    -- both sides are the quotient of the smaller powers, scaled
    obtain ⟨n, hn⟩ : ∃ n : Nat, a = n + b ∧ d.exponent.toNat = n := ⟨a - b, by omega, by omega⟩
    rw [hn.1, hn.2, Nat.pow_add]
    have hscale := f.nearest_mul_right (d.digits * 10 ^ n * f.one) 1
      (Nat.pow_pos (n := b) (by decide : 0 < 10))
    rw [← hscale, Nat.one_mul, ← Nat.mul_assoc d.digits, Nat.mul_right_comm (d.digits * 10 ^ n)]
  · rename_i hneg
    obtain ⟨n, hn⟩ : ∃ n : Nat, b = n + a ∧ (-d.exponent).toNat = n := ⟨b - a, by omega, by omega⟩
    rw [hn.1, hn.2, Nat.pow_add]
    have hscale := f.nearest_mul_right (d.digits * f.one) (10 ^ n)
      (Nat.pow_pos (n := a) (by decide : 0 < 10))
    rw [← hscale]
    congr 1
    ac_rfl

/-- A zero may be moved from the digits to the power of ten. -/
theorem nearestOrdinal_mul_ten (digits : Nat) (exponent : Int) :
    nearestOrdinal f ⟨digits * 10, exponent⟩ = nearestOrdinal f ⟨digits, exponent + 1⟩ := by
  rcases Nat.eq_zero_or_pos digits with rfl | hpos
  · simp [nearestOrdinal]
  · have hdigits : digits ≠ 0 := by omega
    have hmore : digits * 10 ≠ 0 := by omega
    have htop : (digitCount (digits * 10) : Int) + exponent =
        digitCount digits + (exponent + 1) := by
      rw [digitCount_mul_ten hdigits]
      omega
    by_cases hlow : (digitCount digits : Int) + (exponent + 1) < -hugeExponent
    · simp [nearestOrdinal, htop, hlow]
    · by_cases hhigh : (digitCount digits : Int) + (exponent + 1) > hugeExponent
      · simp only [nearestOrdinal, htop, hlow, hhigh, hdigits, hmore, if_true]
      · obtain ⟨a, b, hab⟩ : ∃ a b : Nat, exponent = (a : Int) - b :=
          ⟨exponent.toNat, (-exponent).toNat, by omega⟩
        have hstay := nearestOrdinal_of_nearest (f := f) (d := ⟨digits * 10, exponent⟩) hmore
          (by rwa [htop]) (by rwa [htop]) hab
        have hmoved := nearestOrdinal_of_nearest (f := f) (d := ⟨digits, exponent + 1⟩)
          (a := a + 1) (b := b) hdigits hlow hhigh (by simp only; omega)
        have hzeros : digits * 10 * 10 ^ a * f.one = digits * 10 ^ (a + 1) * f.one := by
          rw [Nat.pow_succ, Nat.mul_assoc digits, Nat.mul_comm 10]
        rw [hstay, hmoved, hzeros]

/-- So may any number of zeros. -/
theorem nearestOrdinal_shift (digits n : Nat) (exponent : Int) :
    nearestOrdinal f ⟨digits * 10 ^ n, exponent⟩ = nearestOrdinal f ⟨digits, exponent + n⟩ := by
  induction n generalizing exponent with
  | zero => simp
  | succ n ih =>
    rw [Nat.pow_succ, ← Nat.mul_assoc, nearestOrdinal_mul_ten, ih]
    congr 2
    omega

theorem nearestOrdinal_stripZeros (rounds : Nat) (d : Decimal) :
    (stripZeros rounds d).nearestOrdinal f = d.nearestOrdinal f := by
  induction rounds generalizing d with
  | zero => rfl
  | succ rounds ih =>
    rw [stripZeros]
    split
    · rename_i hzero
      simp only [Bool.and_eq_true, decide_eq_true_eq] at hzero
      rw [ih, ← nearestOrdinal_mul_ten, Nat.div_mul_cancel (Nat.dvd_of_mod_eq_zero hzero.2)]
    · rfl

theorem nearestOrdinal_trimmed (d : Decimal) : d.trimmed.nearestOrdinal f = d.nearestOrdinal f :=
  nearestOrdinal_stripZeros _ d

end Decimal

namespace Format

variable {f : Format} {k : Nat}

theorem units_pos (h : k ≠ 0) : 0 < f.units k := by
  rw [units]
  split
  · omega
  · have hstep := f.step_pos
    exact Nat.mul_pos (by omega) (Nat.pow_pos Nat.two_pos)

theorem units_lt (h : k < f.limit) : f.units k < 2 * f.step * 2 ^ f.binades := by
  have hbinade : k / f.step ≤ f.binades := by
    rw [← Nat.lt_succ_iff, Nat.div_lt_iff_lt_mul f.step_pos]
    exact h
  have hstep := f.step_pos
  rw [units]
  split
  · refine Nat.lt_of_lt_of_le ‹k < f.step› ?_
    exact Nat.le_trans (by omega) (Nat.le_mul_of_pos_right _ (Nat.pow_pos Nat.two_pos))
  · have hrest : k % f.step < f.step := Nat.mod_lt k hstep
    have hsignificand : f.step + k % f.step < 2 * f.step := by omega
    refine Nat.lt_of_lt_of_le
      (Nat.mul_lt_mul_of_pos_right hsignificand (Nat.pow_pos Nat.two_pos)) ?_
    exact Nat.mul_le_mul_left _ (Nat.pow_le_pow_right Nat.two_pos (by omega))

/-- Powers of five make powers of ten out of the unit of a format. -/
theorem fives_mul_one (f : Format) :
    5 ^ f.unitExponent * f.one = 10 ^ f.unitExponent := by
  have hone : f.one = 2 ^ f.unitExponent := rfl
  rw [hone, ← Nat.mul_pow]

end Format

/-! ## The decimal that is written -/

namespace Finite

variable {f : Format}

/-- How many digits a number has, which is neither too many nor too few for
reading. -/
theorem digitCount_exact {k : Nat} (huge : Nat) (hk : k ≠ 0)
    (hhigh : f.units k < 10 ^ huge * f.one)
    (hlow : 10 ^ (f.unitExponent - (huge + 1)) ≤ 5 ^ f.unitExponent) (hsome : 0 < huge) :
    digitCount (f.units k * 5 ^ f.unitExponent) ≤ huge + f.unitExponent ∧
      f.unitExponent ≤ huge + digitCount (f.units k * 5 ^ f.unitExponent) := by
  have hunits := f.units_pos hk
  have hfives : 0 < 5 ^ f.unitExponent := Nat.pow_pos (by decide)
  constructor
  · rw [digitCount_le_iff (by omega), Nat.pow_add, ← f.fives_mul_one, ← Nat.mul_assoc,
      Nat.mul_right_comm]
    exact Nat.mul_lt_mul_of_pos_right hhigh hfives
  · refine Nat.le_of_not_lt fun hless => ?_
    have hpos := digitCount_pos (f.units k * 5 ^ f.unitExponent)
    have hle : digitCount (f.units k * 5 ^ f.unitExponent) ≤ f.unitExponent - (huge + 1) := by
      omega
    rw [digitCount_le_iff (by omega)] at hle
    exact Nat.not_lt.mpr (Nat.le_trans hlow (Nat.le_mul_of_pos_left _ hunits)) hle

/-- All digits of a number together read back as the number, unless it is too
large or too small for reading. -/
theorem nearestOrdinal_exact {k : Nat} (huge : Nat) (hk : k ≠ 0)
    (hhuge : Decimal.hugeExponent = huge) (hhigh : f.units k < 10 ^ huge * f.one)
    (hlow : 10 ^ (f.unitExponent - (huge + 1)) ≤ 5 ^ f.unitExponent) :
    (exact f (f.units k)).nearestOrdinal f = k := by
  have hunits := f.units_pos hk
  have hfives : 0 < 5 ^ f.unitExponent := Nat.pow_pos (by decide)
  have hsome : 0 < huge := by
    have hvalue : Decimal.hugeExponent = 400 := rfl
    omega
  obtain ⟨hmany, hfew⟩ := digitCount_exact huge hk hhigh hlow hsome
  have hread := Decimal.nearestOrdinal_of_nearest (f := f) (d := exact f (f.units k))
    (a := 0) (b := f.unitExponent)
    (Nat.pos_iff_ne_zero.mp (Nat.mul_pos hunits hfives))
    (by simp only [exact, Nat.pow_eq]; omega) (by simp only [exact, Nat.pow_eq]; omega)
    (by simp only [exact]; omega)
  rw [hread, ← f.fives_mul_one]
  have hscale := f.nearest_mul_right (f.units k) 1
    (Nat.mul_pos hfives (show 0 < f.one from Nat.pow_pos Nat.two_pos))
  rw [f.nearest_units, Nat.one_mul] at hscale
  refine Eq.trans ?_ hscale
  simp only [exact, Nat.pow_eq, Nat.pow_zero, Nat.mul_one, Nat.mul_assoc]

/-- The decimal that is written for a number reads back as the number. -/
theorem nearestOrdinal_shortest (tie : Tie) (x : Finite binary64) :
    (x.shortest tie).nearestOrdinal binary64 = x.ordinal := by
  rw [shortest]
  split
  · rename_i hzero
    rw [hzero]
    rfl
  · rename_i hk
    dsimp only
    split
    · rename_i d hfound
      obtain ⟨i, -, hd⟩ := List.exists_of_findSome?_eq_some hfound
      rw [Decimal.nearestOrdinal_trimmed]
      simpa using List.find?_some hd
    · have hrange : 2 * binary64.step * 2 ^ binary64.binades ≤ 10 ^ 400 * binary64.one := by
        decide +kernel
      have hlow : 10 ^ (binary64.unitExponent - (400 + 1)) ≤ 5 ^ binary64.unitExponent := by
        decide +kernel
      rw [Decimal.nearestOrdinal_trimmed]
      exact nearestOrdinal_exact 400 hk rfl
        (Nat.lt_of_lt_of_le (Format.units_lt x.bounded) hrange) hlow

/-- It has no digits only if it is zero. -/
theorem digits_shortest {tie : Tie} {x : Finite binary64} (h : x.ordinal ≠ 0) :
    (x.shortest tie).digits ≠ 0 := by
  intro hzero
  have hread := x.nearestOrdinal_shortest tie
  rw [Decimal.nearestOrdinal, hzero] at hread
  exact h (by simpa using hread.symm)

end Finite

end AgentLoop.Number
