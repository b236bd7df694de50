/-
AgentLoop.Proofs.Number.Order — rounding keeps the order.

* `Format.nearest_mono` — a larger fraction is not rounded to a smaller number
* `Format.units_le_units` — ordinals count magnitudes upward
* `Format.units_nearest` — a significand times a power of two is a magnitude
* `Format.whole`, `Format.times` — ordinals of whole numbers and of products;
  `Format.times_whole` says when a product of whole numbers is rounded once
* `Binary.mul_ofOrdinal`, `Binary.min_ofOrdinal`, `Binary.max_ofOrdinal` — the
  arithmetic of numbers without a sign, by ordinals

A number without a sign is `ofOrdinal f false k`, and every `k` from `limit` on
is infinity. Ordinals past `limit` have magnitudes all the same, those of a
format without a greatest exponent. Products of numbers that are at least one
can therefore be formed there, and be cut off at the end.
-/
import AgentLoop.Proofs.Number.Rounding

namespace AgentLoop.Number

namespace Format

theorem le_divNearestEven (a b : Nat) : a / b ≤ divNearestEven a b := by
  simp only [divNearestEven]
  split
  · exact Nat.le_succ _
  · exact Nat.le_refl _

theorem divNearestEven_mono {a a' : Nat} (b : Nat) (h : a ≤ a') :
    divNearestEven a b ≤ divNearestEven a' b := by
  rcases Nat.lt_or_eq_of_le (Nat.div_le_div_right (c := b) h) with hless | hsame
  · exact Nat.le_trans (divNearestEven_le a b) (Nat.le_trans hless (le_divNearestEven a' b))
  · -- with the same quotient the remainders are in order, and so are the ties
    have hrest : a % b ≤ a' % b := by
      have hparts := Nat.div_add_mod a b
      have hparts' := Nat.div_add_mod a' b
      rw [hsame] at hparts
      omega
    simp only [divNearestEven, hsame, gt_iff_lt, Bool.or_eq_true, decide_eq_true_eq,
      Bool.and_eq_true, beq_iff_eq]
    split
    · exact Nat.le_of_eq (if_pos (by omega)).symm
    · split
      · exact Nat.le_succ _
      · exact Nat.le_refl _

variable {f : Format}

/-- A fraction above the first binade is rounded to a full significand. -/
theorem step_le_significand {a b : Nat} (h : f.precision - 1 < Nat.log2 (a / b)) :
    f.step ≤ divNearestEven a (b * Nat.pow 2 (Nat.log2 (a / b) - (f.precision - 1))) := by
  refine Nat.le_trans ?_ (le_divNearestEven _ _)
  rw [← Nat.div_div_eq_div_mul, Nat.pow_eq, Nat.le_div_iff_mul_le (Nat.pow_pos Nat.two_pos), step,
    Nat.pow_eq, ← Nat.pow_add, Nat.add_sub_cancel' (Nat.le_of_lt h)]
  refine Nat.log2_self_le fun hzero => ?_
  simp [hzero] at h

theorem log2_mono {a b : Nat} (h : a ≤ b) : Nat.log2 a ≤ Nat.log2 b := by
  rcases Nat.eq_zero_or_pos a with rfl | hpos
  · simp
  · rw [Nat.le_log2 (by omega)]
    exact Nat.le_trans (Nat.log2_self_le (by omega)) h

/-- A larger fraction is not rounded to a smaller number. -/
theorem nearest_mono {a a' : Nat} (b : Nat) (h : a ≤ a') : f.nearest a b ≤ f.nearest a' b := by
  have hlog := log2_mono (Nat.div_le_div_right (c := b) h)
  rcases Nat.lt_or_eq_of_le (Nat.sub_le_sub_right hlog (f.precision - 1)) with hless | hsame
  · -- the smaller fraction goes at most to the beginning of the next binade
    calc f.nearest a b
        ≤ (Nat.log2 (a / b) - (f.precision - 1) + 2) * f.step := f.nearest_le a b
      _ ≤ (Nat.log2 (a' / b) - (f.precision - 1) + 1) * f.step :=
          Nat.mul_le_mul_right _ (by omega)
      _ = (Nat.log2 (a' / b) - (f.precision - 1)) * f.step + f.step := Nat.succ_mul _ _
      _ ≤ f.nearest a' b := Nat.add_le_add_left (step_le_significand (by omega)) _
  · simp only [nearest, hsame]
    exact Nat.add_le_add_left (divNearestEven_mono _ h) _

/-- Ordinals count magnitudes upward. -/
theorem units_le_units {j k : Nat} (h : j ≤ k) : f.units j ≤ f.units k := by
  refine Nat.le_of_not_lt fun hless => ?_
  have hback := f.nearest_mono 1 (Nat.le_of_lt hless)
  rw [nearest_units, nearest_units] at hback
  rw [Nat.le_antisymm h hback] at hless
  exact Nat.lt_irrefl _ hless

/-- A significand times a power of two is a magnitude of the format. -/
theorem exists_units {m : Nat} (s : Nat) (h : m < 2 * f.step) :
    ∃ k, f.units k = m * 2 ^ s := by
  induction s generalizing m with
  | zero =>
    refine ⟨m, ?_⟩
    rw [units]
    split
    · simp
    · have hbinade : m / f.step = 1 := Nat.div_eq_of_lt_le (by omega) (by omega)
      have hparts := Nat.div_add_mod' m f.step
      rw [hbinade, Nat.one_mul] at hparts
      simp [hbinade, hparts]
  | succ s ih =>
    rcases Nat.lt_or_ge m f.step with hsmall | hfull
    · -- a significand that is not full takes the factor two in
      obtain ⟨k, hk⟩ := ih (m := 2 * m) (by omega)
      refine ⟨k, hk.trans ?_⟩
      rw [Nat.pow_succ']
      ac_rfl
    · refine ⟨(s + 1) * f.step + m, ?_⟩
      have hbinade : ((s + 1) * f.step + m) / f.step = s + 2 :=
        Nat.div_eq_of_lt_le (by rw [Nat.succ_mul]; omega) (by simp only [Nat.succ_mul]; omega)
      have hparts := Nat.div_add_mod' ((s + 1) * f.step + m) f.step
      rw [hbinade, Nat.succ_mul (s + 1)] at hparts
      have hnotfirst : ¬ (s + 1) * f.step + m < f.step := by omega
      rw [units, if_neg hnotfirst, hbinade,
        show f.step + ((s + 1) * f.step + m) % f.step = m by omega]
      rfl

/-- It is its own nearest one, up to the beginning of the next binade. -/
theorem units_nearest {m : Nat} (s : Nat) (h : m ≤ 2 * f.step) :
    f.units (f.nearest (m * 2 ^ s) 1) = m * 2 ^ s := by
  have hstep := f.step_pos
  obtain ⟨k, hk⟩ : ∃ k, f.units k = m * 2 ^ s := by
    rcases Nat.lt_or_eq_of_le h with hless | rfl
    · exact exists_units s hless
    · obtain ⟨k, hk⟩ := f.exists_units (m := f.step) (s + 1) (by omega)
      refine ⟨k, hk.trans ?_⟩
      rw [Nat.pow_succ']
      ac_rfl
  rw [← hk, nearest_units]

/-! ## Whole numbers and products -/

/-- The ordinal nearest to a whole number. -/
def whole (f : Format) (n : Nat) : Nat := f.nearest (n * f.one) 1

/-- The ordinal of the product of two numbers, rounded. -/
def times (f : Format) (j k : Nat) : Nat := f.nearest (f.units j * f.units k) f.one

theorem whole_mono {m n : Nat} (h : m ≤ n) : f.whole m ≤ f.whole n :=
  nearest_mono 1 (Nat.mul_le_mul_right _ h)

theorem whole_two_pow_mono {d e : Nat} (h : d ≤ e) : f.whole (2 ^ d) ≤ f.whole (2 ^ e) :=
  whole_mono (Nat.pow_le_pow_right Nat.two_pos h)

theorem units_zero : f.units 0 = 0 := by simp [units, f.step_pos]

theorem whole_zero : f.whole 0 = 0 := by
  rw [whole, Nat.zero_mul, ← units_zero, nearest_units, units_zero]

/-- Whole numbers of few enough bits are numbers of the format. -/
theorem units_whole {n : Nat} (h : n ≤ 2 * f.step) : f.units (f.whole n) = n * f.one :=
  units_nearest f.unitExponent h

/-- So are the powers of two. -/
theorem units_whole_two_pow (e : Nat) : f.units (f.whole (2 ^ e)) = 2 ^ e * f.one := by
  have hstep := f.step_pos
  have hpower := f.units_nearest (m := 1) (e + f.unitExponent) (by omega)
  rwa [Nat.one_mul, Nat.pow_add] at hpower

theorem units_whole_one : f.units (f.whole 1) = f.one := by
  simpa using f.units_whole_two_pow 0

theorem whole_one_pos : 0 < f.whole 1 := by
  refine Nat.pos_of_ne_zero fun hzero => ?_
  have hunits := f.units_whole_one
  rw [hzero, ← f.whole_zero, units_whole (Nat.zero_le _), Nat.zero_mul] at hunits
  exact absurd hunits.symm (Nat.pos_iff_ne_zero.mp f.one_pos)

theorem times_mono {j j' k k' : Nat} (hj : j ≤ j') (hk : k ≤ k') : f.times j k ≤ f.times j' k' :=
  nearest_mono f.one (Nat.mul_le_mul (units_le_units hj) (units_le_units hk))

theorem times_comm (j k : Nat) : f.times j k = f.times k j := by
  simp only [times, Nat.mul_comm]

theorem times_zero (k : Nat) : f.times 0 k = 0 := by
  have hscale := f.nearest_mul_right 0 1 f.one_pos
  have hself := f.nearest_units 0
  rw [units_zero] at hself
  rw [Nat.zero_mul, Nat.one_mul, hself] at hscale
  rw [times, units_zero, Nat.zero_mul, hscale]

theorem times_whole_one (k : Nat) : f.times k (f.whole 1) = k := by
  have hscale := f.nearest_mul_right (f.units k) 1 f.one_pos
  rw [Nat.one_mul, nearest_units] at hscale
  rw [times, units_whole_one, hscale]

/-- A factor that is at least one makes nothing smaller. -/
theorem le_times {k l : Nat} (h : f.whole 1 ≤ l) : k ≤ f.times k l := by
  have hgrow := f.times_mono (Nat.le_refl k) h
  rwa [times_whole_one] at hgrow

theorem le_times_right {k l : Nat} (h : f.whole 1 ≤ k) : l ≤ f.times k l := by
  rw [times_comm]
  exact le_times h

/-- The product of two whole numbers of the format is rounded once. -/
theorem times_whole {m n : Nat} (hm : f.units (f.whole m) = m * f.one)
    (hn : f.units (f.whole n) = n * f.one) : f.times (f.whole m) (f.whole n) = f.whole (m * n) := by
  rw [times, hm, hn, whole, ← Nat.mul_assoc, Nat.mul_right_comm m]
  have hscale := f.nearest_mul_right (m * n * f.one) 1 f.one_pos
  rwa [Nat.one_mul] at hscale

end Format

/-! ## Numbers without a sign -/

namespace Binary

variable {f : Format}

theorem ofNat_eq_ofOrdinal (n : Nat) : ofNat f n = ofOrdinal f false (f.whole n) := rfl

/-- A number that is a whole number is the nearest number to it. -/
theorem finite_eq_ofOrdinal {x : Finite f} {n : Nat} (hplus : x.negative = false)
    (hunits : x.units = n * f.one) : .finite x = ofOrdinal f false (f.whole n) := by
  have hordinal : f.whole n = x.ordinal := by
    rw [Format.whole, ← hunits, Finite.units, Format.nearest_units]
  rw [hordinal, ofOrdinal, dif_pos x.bounded, ← hplus]

theorem ofOrdinal_of_limit_le {k : Nat} (h : f.limit ≤ k) : ofOrdinal f false k = .infinite false :=
  dif_neg (Nat.not_lt.mpr h)

/-- A number is finite if its ordinal is below the limit. -/
theorem isFinite_ofOrdinal {k : Nat} : (ofOrdinal f false k).isFinite = true ↔ k < f.limit := by
  rw [ofOrdinal]
  split
  · exact ⟨fun _ => ‹k < f.limit›, fun _ => rfl⟩
  · exact ⟨fun h => absurd h (by simp [isFinite]), fun h => absurd h ‹¬ k < f.limit›⟩

theorem place_ofOrdinal (k : Nat) :
    (ofOrdinal f false k).place? = some ((Min.min k f.limit : Nat) : Int) := by
  rw [ofOrdinal]
  split
  · rename_i hk
    rw [Nat.min_eq_left (Nat.le_of_lt hk)]
    rfl
  · rename_i hk
    rw [Nat.min_eq_right (Nat.le_of_not_lt hk)]
    rfl

/-- Numbers that are at least one are multiplied as ordinals are. -/
theorem mul_ofOrdinal {j k : Nat} (hj : f.whole 1 ≤ j) (hk : f.whole 1 ≤ k) :
    (ofOrdinal f false j).mul (ofOrdinal f false k) = ofOrdinal f false (f.times j k) := by
  have hone := f.whole_one_pos
  have hleft : j ≤ f.times j k := Format.le_times hk
  have hright : k ≤ f.times j k := Format.le_times_right hj
  rcases Nat.lt_or_ge j f.limit with hsmallj | hlargej <;>
    rcases Nat.lt_or_ge k f.limit with hsmallk | hlargek
  · rw [ofOrdinal, dif_pos hsmallj, ofOrdinal, dif_pos hsmallk]
    rfl
  · rw [ofOrdinal_of_limit_le hlargek, ofOrdinal_of_limit_le (Nat.le_trans hlargek hright),
      ofOrdinal, dif_pos hsmallj]
    exact if_neg (by simp only; omega)
  · rw [ofOrdinal_of_limit_le hlargej, ofOrdinal_of_limit_le (Nat.le_trans hlargej hleft),
      ofOrdinal, dif_pos hsmallk]
    exact if_neg (by simp only; omega)
  · rw [ofOrdinal_of_limit_le hlargej, ofOrdinal_of_limit_le hlargek,
      ofOrdinal_of_limit_le (Nat.le_trans hlargej hleft)]
    rfl

/-- Zero times a number that is finite is zero. -/
theorem zero_mul_ofOrdinal {k : Nat} (h : k < f.limit) :
    (ofOrdinal f false 0).mul (ofOrdinal f false k) = ofOrdinal f false 0 := by
  have hproduct : (ofOrdinal f false 0).mul (ofOrdinal f false k) =
      ofOrdinal f false (f.times 0 k) := by
    rw [ofOrdinal, dif_pos (by omega), ofOrdinal, dif_pos h]
    rfl
  rw [hproduct, Format.times_zero]

/-- All infinite ordinals stand for the same number. -/
theorem ofOrdinal_congr {j k : Nat} (h : Min.min j f.limit = Min.min k f.limit) :
    ofOrdinal f false j = ofOrdinal f false k := by
  rcases Nat.lt_or_ge j f.limit with hsmall | hlarge
  · rw [show j = k by omega]
  · rw [ofOrdinal_of_limit_le hlarge, ofOrdinal_of_limit_le (by omega)]

theorem min_ofOrdinal (j k : Nat) :
    (ofOrdinal f false j).min (ofOrdinal f false k) = ofOrdinal f false (Min.min j k) := by
  simp only [min, place_ofOrdinal, Int.ofNat_lt]
  split
  · exact ofOrdinal_congr (by omega)
  · exact ofOrdinal_congr (by omega)

theorem max_ofOrdinal (j k : Nat) :
    (ofOrdinal f false j).max (ofOrdinal f false k) = ofOrdinal f false (Max.max j k) := by
  simp only [max, place_ofOrdinal, Int.ofNat_lt]
  split
  · exact ofOrdinal_congr (by omega)
  · exact ofOrdinal_congr (by omega)

/-- A whole number of the format is the nearest whole number. -/
theorem toNatSaturating_whole {n top : Nat} (hn : n ≤ 2 * f.step) (hfinite : f.whole n < f.limit)
    (htop : n ≤ top) : (ofOrdinal f false (f.whole n)).toNatSaturating top = n := by
  have hone := f.one_pos
  have hround : (2 * (n * f.one) + f.one) / (2 * f.one) = n := by
    rw [Nat.mul_left_comm, Nat.add_comm, Nat.add_mul_div_right _ _ (by omega),
      Nat.div_eq_of_lt (by omega), Nat.zero_add]
  rw [ofOrdinal, dif_pos hfinite]
  simp only [toNatSaturating, Bool.false_eq_true, if_false, Finite.units, Format.units_whole hn,
    hround]
  exact Nat.min_eq_right htop

end Binary

end AgentLoop.Number
