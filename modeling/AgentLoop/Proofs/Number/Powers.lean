/-
AgentLoop.Proofs.Number.Powers — powers by repeated squaring, with every
product rounded.

* `raise` — square and multiply, with any product
* `raise_related` — what two products have in common, the powers have in common
* `Format.power`, `Binary.pow_ofOrdinal` — powers of numbers that are at least
  one, by ordinals
* `Format.power_le_succ` — one more factor makes no power smaller
* `Format.Tracks` — an ordinal that is exact for a whole number while that is
  small, and not below the small ones afterwards; powers keep it
* `Format.power_whole_two_pow` — powers of powers of two are exact

Rounded products are not associative, so nothing of the kind `(x ^ 2) ^ n =
x ^ (2 * n)` is to be had. What is known of a power is known by going through
the squaring, with a relation to some other product at hand.
-/
import AgentLoop.Proofs.Number.Order

namespace AgentLoop.Number

/-! ## Square and multiply -/

/-- `result` times the `n`-th power of `square`, by repeated squaring. -/
def raise {α : Type} (op : α → α → α) (n : Nat) (square result : α) : α :=
  if n = 0 then result
  else raise op (n / 2) (op square square) (if n % 2 = 1 then op result square else result)
termination_by n
decreasing_by omega

section raise

variable {α β : Type} {op : α → α → α} {op' : β → β → β}

@[simp] theorem raise_zero (s t : α) : raise op 0 s t = t := by
  rw [raise, if_pos rfl]

theorem raise_double (n : Nat) (s t : α) : raise op (2 * n) s t = raise op n (op s s) t := by
  rcases Nat.eq_zero_or_pos n with rfl | hpos
  · simp
  · rw [raise, if_neg (by omega), if_neg (by omega), Nat.mul_div_cancel_left n Nat.two_pos]

theorem raise_double_succ (n : Nat) (s t : α) :
    raise op (2 * n + 1) s t = raise op n (op s s) (op t s) := by
  rw [raise, if_neg (by omega), if_pos (by omega), show (2 * n + 1) / 2 = n by omega]

theorem double_or_double_succ (n : Nat) : (∃ q, n = 2 * q) ∨ ∃ q, n = 2 * q + 1 := by
  rcases Nat.mod_two_eq_zero_or_one n with heven | hodd
  · exact .inl ⟨n / 2, by omega⟩
  · exact .inr ⟨n / 2, by omega⟩

/-- What two products have in common, the powers have in common. -/
theorem raise_related {R : α → β → Prop}
    (hop : ∀ {a a' b b'}, R a b → R a' b' → R (op a a') (op' b b')) (n : Nat) {s t : α} {s' t' : β}
    (hs : R s s') (ht : R t t') : R (raise op n s t) (raise op' n s' t') := by
  induction n using Nat.strongRecOn generalizing s t s' t' with
  | ind n ih =>
    rcases Nat.eq_zero_or_pos n with rfl | hpos
    · simpa using ht
    · obtain ⟨q, rfl⟩ | ⟨q, rfl⟩ := double_or_double_succ n
      · rw [raise_double, raise_double]
        exact ih q (by omega) (hop hs hs) ht
      · rw [raise_double_succ, raise_double_succ]
        exact ih q (by omega) (hop hs hs) (hop ht hs)

/-- With exact products the power is the power. -/
theorem raise_mul (n s t : Nat) : raise (· * ·) n s t = t * s ^ n := by
  induction n using Nat.strongRecOn generalizing s t with
  | ind n ih =>
    rcases Nat.eq_zero_or_pos n with rfl | hpos
    · simp
    · obtain ⟨q, rfl⟩ | ⟨q, rfl⟩ := double_or_double_succ n
      · rw [raise_double, ih q (by omega), ← Nat.pow_two, ← Nat.pow_mul]
      · rw [raise_double_succ, ih q (by omega), ← Nat.pow_two, ← Nat.pow_mul, Nat.pow_succ',
          Nat.mul_assoc]

end raise

namespace Binary

variable {f : Format}

theorem powRounds_eq_raise {rounds n : Nat} (h : n < 2 ^ rounds) (s t : Binary f) :
    powRounds rounds n s t = raise mul n s t := by
  induction rounds generalizing n s t with
  | zero =>
    obtain rfl : n = 0 := by simpa using h
    simp [powRounds]
  | succ rounds ih =>
    have hhalf : n / 2 < 2 ^ rounds := by
      rw [Nat.pow_succ] at h
      omega
    simp only [powRounds, ih hhalf]
    obtain ⟨q, rfl⟩ | ⟨q, rfl⟩ := double_or_double_succ n
    · have heven : ¬ 2 * q % 2 = 1 := by omega
      rw [if_neg heven, Nat.mul_div_cancel_left q Nat.two_pos, raise_double]
      split
      · rename_i hzero
        rw [hzero, raise_zero]
      · rfl
    · have hodd : (2 * q + 1) % 2 = 1 := by omega
      rw [if_pos hodd, show (2 * q + 1) / 2 = q by omega, raise_double_succ]
      split
      · rename_i hzero
        rw [hzero, raise_zero]
      · rfl

theorem pow_eq_raise (x : Binary f) (n : Nat) : x.pow n = raise mul n x (ofNat f 1) :=
  powRounds_eq_raise Nat.lt_log2_self x _

end Binary

/-! ## Powers of ordinals -/

namespace Format

/-- The ordinal of the `n`-th power, rounded after every product. -/
def power (f : Format) (n k : Nat) : Nat := raise f.times n k (f.whole 1)

variable {f : Format}

theorem power_zero (k : Nat) : f.power 0 k = f.whole 1 := raise_zero _ _

/-- A greater number has the greater power. -/
theorem power_le_power (n : Nat) {k l : Nat} (h : k ≤ l) : f.power n k ≤ f.power n l :=
  raise_related (R := (· ≤ ·)) times_mono n h (Nat.le_refl _)

theorem raise_times_le_succ (n : Nat) {s t u : Nat} (hs : f.whole 1 ≤ s) (hu : f.whole 1 ≤ u)
    (ht : t ≤ s) : raise f.times n s t ≤ raise f.times (n + 1) s u := by
  induction n using Nat.strongRecOn generalizing s t u with
  | ind n ih =>
    obtain ⟨q, rfl⟩ | ⟨q, rfl⟩ := double_or_double_succ n
    · -- the new factor goes into the result, the squares are the same
      rw [raise_double, raise_double_succ]
      exact raise_related (R := (· ≤ ·)) times_mono q (Nat.le_refl _)
        (Nat.le_trans ht (le_times_right hu))
    · -- the new factor makes one more square
      rw [raise_double_succ, show 2 * q + 1 + 1 = 2 * (q + 1) by omega, raise_double]
      have hsquare : f.whole 1 ≤ f.times s s := Nat.le_trans hs (le_times hs)
      exact ih q (by omega) hsquare hu (times_mono ht (Nat.le_refl s))

/-- One more factor makes no power smaller. -/
theorem power_le_succ (n : Nat) {k : Nat} (h : f.whole 1 ≤ k) :
    f.power n k ≤ f.power (n + 1) k :=
  raise_times_le_succ n h (Nat.le_refl _) h

theorem power_mono {n n' k : Nat} (hk : f.whole 1 ≤ k) (h : n ≤ n') :
    f.power n k ≤ f.power n' k := by
  induction h with
  | refl => exact Nat.le_refl _
  | step _ ih => exact Nat.le_trans ih (power_le_succ _ hk)

theorem whole_one_le_power (n : Nat) {k : Nat} (h : f.whole 1 ≤ k) : f.whole 1 ≤ f.power n k := by
  rw [← power_zero k]
  exact power_mono h (Nat.zero_le n)

/-- Powers of powers of two are exact, beyond the greatest exponent too. -/
theorem power_whole_two_pow (e n : Nat) : f.power n (f.whole (2 ^ e)) = f.whole (2 ^ (e * n)) := by
  let R (k v : Nat) : Prop := ∃ e, v = 2 ^ e ∧ k = f.whole v
  have hexact : ∀ {k v k' v' : Nat}, R k v → R k' v' → R (f.times k k') (v * v') := by
    rintro _ _ _ _ ⟨e, rfl, rfl⟩ ⟨e', rfl, rfl⟩
    exact ⟨e + e', (Nat.pow_add ..).symm,
      times_whole (units_whole_two_pow e) (units_whole_two_pow e')⟩
  have hone : R (f.whole 1) 1 := ⟨0, rfl, rfl⟩
  obtain ⟨-, -, hpower⟩ := raise_related hexact n ⟨e, rfl, rfl⟩ hone
  rw [power, hpower, raise_mul, Nat.one_mul, ← Nat.pow_mul]

/-! ## Whole numbers, exact while they are small -/

/-- `k` is the ordinal of the whole number `v` if that has few enough bits; if it
has more, then `k` is not below the ordinals of those that have not. -/
structure Tracks (f : Format) (k v : Nat) : Prop where
  positive : 0 < v
  exact_small : v < 2 * f.step → k = f.whole v
  large : 2 * f.step ≤ v → f.whole (2 * f.step) ≤ k

namespace Tracks

variable {j k v w : Nat}

theorem whole (h : 0 < v) : f.Tracks (f.whole v) v :=
  ⟨h, fun _ => rfl, whole_mono⟩

theorem whole_one_le (h : f.Tracks k v) : f.whole 1 ≤ k := by
  rcases Nat.lt_or_ge v (2 * f.step) with hsmall | hlarge
  · rw [h.exact_small hsmall]
    exact whole_mono h.positive
  · have hstep := f.step_pos
    exact Nat.le_trans (whole_mono (by omega)) (h.large hlarge)

theorem times (hj : f.Tracks j v) (hk : f.Tracks k w) : f.Tracks (f.times j k) (v * w) := by
  have hvw : v ≤ v * w := Nat.le_mul_of_pos_right v hk.positive
  have hwv : w ≤ v * w := Nat.le_mul_of_pos_left w hj.positive
  refine ⟨Nat.mul_pos hj.positive hk.positive, fun hsmall => ?_, fun hlarge => ?_⟩
  · rw [hj.exact_small (by omega), hk.exact_small (by omega)]
    exact times_whole (units_whole (by omega)) (units_whole (by omega))
  · rcases Nat.lt_or_ge v (2 * f.step) with hv | hv
    · rcases Nat.lt_or_ge w (2 * f.step) with hw | hw
      · -- two small factors, and a product that is rounded once
        rw [hj.exact_small hv, hk.exact_small hw,
          times_whole (units_whole (by omega)) (units_whole (by omega))]
        exact whole_mono hlarge
      · exact Nat.le_trans (hk.large hw) (le_times_right hj.whole_one_le)
    · exact Nat.le_trans (hj.large hv) (le_times hk.whole_one_le)

theorem power (n : Nat) (h : f.Tracks k v) : f.Tracks (f.power n k) (v ^ n) := by
  have hpower := raise_related (R := f.Tracks) times n h (whole Nat.one_pos)
  rwa [raise_mul, Nat.one_mul] at hpower

/-- A bound of few enough bits leaves no difference. -/
theorem min_whole {bound : Nat} (h : f.Tracks k v) (hbound : bound ≤ 2 * f.step) :
    min k (f.whole bound) = f.whole (min v bound) := by
  rcases Nat.le_total v bound with hless | hmore
  · have hsmall : v < 2 * f.step ∨ v = 2 * f.step := by omega
    rw [Nat.min_eq_left hless]
    rcases hsmall with hv | rfl
    · rw [h.exact_small hv]
      exact Nat.min_eq_left (whole_mono hless)
    · rw [show bound = 2 * f.step by omega]
      exact Nat.min_eq_right (h.large (Nat.le_refl _))
  · rw [Nat.min_eq_right hmore]
    refine Nat.min_eq_right ?_
    rcases Nat.lt_or_ge v (2 * f.step) with hv | hv
    · rw [h.exact_small hv]
      exact whole_mono hmore
    · exact Nat.le_trans (whole_mono hbound) (h.large hv)

end Tracks

end Format

/-- Numbers that are at least one are raised as ordinals are. -/
theorem Binary.pow_ofOrdinal {f : Format} {k : Nat} (n : Nat) (h : f.whole 1 ≤ k) :
    (Binary.ofOrdinal f false k).pow n = Binary.ofOrdinal f false (f.power n k) := by
  let R (x : Binary f) (j : Nat) : Prop := x = ofOrdinal f false j ∧ f.whole 1 ≤ j
  have hproduct : ∀ {x j x' j'}, R x j → R x' j' → R (x.mul x') (f.times j j') := by
    rintro _ j _ j' ⟨rfl, hj⟩ ⟨rfl, hj'⟩
    exact ⟨mul_ofOrdinal hj hj', Nat.le_trans hj (Format.le_times hj')⟩
  rw [pow_eq_raise]
  exact (raise_related (R := R) hproduct n ⟨rfl, h⟩ ⟨ofNat_eq_ofOrdinal 1, Nat.le_refl _⟩).1

end AgentLoop.Number
