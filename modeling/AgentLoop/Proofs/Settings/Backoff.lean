/-
AgentLoop.Proofs.Settings.Backoff — how long a policy waits.

* `RetryPolicy.GrowsBy` — the multiplier is a whole number, and the waits are
  whole numbers that double precision has
* `RetryPolicy.backoff_of_initial`, `RetryPolicy.backoff_of_none` — the wait, with
  and without an initial wait
* `RetryPolicy.growth_finite_mono`, `RetryPolicy.growth_bounds` — when the growth
  factor leaves double precision
* `RetryPolicy.backoff_exact` — waits are exact powers, cut off at the greatest
  wait; the one exception is a policy without an initial wait whose growth factor
  has become infinite
* `RetryPolicy.backoff_of_infinite_growth` — such a policy, and its first wait

The power is formed before the initial wait is multiplied in. With an initial
wait that does no harm, since an infinite product is cut off as any large one is.
Without one, zero times infinity is no number, and the minimum of no number and
the greatest wait is the greatest wait.
-/
import AgentLoop.Proofs.Number.Powers
import AgentLoop.Settings

namespace AgentLoop

open Number

namespace RetryPolicy

/-- The growth factor in front of a repetition. -/
def growth (p : RetryPolicy) (retry : Nat) : Binary binary64 :=
  (p.multiplier.max (.ofNat binary64 1)).pow (min (retry - 1) maxExponent)

/-- The multiplier is the whole number `m`, and the waits are whole numbers that
double precision has. -/
structure GrowsBy (p : RetryPolicy) (m : Nat) : Prop where
  multiplier : ∃ x, p.multiplier = .finite x ∧ x.negative = false ∧ x.units = m * binary64.one
  positive : 1 ≤ m
  initial_le : p.initialBackoffMs ≤ 2 ^ 53
  greatest_le : p.maxBackoffMs ≤ 2 ^ 53

variable {p : RetryPolicy} {m : Nat}

/-! ## The growth factor -/

theorem GrowsBy.growth_eq (h : p.GrowsBy m) (retry : Nat) :
    p.growth retry = .ofOrdinal binary64 false
      (binary64.power (min (retry - 1) maxExponent) (binary64.whole m)) := by
  obtain ⟨x, hx, hplus, hunits⟩ := h.multiplier
  have hone : binary64.whole 1 ≤ binary64.whole m := Format.whole_mono h.positive
  rw [growth, hx, Binary.finite_eq_ofOrdinal hplus hunits, Binary.ofNat_eq_ofOrdinal,
    Binary.max_ofOrdinal, Nat.max_eq_left hone, Binary.pow_ofOrdinal _ hone]

theorem GrowsBy.growth_finite_iff (h : p.GrowsBy m) (retry : Nat) :
    (p.growth retry).isFinite = true ↔
      binary64.power (min (retry - 1) maxExponent) (binary64.whole m) < binary64.limit := by
  rw [h.growth_eq, Binary.isFinite_ofOrdinal]

/-- A growth factor that was finite later on was finite before. -/
theorem GrowsBy.growth_finite_mono (h : p.GrowsBy m) {retry retry' : Nat} (hle : retry ≤ retry')
    (hfinite : (p.growth retry').isFinite = true) : (p.growth retry).isFinite = true := by
  rw [h.growth_finite_iff] at hfinite ⊢
  exact Nat.lt_of_le_of_lt
    (Format.power_mono (Format.whole_mono h.positive) (by omega)) hfinite

theorem limit_eq_whole : binary64.limit = binary64.whole (2 ^ 1024) := by decide +kernel

theorem whole_below_limit : binary64.whole (2 ^ 1023) < binary64.limit := by decide +kernel

theorem whole_lt_limit {n : Nat} (h : n ≤ 2 ^ 53) : binary64.whole n < binary64.limit :=
  calc binary64.whole n
      ≤ binary64.whole (2 ^ 53) := Format.whole_mono h
    _ ≤ binary64.whole (2 ^ 1023) := Format.whole_two_pow_mono (by decide)
    _ < binary64.limit := whole_below_limit

/-- Up to where the growth factor is finite, between powers of two. -/
theorem GrowsBy.growth_finite (h : p.GrowsBy m) {e retry : Nat} (hm : m ≤ 2 ^ e)
    (hsmall : e * (retry - 1) < 1024) : (p.growth retry).isFinite = true := by
  have hexponent : e * min (retry - 1) maxExponent ≤ 1023 :=
    Nat.le_trans (Nat.mul_le_mul_left e (Nat.min_le_left _ _)) (by omega)
  rw [h.growth_finite_iff]
  calc binary64.power (min (retry - 1) maxExponent) (binary64.whole m)
      ≤ binary64.power (min (retry - 1) maxExponent) (binary64.whole (2 ^ e)) :=
        Format.power_le_power _ (Format.whole_mono hm)
    _ = binary64.whole (2 ^ (e * min (retry - 1) maxExponent)) := Format.power_whole_two_pow e _
    _ ≤ binary64.whole (2 ^ 1023) := Format.whole_two_pow_mono hexponent
    _ < binary64.limit := whole_below_limit

/-- From where on it is infinite. -/
theorem GrowsBy.growth_infinite (h : p.GrowsBy m) {e retry : Nat} (hm : 2 ^ e ≤ m)
    (hlarge : 1024 ≤ e * (retry - 1)) : (p.growth retry).isFinite = false := by
  have hexponent : 1024 ≤ e * min (retry - 1) maxExponent := by
    rcases Nat.le_total (retry - 1) maxExponent with hbelow | habove
    · rwa [Nat.min_eq_left hbelow]
    · have hsome : 0 < e := Nat.pos_of_ne_zero fun hzero => by simp [hzero] at hlarge
      rw [Nat.min_eq_right habove]
      exact Nat.le_trans (by decide : 1024 ≤ maxExponent) (Nat.le_mul_of_pos_left _ hsome)
  rw [Bool.eq_false_iff, Ne, h.growth_finite_iff, Nat.not_lt]
  calc binary64.limit
      = binary64.whole (2 ^ 1024) := limit_eq_whole
    _ ≤ binary64.whole (2 ^ (e * min (retry - 1) maxExponent)) :=
        Format.whole_two_pow_mono hexponent
    _ = binary64.power (min (retry - 1) maxExponent) (binary64.whole (2 ^ e)) :=
        (Format.power_whole_two_pow e _).symm
    _ ≤ binary64.power (min (retry - 1) maxExponent) (binary64.whole m) :=
        Format.power_le_power _ (Format.whole_mono hm)

/-! ## The wait -/

theorem backoff_eq (p : RetryPolicy) (retry : Nat) :
    p.backoff retry = ((((Binary.ofNat binary64 p.initialBackoffMs).mul (p.growth retry)).min
      (.ofNat binary64 p.maxBackoffMs)).max (.ofNat binary64 0)).toNatSaturating max64 := rfl

theorem two_steps : 2 * binary64.step = 2 ^ 53 := by decide

/-- A whole number of few enough bits is a wait as it is. -/
theorem wait_whole {n : Nat} (h : n ≤ 2 ^ 53) :
    ((Binary.ofNat binary64 n).max (.ofNat binary64 0)).toNatSaturating max64 = n := by
  rw [Binary.ofNat_eq_ofOrdinal, Binary.ofNat_eq_ofOrdinal, Binary.max_ofOrdinal,
    Format.whole_zero, Nat.max_zero]
  exact Binary.toNatSaturating_whole (by rwa [two_steps]) (whole_lt_limit h)
    (Nat.le_trans h (by decide))

/-- A power that is cut off at the greatest exponent is cut off at the greatest
wait all the same. -/
theorem min_pow_maxExponent {initial greatest : Nat} (n : Nat) (hm : 1 ≤ m)
    (hinitial : 1 ≤ initial) (hgreatest : greatest ≤ 2 ^ 53) :
    min greatest (initial * m ^ min n maxExponent) = min greatest (initial * m ^ n) := by
  rcases Nat.le_total n maxExponent with hbelow | habove
  · rw [Nat.min_eq_left hbelow]
  · rcases Nat.eq_or_lt_of_le hm with rfl | htwo
    · simp
    · have hcut : ∀ k, maxExponent ≤ k → greatest ≤ initial * m ^ k := by
        intro k hk
        calc greatest
            ≤ 2 ^ 53 := hgreatest
          _ ≤ 2 ^ k := Nat.pow_le_pow_right Nat.two_pos
                (Nat.le_trans (by decide : 53 ≤ maxExponent) hk)
          _ ≤ m ^ k := Nat.pow_le_pow_left htwo k
          _ ≤ initial * m ^ k := Nat.le_mul_of_pos_left _ hinitial
      rw [Nat.min_eq_right habove, Nat.min_eq_left (hcut _ (Nat.le_refl _)),
        Nat.min_eq_left (hcut _ habove)]

/-- With an initial wait the wait is exact. -/
theorem GrowsBy.backoff_of_initial (h : p.GrowsBy m) (hinitial : 1 ≤ p.initialBackoffMs)
    (retry : Nat) :
    p.backoff retry = min p.maxBackoffMs (p.initialBackoffMs * m ^ (retry - 1)) := by
  have hgreatest := h.greatest_le
  have htracks : binary64.Tracks _ _ := (Format.Tracks.whole hinitial).times
    ((Format.Tracks.whole h.positive).power (min (retry - 1) maxExponent))
  have hbound : p.maxBackoffMs ≤ 2 * binary64.step := by rwa [two_steps]
  have hcut := htracks.min_whole hbound
  rw [backoff_eq, h.growth_eq, Binary.ofNat_eq_ofOrdinal,
    Binary.mul_ofOrdinal (Format.whole_mono hinitial)
      (Format.whole_one_le_power _ (Format.whole_mono h.positive)),
    Binary.ofNat_eq_ofOrdinal, Binary.min_ofOrdinal, hcut, ← Binary.ofNat_eq_ofOrdinal,
    wait_whole (Nat.le_trans (Nat.min_le_right _ _) hgreatest), Nat.min_comm,
    min_pow_maxExponent _ h.positive hinitial hgreatest]

/-- Without an initial wait there is none, until the growth factor is infinite. -/
theorem GrowsBy.backoff_of_none (h : p.GrowsBy m) (hnone : p.initialBackoffMs = 0) (retry : Nat) :
    p.backoff retry = if (p.growth retry).isFinite then 0 else p.maxBackoffMs := by
  have hproduct : (Binary.ofNat binary64 0).mul (p.growth retry) =
      if (p.growth retry).isFinite then .ofNat binary64 0 else .nan := by
    have hfinite := h.growth_finite_iff retry
    rw [Binary.ofNat_eq_ofOrdinal, Format.whole_zero]
    split
    · rename_i hgrowth
      rw [h.growth_eq]
      exact Binary.zero_mul_ofOrdinal (hfinite.mp hgrowth)
    · rename_i hgrowth
      rw [h.growth_eq, Binary.ofOrdinal_of_limit_le (Nat.le_of_not_lt (mt hfinite.mpr hgrowth))]
      rfl
  rw [backoff_eq, hnone, hproduct]
  split
  · have hmin : (Binary.ofNat binary64 0).min (.ofNat binary64 p.maxBackoffMs) =
        .ofNat binary64 0 := by
      rw [Binary.ofNat_eq_ofOrdinal, Binary.ofNat_eq_ofOrdinal, Binary.min_ofOrdinal,
        Nat.min_eq_left (Format.whole_mono (Nat.zero_le _))]
    rw [hmin, wait_whole (Nat.zero_le _)]
  · exact wait_whole h.greatest_le

/-- Waits are exact powers, cut off at the greatest wait, and never decrease. Only
a policy without an initial wait comes to wait, at its greatest, once the growth
factor has become infinite. -/
theorem backoff_exact {p : RetryPolicy} {m : Nat} (h : p.GrowsBy m) :
    (∀ retry, 1 ≤ p.initialBackoffMs ∨ (p.growth retry).isFinite = true →
      p.backoff retry = min p.maxBackoffMs (p.initialBackoffMs * m ^ (retry - 1))) ∧
    (∀ retry, p.initialBackoffMs = 0 →
      p.backoff retry = if (p.growth retry).isFinite then 0 else p.maxBackoffMs) ∧
    (∀ e retry, m ≤ 2 ^ e → e * (retry - 1) < 1024 → (p.growth retry).isFinite = true) ∧
    (∀ e retry, 2 ^ e ≤ m → 1024 ≤ e * (retry - 1) → (p.growth retry).isFinite = false) ∧
    (∀ retry, p.backoff retry ≤ p.maxBackoffMs) ∧
    (∀ retry retry', retry ≤ retry' → p.backoff retry ≤ p.backoff retry') := by
  refine ⟨fun retry hexact => ?_, fun retry hnone => h.backoff_of_none hnone retry,
    fun e retry => h.growth_finite, fun e retry => h.growth_infinite, fun retry => ?_,
    fun retry retry' hle => ?_⟩
  all_goals rcases Nat.eq_zero_or_pos p.initialBackoffMs with hnone | hinitial
  -- exact waits
  · have hfinite : (p.growth retry).isFinite = true := hexact.resolve_left (by omega)
    rw [h.backoff_of_none hnone, hnone, if_pos hfinite, Nat.zero_mul, Nat.min_zero]
  · exact h.backoff_of_initial hinitial retry
  -- the greatest wait
  · rw [h.backoff_of_none hnone]
    split
    · exact Nat.zero_le _
    · exact Nat.le_refl _
  · rw [h.backoff_of_initial hinitial]
    exact Nat.min_le_left _ _
  -- later waits
  · rw [h.backoff_of_none hnone, h.backoff_of_none hnone]
    split
    · exact Nat.zero_le _
    · rename_i hinfinite
      exact Nat.le_of_eq (if_neg (mt (h.growth_finite_mono hle) hinfinite)).symm
  · rw [h.backoff_of_initial hinitial, h.backoff_of_initial hinitial]
    have hpower : m ^ (retry - 1) ≤ m ^ (retry' - 1) :=
      Nat.pow_le_pow_right h.positive (by omega)
    have hproduct := Nat.mul_le_mul_left p.initialBackoffMs hpower
    omega

/-- A whole multiplier that double precision has, and such waits. -/
theorem growsBy_ofNat (hmultiplier : p.multiplier = .ofNat binary64 m) (hm : 1 ≤ m)
    (hsmall : m ≤ 2 ^ 53) (hinitial : p.initialBackoffMs ≤ 2 ^ 53)
    (hgreatest : p.maxBackoffMs ≤ 2 ^ 53) : p.GrowsBy m := by
  have hfinite : binary64.whole m < binary64.limit := whole_lt_limit hsmall
  refine ⟨⟨⟨false, binary64.whole m, hfinite⟩, ?_, rfl, ?_⟩, hm, hinitial, hgreatest⟩
  · rw [hmultiplier, Binary.ofNat_eq_ofOrdinal, Binary.ofOrdinal, dif_pos hfinite]
  · exact Format.units_whole (by rwa [two_steps])

/-- The default policy waits 200, 400, 800, 1600 and 3200 milliseconds, and five
seconds from then on. -/
theorem default_waits :
    ({} : RetryPolicy).GrowsBy 2 ∧ ({} : RetryPolicy).backoff 4 = 1600 ∧
      ({} : RetryPolicy).backoff 2000 = 5000 ∧
      ∀ retry, ({} : RetryPolicy).backoff retry ≤ 5000 := by
  have hgrows : ({} : RetryPolicy).GrowsBy 2 :=
    growsBy_ofNat (by simp only) (by decide) (by decide) (by decide) (by decide)
  obtain ⟨hexact, -, -, -, hgreatest, hlater⟩ := backoff_exact hgrows
  have hfourth : ({} : RetryPolicy).backoff 4 = min 5000 (200 * 2 ^ 3) :=
    hexact 4 (.inl (by decide))
  have hsixth : ({} : RetryPolicy).backoff 6 = min 5000 (200 * 2 ^ 5) :=
    hexact 6 (.inl (by decide))
  refine ⟨hgrows, hfourth, Nat.le_antisymm (hgreatest 2000) ?_, hgreatest⟩
  have hsince := hlater 6 2000 (by decide)
  rwa [hsixth] at hsince

/-- Two thousand repetitions that are not meant to wait. -/
def unwaiting : RetryPolicy := { maxRetries := 2000, initialBackoffMs := 0 }

/-- The first 1024 of them do not, and the next one waits five seconds: zero times
two to the power of 1024 is no number in double precision. -/
theorem backoff_of_infinite_growth :
    unwaiting.GrowsBy 2 ∧ unwaiting.backoff 1024 = 0 ∧ unwaiting.backoff 1025 = 5000 ∧
      min unwaiting.maxBackoffMs (unwaiting.initialBackoffMs * 2 ^ (1025 - 1)) = 0 := by
  have hgrows : unwaiting.GrowsBy 2 :=
    growsBy_ofNat (by simp only [unwaiting]) (by decide) (by decide) (by decide) (by decide)
  have hfinite : (unwaiting.growth 1024).isFinite = true :=
    @GrowsBy.growth_finite _ _ hgrows 1 1024 (by decide) (by decide)
  have hinfinite : (unwaiting.growth 1025).isFinite = false :=
    @GrowsBy.growth_infinite _ _ hgrows 1 1025 (by decide) (by decide)
  refine ⟨hgrows, ?_, ?_, ?_⟩
  · rw [hgrows.backoff_of_none rfl, if_pos hfinite]
  · rw [hgrows.backoff_of_none rfl, hinfinite]
    rfl
  · rw [show unwaiting.initialBackoffMs = 0 from rfl, Nat.zero_mul, Nat.min_zero]

end RetryPolicy

end AgentLoop
