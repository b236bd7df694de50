/-
AgentLoop.Proofs.Provider.Usage — usages added up.

* `TokenUsage.sum` — usages added up count by count, cut off once at the end
* `sum_append`, `sum_perm`, `foldl_add_sum` — the same parts give the same sum
* `TokenUsage.Grouping` — a way to add usages up, two at a time
* `Grouping.value_eq_sum` — all ways come to the same
* `sum_consistent` — the total of a sum is that of its prompt and completion, if it
  is so in each part

A count that has reached the greatest one stays there, so it does not matter
whether a sum is cut off at each step or at its end.
-/
import AgentLoop.Provider.Reply

namespace AgentLoop

open Number (max32 addUpTo)

namespace Number

/-- Counts may be cut off before they are added. -/
theorem addUpTo_min (top a b : Nat) :
    addUpTo top (min a top) (min b top) = min (a + b) top := by
  simp only [addUpTo]
  omega

end Number

namespace TokenUsage

/-! ## The sum -/

/-- A count of some usages, added up without a limit. -/
def countIn (count : TokenUsage → Nat) (us : List TokenUsage) : Nat :=
  us.foldr (fun u n => count u + n) 0

/-- Usages added up count by count, with each count cut off at the greatest one. -/
def sum (us : List TokenUsage) : TokenUsage :=
  ⟨min (countIn prompt us) max32, min (countIn completion us) max32,
   min (countIn total us) max32⟩

theorem countIn_append (count : TokenUsage → Nat) (us vs : List TokenUsage) :
    countIn count (us ++ vs) = countIn count us + countIn count vs := by
  induction us with
  | nil => exact (Nat.zero_add _).symm
  | cons u rest ih =>
    show count u + countIn count (rest ++ vs) = count u + countIn count rest + _
    rw [ih, Nat.add_assoc]

theorem countIn_perm (count : TokenUsage → Nat) {us vs : List TokenUsage} (h : us.Perm vs) :
    countIn count us = countIn count vs := by
  induction h with
  | nil => rfl
  | cons u _ ih => exact congrArg (count u + ·) ih
  | swap u v rest => exact Nat.add_left_comm ..
  | trans _ _ ih ih' => exact ih.trans ih'

theorem sum_append (us vs : List TokenUsage) : sum (us ++ vs) = sum us + sum vs := by
  change sum (us ++ vs) = add (sum us) (sum vs)
  simp only [sum, add, countIn_append, Number.addUpTo_min]

theorem sum_perm {us vs : List TokenUsage} (h : us.Perm vs) : sum us = sum vs := by
  simp only [sum, countIn_perm _ h]

theorem sum_singleton (u : TokenUsage) : sum [u] = {} + u := by
  change sum [u] = add {} u
  simp [sum, countIn, add, addUpTo]

/-- Nothing changes a sum, for it is cut off already. -/
theorem sum_add_nothing (us : List TokenUsage) : sum us + {} = sum us := by
  change sum us + sum [] = _
  rw [← sum_append, List.append_nil]

/-- One usage more. -/
theorem sum_concat (us : List TokenUsage) (u : TokenUsage) : sum (us ++ [u]) = sum us + u := by
  rw [sum_append, sum_singleton, ← add_assoc, sum_add_nothing]

/-- Usages that are added one after the other to a sum belong to it. -/
theorem foldl_add_sum (us vs : List TokenUsage) :
    vs.foldl (· + ·) (sum us) = sum (us ++ vs) := by
  induction vs generalizing us with
  | nil => rw [List.append_nil, List.foldl_nil]
  | cons v rest ih => rw [List.foldl_cons, ← sum_concat, ih, List.append_assoc, List.singleton_append]

/-! ## Orders and groups -/

/-- A way to add usages up: there are none, or there is one, or those of two groups
are added up and then the two sums. -/
inductive Grouping where
  | nothing
  | one (u : TokenUsage)
  | both (first second : Grouping)

/-- The usages that are added up, in their order. -/
def Grouping.usages : Grouping → List TokenUsage
  | .nothing => []
  | .one u => [u]
  | .both first second => first.usages ++ second.usages

/-- What comes of it. -/
def Grouping.value : Grouping → TokenUsage
  | .nothing => {}
  | .one u => u
  | .both first second => first.value + second.value

/-- Each count is one of 32 bits. -/
structure Fits (u : TokenUsage) : Prop where
  prompt : u.prompt ≤ max32
  completion : u.completion ≤ max32
  total : u.total ≤ max32

theorem Fits.add (a b : TokenUsage) : (a + b).Fits :=
  ⟨Number.addUpTo_le .., Number.addUpTo_le .., Number.addUpTo_le ..⟩

theorem Fits.nothing_add {u : TokenUsage} (h : u.Fits) : {} + u = u := by
  change TokenUsage.add {} u = u
  simp [TokenUsage.add, addUpTo, Nat.min_eq_left h.prompt, Nat.min_eq_left h.completion,
    Nat.min_eq_left h.total]

namespace Grouping

/-- Added to nothing, every way comes to the sum of its usages. -/
theorem nothing_add_value (g : Grouping) : {} + g.value = sum g.usages := by
  induction g with
  | nothing => rfl
  | one u => exact (sum_singleton u).symm
  | both first second ih ih' =>
    calc {} + (first.value + second.value)
        = sum first.usages + second.value := by rw [← add_assoc, ih]
      _ = sum first.usages + {} + second.value := by rw [sum_add_nothing]
      _ = sum first.usages + sum second.usages := by rw [add_assoc, ih']
      _ = sum (first.usages ++ second.usages) := (sum_append ..).symm

theorem fits_value {g : Grouping} (h : ∀ u ∈ g.usages, u.Fits) : g.value.Fits := by
  cases g with
  | nothing => exact ⟨Nat.zero_le _, Nat.zero_le _, Nat.zero_le _⟩
  | one u => exact h u (List.mem_singleton_self u)
  | both first second => exact .add _ _

/-- Usages of 32 bits come to their sum in every order and all groups. -/
theorem value_eq_sum {g : Grouping} (h : ∀ u ∈ g.usages, u.Fits) : g.value = sum g.usages := by
  rw [← nothing_add_value, (fits_value h).nothing_add]

end Grouping

/-! ## The total of a sum -/

/-- The total is that of prompt and completion. -/
def Consistent (u : TokenUsage) : Prop := u.total = addUpTo max32 u.prompt u.completion

instance decidableConsistent (u : TokenUsage) : Decidable u.Consistent :=
  inferInstanceAs (Decidable (u.total = addUpTo max32 u.prompt u.completion))

theorem min_countIn_total {us : List TokenUsage} (h : ∀ u ∈ us, u.Consistent) :
    min (countIn total us) max32 = min (countIn prompt us + countIn completion us) max32 := by
  induction us with
  | nil => rfl
  | cons u rest ih =>
    have hfirst : u.total = min (u.prompt + u.completion) max32 := h u List.mem_cons_self
    have hrest := ih fun v hv => h v (List.mem_cons_of_mem u hv)
    show min (u.total + countIn total rest) max32 =
      min (u.prompt + countIn prompt rest + (u.completion + countIn completion rest)) max32
    omega

/-- The total of a sum is that of its prompt and completion, if that is so in each
of its parts. -/
theorem sum_consistent {us : List TokenUsage} (h : ∀ u ∈ us, u.Consistent) :
    (sum us).Consistent := by
  show min (countIn total us) max32 = addUpTo max32 (min _ max32) (min _ max32)
  rw [min_countIn_total h, Number.addUpTo_min]

end TokenUsage

end AgentLoop
