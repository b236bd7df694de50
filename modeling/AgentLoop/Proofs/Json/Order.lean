/-
AgentLoop.Proofs.Json.Order — the order of JSON values is total and agrees
with their equality.

* `Chains` — how the comparisons of three values in a row hang together
* `TotalOrder` — a comparison that can be turned round, is equal just on
  equal values, and is transitive
* `Json.cmp_swap`, `Json.cmp_eq_iff_same`, `Json.cmp_chains` — the three
  laws, by recursion over values, items and fields at once
* `Json.cmp_totalOrder`

Transitivity alone does not carry over to a comparison item by item: a row
may be decided at an item where the next row is still even. `Chains` says
where the third comparison is decided, and that does carry over.
-/
import AgentLoop.Json.Basic

namespace AgentLoop

/-! ## Comparisons in a row -/

/-- Of three values that do not descend, the first is to the third as it is
to the second, and as the second to the third where these two are equal. -/
def Chains (ab bc ac : Ordering) : Prop :=
  ab.isLE → bc.isLE → ac = ab.then bc

namespace Chains

variable {ab bc ac : Ordering}

theorem of_compare {α : Type} [Ord α] [Std.TransOrd α] (a b c : α) :
    Chains (compare a b) (compare b c) (compare a c) := by
  intro hab hbc
  cases h : compare a b with
  | lt => exact Std.TransCmp.lt_of_lt_of_isLE h hbc
  | eq => exact Std.TransCmp.congr_left h
  | gt => simp [h] at hab

/-- Comparisons one after the other chain if each of them does. -/
theorem andThen {ab' bc' ac' : Ordering} (h : Chains ab bc ac)
    (h' : Chains ab' bc' ac') :
    Chains (ab.then ab') (bc.then bc') (ac.then ac') := by
  intro hab hbc
  cases ab with
  | lt => cases bc <;> simp_all [Chains]
  | eq =>
    cases bc with
    | lt => cases ab' <;> simp_all [Chains]
    | eq => simpa [h rfl rfl] using h' hab hbc
    | gt => simp at hbc
  | gt => simp at hab

theorem isLE (h : Chains ab bc ac) (hab : ab.isLE) (hbc : bc.isLE) : ac.isLE := by
  rw [h hab hbc]
  cases ab <;> simp_all

end Chains

/-- A comparison is a total order, and `same` is its equality. -/
structure TotalOrder {α : Type} (cmp : α → α → Ordering) (same : α → α → Bool) :
    Prop where
  swap : ∀ a b, cmp a b = (cmp b a).swap
  eq_iff : ∀ a b, cmp a b = .eq ↔ same a b = true
  trans : ∀ a b c, (cmp a b).isLE → (cmp b c).isLE → (cmp a c).isLE

namespace Json

/-! ## Values of different kinds -/

theorem cmp_of_rank_ne {a b : Json} (h : a.rank ≠ b.rank) :
    a.cmp b = compare a.rank b.rank := by
  cases a <;> cases b <;> first | exact absurd rfl h | simp [cmp]

theorem not_same_of_rank_ne {a b : Json} (h : a.rank ≠ b.rank) : a.same b = false := by
  cases a <;> cases b <;> first | exact absurd rfl h | simp [same]

theorem rank_le_of_isLE {a b : Json} (h : (a.cmp b).isLE) : a.rank ≤ b.rank := by
  by_cases hrank : a.rank = b.rank
  · omega
  · rw [cmp_of_rank_ne hrank] at h
    exact Nat.isLE_compare.mp h

/-! ## The three laws -/

mutual

theorem cmp_swap (a b : Json) : a.cmp b = (b.cmp a).swap := by
  by_cases hrank : a.rank = b.rank
  · cases a <;> cases b <;> simp only [rank, reduceCtorEq] at hrank <;> try contradiction
    case null.null => simp [cmp]
    case array.array => simpa only [cmp] using cmpItems_swap _ _
    case object.object => simpa only [cmp] using cmpFields_swap _ _
    all_goals simpa only [cmp] using Std.OrientedOrd.eq_swap
  · rw [cmp_of_rank_ne hrank, cmp_of_rank_ne (Ne.symm hrank)]
    exact Std.OrientedOrd.eq_swap

theorem cmpItems_swap (as bs : List Json) : cmpItems as bs = (cmpItems bs as).swap := by
  match as, bs with
  | [], [] | [], _ :: _ | _ :: _, [] => simp [cmpItems]
  | a :: as, b :: bs =>
    rw [cmpItems, cmpItems, cmp_swap a b, cmpItems_swap as bs, Ordering.swap_then]

theorem cmpFields_swap (as bs : List (String × Json)) :
    cmpFields as bs = (cmpFields bs as).swap := by
  match as, bs with
  | [], [] | [], _ :: _ | _ :: _, [] => simp [cmpFields]
  | (k, a) :: as, (l, b) :: bs =>
    have hkey : compare k l = (compare l k).swap := Std.OrientedOrd.eq_swap
    rw [cmpFields, cmpFields, hkey, cmp_swap a b, cmpFields_swap as bs, Ordering.swap_then,
      Ordering.swap_then]

end

mutual

/-- Values compare equal just if they are the same. -/
theorem cmp_eq_iff_same (a b : Json) : a.cmp b = .eq ↔ a.same b = true := by
  by_cases hrank : a.rank = b.rank
  · cases a <;> cases b <;> simp only [rank, reduceCtorEq] at hrank <;> try contradiction
    case null.null => simp [cmp, same]
    case float.float x y => simp [cmp, same, Number.Finite.sameValue]
    case array.array => simpa only [cmp, same] using cmpItems_eq_iff _ _
    case object.object => simpa only [cmp, same] using cmpFields_eq_iff _ _
    all_goals simp [cmp, same]
  · have hne : compare a.rank b.rank ≠ .eq := by simpa using hrank
    simp [cmp_of_rank_ne hrank, not_same_of_rank_ne hrank, hne]

theorem cmpItems_eq_iff (as bs : List Json) :
    cmpItems as bs = .eq ↔ sameItems as bs = true := by
  match as, bs with
  | [], [] | [], _ :: _ | _ :: _, [] => simp [cmpItems, sameItems]
  | a :: as, b :: bs =>
    have hitem := cmp_eq_iff_same a b
    have hrest := cmpItems_eq_iff as bs
    simp [cmpItems, sameItems, Ordering.then_eq_eq, hitem, hrest]

theorem cmpFields_eq_iff (as bs : List (String × Json)) :
    cmpFields as bs = .eq ↔ sameFields as bs = true := by
  match as, bs with
  | [], [] | [], _ :: _ | _ :: _, [] => simp [cmpFields, sameFields]
  | (k, a) :: as, (l, b) :: bs =>
    have hvalue := cmp_eq_iff_same a b
    have hrest := cmpFields_eq_iff as bs
    simp [cmpFields, sameFields, Ordering.then_eq_eq, hvalue, hrest]

end

mutual

theorem cmp_chains (a b c : Json) : Chains (a.cmp b) (b.cmp c) (a.cmp c) := by
  by_cases hab : a.rank = b.rank
  · by_cases hbc : b.rank = c.rank
    · cases a <;> cases b <;> simp only [rank, reduceCtorEq] at hab <;> try contradiction
      all_goals cases c <;> simp only [rank, reduceCtorEq] at hbc <;> try contradiction
      case null.null.null => simp [cmp, Chains]
      case array.array.array => simpa only [cmp] using cmpItems_chains _ _ _
      case object.object.object => simpa only [cmp] using cmpFields_chains _ _ _
      all_goals simpa only [cmp] using Chains.of_compare _ _ _
    · -- the second step goes up by kind, and so does the whole
      have hac : a.rank ≠ c.rank := hab ▸ hbc
      intro h h'
      rw [cmp_of_rank_ne hbc] at h' ⊢
      have hlt : compare b.rank c.rank = .lt := by
        have := Nat.isLE_compare.mp h'
        exact Nat.compare_eq_lt.mpr (by omega)
      rw [cmp_of_rank_ne hac, hab, hlt]
      cases hcmp : a.cmp b <;> simp_all
  · intro h h'
    have hle := rank_le_of_isLE h
    have hle' := rank_le_of_isLE h'
    have hlt : compare a.rank b.rank = .lt := Nat.compare_eq_lt.mpr (by omega)
    have hlt' : compare a.rank c.rank = .lt := Nat.compare_eq_lt.mpr (by omega)
    rw [cmp_of_rank_ne hab, cmp_of_rank_ne (by omega), hlt, hlt']
    rfl

theorem cmpItems_chains (as bs cs : List Json) :
    Chains (cmpItems as bs) (cmpItems bs cs) (cmpItems as cs) := by
  match as, bs, cs with
  | [], [], [] | [], [], _ :: _ | [], _ :: _, [] | [], _ :: _, _ :: _ =>
    simp [cmpItems, Chains]
  | _ :: _, [], [] | _ :: _, [], _ :: _ | _ :: _, _ :: _, [] => simp [cmpItems, Chains]
  | a :: as, b :: bs, c :: cs =>
    simpa only [cmpItems] using (cmp_chains a b c).andThen (cmpItems_chains as bs cs)

theorem cmpFields_chains (as bs cs : List (String × Json)) :
    Chains (cmpFields as bs) (cmpFields bs cs) (cmpFields as cs) := by
  match as, bs, cs with
  | [], [], [] | [], [], _ :: _ | [], _ :: _, [] | [], _ :: _, _ :: _ =>
    simp [cmpFields, Chains]
  | _ :: _, [], [] | _ :: _, [], _ :: _ | _ :: _, _ :: _, [] => simp [cmpFields, Chains]
  | (k, a) :: as, (l, b) :: bs, (m, c) :: cs =>
    have hkey := Chains.of_compare k l m
    simpa only [cmpFields] using
      (hkey.andThen (cmp_chains a b c)).andThen (cmpFields_chains as bs cs)

end

theorem cmp_totalOrder : TotalOrder Json.cmp Json.same where
  swap := cmp_swap
  eq_iff := cmp_eq_iff_same
  trans := fun a b c hab hbc => (cmp_chains a b c).isLE hab hbc

end Json

end AgentLoop
