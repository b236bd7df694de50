/-
AgentLoop.Proofs.Message.Order — the order of messages is total and agrees
with their equality.

* `Message.cmp_swap`, `Message.cmp_eq_iff_same`, `Message.cmp_chains` — the
  laws, kind by kind
* `Message.order_total` — the order of messages, and the order of the values
  that they carry

Messages of different kinds compare by kind alone; of one kind they compare
field by field, and each field has the laws of its own type.
-/
import AgentLoop.Message.Order
import AgentLoop.Proofs.Json.Order

namespace AgentLoop

/-! ## Fields -/

theorem NonBlank.compare_eq_iff (a b : NonBlank) :
    compare a.text b.text = .eq ↔ a = b := by
  cases a
  cases b
  simp

theorem CallId.compare_eq_iff (a b : CallId) :
    compare a.text b.text = .eq ↔ a = b := by
  cases a
  cases b
  simp

namespace Message

theorem compare_statusRank_eq_iff (s t : ToolStatus) :
    compare (statusRank s) (statusRank t) = .eq ↔ s = t := by
  cases s <;> cases t <;> simp [statusRank]

/-! ## Messages of different kinds -/

theorem cmp_of_rank_ne {a b : Message} (h : a.rank ≠ b.rank) :
    a.cmp b = compare a.rank b.rank := by
  cases a <;> cases b <;> first | exact absurd rfl h | rfl

theorem not_same_of_rank_ne {a b : Message} (h : a.rank ≠ b.rank) : (a == b) = false := by
  cases a <;> cases b <;> first | exact absurd rfl h | rfl

theorem rank_le_of_isLE {a b : Message} (h : (a.cmp b).isLE) : a.rank ≤ b.rank := by
  by_cases hrank : a.rank = b.rank
  · omega
  · rw [cmp_of_rank_ne hrank] at h
    exact Nat.isLE_compare.mp h

/-! ## The laws -/

theorem cmp_swap (a b : Message) : a.cmp b = (b.cmp a).swap := by
  by_cases hrank : a.rank = b.rank
  · have hjson := Json.cmp_swap
    have htext : ∀ s t : String, compare s t = (compare t s).swap :=
      fun _ _ => Std.OrientedOrd.eq_swap
    have hstatus : ∀ m n : Nat, compare m n = (compare n m).swap :=
      fun _ _ => Std.OrientedOrd.eq_swap
    cases a <;> cases b <;> simp only [rank, reduceCtorEq] at hrank <;> try contradiction
    case toolCall.toolCall i s x j t y =>
      rw [cmp, cmp, htext i.text, htext s.text, hjson x]
      simp only [Ordering.swap_then]
    case toolResult.toolResult i s x j t y =>
      rw [cmp, cmp, htext i.text, hstatus (statusRank s), hjson x]
      simp only [Ordering.swap_then]
    all_goals exact htext _ _
  · rw [cmp_of_rank_ne hrank, cmp_of_rank_ne (Ne.symm hrank)]
    exact Std.OrientedOrd.eq_swap

/-- Messages compare equal just if they are equal. -/
theorem cmp_eq_iff_same (a b : Message) : a.cmp b = .eq ↔ (a == b) = true := by
  show _ ↔ a.same b = true
  by_cases hrank : a.rank = b.rank
  · have hjson := Json.cmp_eq_iff_same
    cases a <;> cases b <;> simp only [rank, reduceCtorEq] at hrank <;> try contradiction
    case toolCall.toolCall i s x j t y =>
      have hid := CallId.compare_eq_iff i j
      have htool := NonBlank.compare_eq_iff s t
      simp only [cmp, same, Ordering.then_eq_eq, hid, htool, hjson, Bool.and_eq_true, beq_iff_eq,
        and_assoc]
    case toolResult.toolResult i s x j t y =>
      have hid := CallId.compare_eq_iff i j
      have hstatus := compare_statusRank_eq_iff s t
      simp only [cmp, same, Ordering.then_eq_eq, hid, hstatus, hjson, Bool.and_eq_true, beq_iff_eq,
        and_assoc]
    all_goals simp only [cmp, same, NonBlank.compare_eq_iff, beq_iff_eq]
  · have hne : compare a.rank b.rank ≠ .eq := by simpa using hrank
    have hdiffers : a.same b = false := not_same_of_rank_ne hrank
    simp [cmp_of_rank_ne hrank, hdiffers, hne]

theorem cmp_chains (a b c : Message) : Chains (a.cmp b) (b.cmp c) (a.cmp c) := by
  by_cases hab : a.rank = b.rank
  · by_cases hbc : b.rank = c.rank
    · have hjson := Json.cmp_chains
      cases a <;> cases b <;> simp only [rank, reduceCtorEq] at hab <;> try contradiction
      all_goals cases c <;> simp only [rank, reduceCtorEq] at hbc <;> try contradiction
      case toolCall.toolCall.toolCall i s x j t y k u z =>
        have hid := Chains.of_compare i.text j.text k.text
        have htool := Chains.of_compare s.text t.text u.text
        exact hid.andThen (htool.andThen (hjson x y z))
      case toolResult.toolResult.toolResult i s x j t y k u z =>
        have hid := Chains.of_compare i.text j.text k.text
        have hstatus := Chains.of_compare (statusRank s) (statusRank t) (statusRank u)
        exact hid.andThen (hstatus.andThen (hjson x y z))
      all_goals exact Chains.of_compare _ _ _
    · intro h h'
      have hac : a.rank ≠ c.rank := hab ▸ hbc
      have hle := rank_le_of_isLE h'
      have hlt : compare b.rank c.rank = .lt := Nat.compare_eq_lt.mpr (by omega)
      rw [cmp_of_rank_ne hbc, cmp_of_rank_ne hac, hab, hlt]
      cases hcmp : a.cmp b <;> simp_all
  · intro h h'
    have hle := rank_le_of_isLE h
    have hle' := rank_le_of_isLE h'
    have hlt : compare a.rank b.rank = .lt := Nat.compare_eq_lt.mpr (by omega)
    have hlt' : compare a.rank c.rank = .lt := Nat.compare_eq_lt.mpr (by omega)
    rw [cmp_of_rank_ne hab, cmp_of_rank_ne (by omega), hlt, hlt']
    rfl

theorem le_iff (a b : Message) : a ≤ b ↔ (a.cmp b).isLE = true := by
  show (partialCmp a b).any Ordering.isLE = true ↔ _
  simp [partialCmp]

/-- The order of messages is total, agrees with their equality, and compares
any two of them; so does the order of the values that they carry. -/
theorem order_total :
    TotalOrder Message.cmp (fun a b => a == b) ∧
      (∀ a b c : Message, a ≤ b → b ≤ c → a ≤ c) ∧
      (∀ a b : Message, partialCmp a b = some (a.cmp b)) ∧
      TotalOrder Json.cmp (fun v w => v == w) := by
  have htrans : ∀ a b c : Message, (a.cmp b).isLE → (b.cmp c).isLE → (a.cmp c).isLE :=
    fun a b c hab hbc => (cmp_chains a b c).isLE hab hbc
  refine ⟨⟨cmp_swap, cmp_eq_iff_same, htrans⟩, ?_, fun _ _ => rfl, Json.cmp_totalOrder⟩
  intro a b c hab hbc
  rw [le_iff] at hab hbc ⊢
  exact htrans a b c hab hbc

end Message

end AgentLoop
