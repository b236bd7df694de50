/-
AgentLoop.Proofs.Session.OpenCalls — the list of pending calls is exact.

* `CallIndex.openPositions_of_perm` — the order in which an index keeps its
  slots does not show in the positions of the open calls
* `Session.lt_of_openPosition`, `Session.length_pendingToolCalls` — each open
  position lies within the log, and there are as many as are counted
* `Session.appendGroups_results_ok` — results for all pending calls are taken,
  in any order and in any groups
* `Session.pendingToolCalls_exact` — all of this of a reachable session

The counter, the index and the log each know how many calls are open. That the
three agree is part of `Consistent`; here it is read off at the one place where
the session tells its caller.
-/
import AgentLoop.Proofs.Session.Groups

namespace AgentLoop

/-- Sorted positions do not depend on the order of the slots. -/
theorem CallIndex.openPositions_of_perm {c c' : CallIndex} (h : c.entries.Perm c'.entries) :
    c.openPositions = c'.openPositions := by
  refine List.Perm.eq_of_pairwise (fun a b _ _ => Nat.le_antisymm) c.openPositions_sorted
    c'.openPositions_sorted ?_
  refine (List.mergeSort_perm _ _).trans (.trans ?_ (List.mergeSort_perm _ _).symm)
  exact (h.filter _).map _

namespace Session

variable {s s' : Session} {groups : List (List Message)}

theorem lt_of_openPosition (h : s.Consistent) :
    ∀ i ∈ s.ledger.calls.openPositions, i < s.history.length := by
  intro i hi
  obtain ⟨m, hm, -⟩ := (Option.any_eq_true ..).mp (h.ledger.mem_openPositions.mp hi)
  exact (List.getElem?_eq_some_iff.mp hm).1

/-- The pending calls are looked up one by one, and none of them is missed. -/
theorem pendingToolCalls_eq_pmap
    (inside : ∀ i ∈ s.ledger.calls.openPositions, i < s.history.length) :
    s.pendingToolCalls = s.ledger.calls.openPositions.pmap
      (fun i (hi : i < s.history.length) => s.history[i]) inside := by
  rw [pendingToolCalls]
  generalize s.ledger.calls.openPositions = positions at inside
  induction positions with
  | nil => rfl
  | cons i rest ih =>
    have hi : i < s.history.length := inside i (by simp)
    have hfirst : s.history[i]? = some s.history[i] := List.getElem?_eq_getElem hi
    rw [List.filterMap_cons, hfirst, List.pmap_cons, ih fun j hj => inside j (by simp [hj])]

theorem length_pendingToolCalls (h : s.Consistent) : s.pendingToolCalls.length = s.pending := by
  rw [pendingToolCalls_eq_pmap (lt_of_openPosition h), List.length_pmap, CallIndex.openPositions,
    List.length_mergeSort, List.length_map, ← List.countP_eq_length_filter]
  exact h.ledger.pending_eq.symm

theorem issued_pendingToolCalls_nodup (h : s.Consistent) :
    (Log.issued s.pendingToolCalls).Nodup := by
  rw [pendingToolCalls_eq_openCalls h]
  exact h.ledger.issued_nodup.sublist (List.filter_sublist.filterMap _)

/-- A pending call was issued and has no result. -/
theorem open_of_pending (h : s.Consistent) {id : CallId}
    (hid : id ∈ Log.issued s.pendingToolCalls) :
    id ∈ Log.issued s.history ∧ id ∉ Log.answered s.history := by
  rw [pendingToolCalls_eq_openCalls h] at hid
  obtain ⟨m, hm, hissues⟩ := Log.mem_issued.mp hid
  obtain ⟨hlog, other, hother, hopen⟩ := Log.mem_openCalls.mp hm
  obtain rfl := Option.some.inj (hissues.symm.trans hother)
  exact ⟨Log.mem_issued.mpr ⟨m, hlog, hissues⟩, hopen⟩

/-- One result for each pending call is appended, whatever the order of the
results and however they are grouped, and nothing is pending behind them. -/
theorem appendGroups_results_ok (h : s.Reachable) (hlive : s.status ≠ .failed)
    (hresults : ∀ m ∈ groups.flatten, m.answers?.isSome = true)
    (hids : (Log.answered groups.flatten).Perm (Log.issued s.pendingToolCalls)) :
    ∃ s', s.appendGroups groups = .ok s' ∧ s'.pendingToolCalls = [] := by
  have hcontinues : Log.Continues s.history groups.flatten := by
    rw [Log.continues_results_iff hresults]
    exact ⟨hids.nodup_iff.mpr (issued_pendingToolCalls_nodup h.consistent),
      fun id hid => open_of_pending h.consistent (hids.mem_iff.mp hid)⟩
  obtain ⟨s', ok⟩ := (appendGroups_isOk_iff h.consistent hlive).mpr hcontinues
  refine ⟨s', ok, ?_⟩
  rw [pendingToolCalls_eq_openCalls (h.appendGroups ok).consistent,
    history_of_appendGroups hlive ok]
  refine Log.openCalls_append_results hresults fun id hid => hids.mem_iff.mpr ?_
  rwa [pendingToolCalls_eq_openCalls h.consistent]

/-- The pending calls that a reachable session tells are found inside its log,
are the calls of the log without a result in the order of the log, each of them
once, whatever the order of the index, and as many as are counted. Their
results are taken in any order and in any groups unless the session has failed,
and leave nothing pending. -/
theorem pendingToolCalls_exact {s : Session} (h : s.Reachable) :
    (∃ inside : ∀ i ∈ s.ledger.calls.openPositions, i < s.history.length,
      s.pendingToolCalls = s.ledger.calls.openPositions.pmap
        (fun i (hi : i < s.history.length) => s.history[i]) inside) ∧
    s.pendingToolCalls = s.history.filter (Log.isOpen s.history) ∧
    (Log.issued s.pendingToolCalls).Nodup ∧
    (∀ index : CallIndex, index.entries.Perm s.ledger.calls.entries →
      ({ s with ledger.calls := index } : Session).pendingToolCalls = s.pendingToolCalls) ∧
    s.pendingToolCalls.length = s.pending ∧
    ∀ groups : List (List Message), s.status ≠ .failed →
      (∀ m ∈ groups.flatten, m.answers?.isSome = true) →
      (Log.answered groups.flatten).Perm (Log.issued s.pendingToolCalls) →
      ∃ s', s.appendGroups groups = .ok s' ∧ s'.pendingToolCalls = [] := by
  have hs := h.consistent
  refine ⟨⟨lt_of_openPosition hs, pendingToolCalls_eq_pmap _⟩, pendingToolCalls_eq_openCalls hs,
    issued_pendingToolCalls_nodup hs, fun index hperm => ?_, length_pendingToolCalls hs,
    fun groups hlive => appendGroups_results_ok h hlive⟩
  simp only [pendingToolCalls, CallIndex.openPositions_of_perm hperm]

/-- Three calls of which the second one was answered before a failure, and the
other two out of order behind it. -/
theorem pending_behind_reopened_batch :
    let s := (new ⟨"s"⟩).performAll
      [.append (.userText ⟨"go", by decide⟩),
       .appendAll [.toolCall (.numbered 1) ⟨"look", by decide⟩ .null,
         .toolCall (.numbered 2) ⟨"look", by decide⟩ .null,
         .toolCall (.numbered 3) ⟨"look", by decide⟩ .null],
       .append (.toolResult (.numbered 2) .ok .null), .markFailed, .resume]
    let groups : List (List Message) :=
      [[.toolResult (.numbered 3) .ok .null], [], [.toolResult (.numbered 1) .error .null]]
    s.Reachable ∧ s.status ≠ .failed ∧ s.pending = 2 ∧ s.pendingToolCalls.length = s.pending ∧
      s.pendingToolCalls = s.history.filter (Log.isOpen s.history) ∧
      ∃ s', s.appendGroups groups = .ok s' ∧ s'.pendingToolCalls = [] := by
  intro s groups
  have hs : s.Reachable := (Reachable.new ⟨"s"⟩).performAll _
  have hlive : s.status ≠ .failed := by decide +kernel
  obtain ⟨-, hfilter, -, -, hlength, hgroups⟩ := pendingToolCalls_exact hs
  have hids : (Log.answered groups.flatten).Perm (Log.issued s.pendingToolCalls) := by
    rw [hfilter]
    decide +kernel
  exact ⟨hs, hlive, by decide +kernel, hlength, hfilter,
    hgroups groups hlive (by decide +kernel) hids⟩

end Session

end AgentLoop
