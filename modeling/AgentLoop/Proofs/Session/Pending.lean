/-
AgentLoop.Proofs.Session.Pending — the calls that wait for a result.

* `Session.pendingToolCalls_eq_openCalls` — the calls that a session
  reports as pending are those of its log without a result, in the order
  of the log
* `Session.appendAll_calls_ok`, `Session.appendAll_results_ok` — a group
  of new calls, and a group of results for all open calls, is recorded

A session looks its pending calls up in the index, which has no order,
and sorts their positions. Two ascending lists of the same positions are
the same list, which is how the order of the log comes back.
-/
import AgentLoop.Proofs.Session.Invariant

namespace AgentLoop

namespace Log

/-- The messages of a list that satisfy a condition, by way of their
positions. -/
theorem filterMap_positions (p : Message → Bool) (log : List Message) :
    ((List.range log.length).filter fun i => log[i]?.any p).filterMap
      (fun i => log[i]?) = log.filter p := by
  induction log with
  | nil => rfl
  | cons m rest ih =>
    rw [List.length_cons, List.range_succ_eq_map, List.filter_cons,
      List.filter_map, List.filter_cons]
    have htail : (((List.range rest.length).filter
        ((fun i => (m :: rest)[i]?.any p) ∘ Nat.succ)).map Nat.succ).filterMap
        (fun i => (m :: rest)[i]?) = rest.filter p := by
      rw [List.filterMap_map]
      exact ih
    have hfirst : (m :: rest)[0]? = some m := rfl
    rw [hfirst, Option.any_some]
    cases hp : p m with
    | true => rw [if_pos rfl, if_pos rfl, List.filterMap_cons, hfirst, htail]
    | false => rw [if_neg Bool.false_ne_true, if_neg Bool.false_ne_true, htail]

end Log

theorem CallIndex.openPositions_sorted (c : CallIndex) :
    c.openPositions.Pairwise (· ≤ ·) := by
  have hsorted := @List.pairwise_mergeSort Nat (fun a b => decide (a ≤ b))
    (by simp; omega) (by simp; omega)
    ((c.entries.filter fun e => e.2.resolvedAt.isNone).map fun e => e.2.issuedAt)
  exact hsorted.imp (by simp)

namespace CallLedger.Matches

variable {l : CallLedger} {log : List Message}

/-- The positions of the index without a result are those of the open
calls of the log. -/
theorem mem_openPositions (h : l.Matches log) {i : Nat} :
    i ∈ l.calls.openPositions ↔ log[i]?.any (Log.isOpen log) = true := by
  have hopen : log[i]?.any (Log.isOpen log) = true ↔
      ∃ id, Log.issuedAt? log i = some id ∧ id ∉ Log.answered log := by
    simp only [Option.any_eq_true, Log.isOpen_iff, Log.issuedAt?,
      Option.bind_eq_some_iff]
    constructor
    · rintro ⟨m, hm, id, hid, hno⟩
      exact ⟨id, ⟨m, hm, hid⟩, hno⟩
    · rintro ⟨id, ⟨m, hm, hid⟩, hno⟩
      exact ⟨m, hm, id, hid, hno⟩
  rw [hopen, CallIndex.openPositions, List.mem_mergeSort, List.mem_map]
  constructor
  · rintro ⟨⟨id, slot⟩, hmem, rfl⟩
    obtain ⟨hentry, hnone⟩ := List.mem_filter.mp hmem
    have hfind := (CallIndex.find?_eq_some_iff h.keys_nodup).mpr hentry
    refine ⟨id, h.issued_at id slot hfind, ?_⟩
    rw [← h.resolvedAt_isSome_iff hfind]
    simpa using hnone
  · rintro ⟨id, hat, hno⟩
    obtain ⟨r, hfind⟩ := h.slot_of_call i id hat
    have hentry := (CallIndex.find?_eq_some_iff h.keys_nodup).mp hfind
    refine ⟨(id, ⟨i, r⟩), List.mem_filter.mpr ⟨hentry, ?_⟩, rfl⟩
    rw [← h.resolvedAt_isSome_iff hfind] at hno
    simpa using hno

theorem openPositions_nodup (h : l.Matches log) : l.calls.openPositions.Nodup := by
  rw [CallIndex.openPositions, (List.mergeSort_perm _ _).nodup_iff, List.Nodup,
    List.pairwise_map]
  have hkeys := List.pairwise_map.mp h.keys_nodup
  have hpositions : l.calls.entries.Pairwise fun e f =>
      e.2.issuedAt ≠ f.2.issuedAt := by
    refine hkeys.imp_of_mem ?_
    rintro ⟨id, slot⟩ ⟨other, slot'⟩ hmem hmem' hne heq
    have hat := h.issued_at id slot
      ((CallIndex.find?_eq_some_iff h.keys_nodup).mpr hmem)
    have hat' := h.issued_at other slot'
      ((CallIndex.find?_eq_some_iff h.keys_nodup).mpr hmem')
    simp only at heq hne
    rw [heq, hat', Option.some.injEq] at hat
    exact hne hat.symm
  exact hpositions.filter _

theorem openPositions_eq (h : l.Matches log) :
    l.calls.openPositions =
      (List.range log.length).filter fun i => log[i]?.any (Log.isOpen log) := by
  have hrange := List.pairwise_lt_range (n := log.length)
  have hasymm : ∀ a b : Nat, a ≤ b → b ≤ a → a = b := fun _ _ => Nat.le_antisymm
  refine List.Perm.eq_of_pairwise (fun a b _ _ => hasymm a b) l.calls.openPositions_sorted ?_ ?_
  · exact (hrange.filter _).imp (by omega)
  · refine (List.perm_ext_iff_of_nodup h.openPositions_nodup
      (List.nodup_range.filter _)).mpr fun i => ?_
    rw [h.mem_openPositions, List.mem_filter, List.mem_range]
    constructor
    · intro hany
      refine ⟨?_, hany⟩
      rw [Option.any_eq_true] at hany
      obtain ⟨m, hm, -⟩ := hany
      exact (List.getElem?_eq_some_iff.mp hm).1
    · exact And.right

end CallLedger.Matches

namespace Session

variable {s s' : Session}

/-- The pending calls of a session are those of its log that have no
result, in the order of the log. -/
theorem pendingToolCalls_eq_openCalls (h : s.Consistent) :
    s.pendingToolCalls = Log.openCalls s.history := by
  rw [pendingToolCalls, h.ledger.openPositions_eq, Log.filterMap_positions]
  rfl

theorem pending_eq_zero_iff (h : s.Consistent) :
    s.pending = 0 ↔ Log.openCalls s.history = [] := by
  rw [Log.openCalls_eq_nil_iff]
  exact h.ledger.pending_eq_zero_iff

/-- With a call open, a session waits for tools unless it failed. -/
theorem status_of_open (h : s.Consistent) (hlive : s.status ≠ .failed)
    (hopen : Log.openCalls s.history ≠ []) : s.status = .awaitingTool := by
  have hpending : s.pending ≠ 0 := fun hp => hopen ((pending_eq_zero_iff h).mp hp)
  cases hs : s.status with
  | active => exact absurd (h.quiet (Or.inl hs)) hpending
  | awaitingTool => rfl
  | completed => exact absurd (h.quiet (Or.inr hs)) hpending
  | failed => exact absurd hs hlive

/-! ## Groups of messages -/

/-- A group of messages is appended exactly if the session has not failed
and its log may go on with the group. -/
theorem appendAll_isOk_iff (h : s.Consistent) {ms : List Message} :
    (∃ s', s.appendAll ms = .ok s') ↔
      s.status ≠ .failed ∧ Log.Continues s.history ms := by
  rw [← CallLedger.acceptAll_ok_iff h.ledger]
  constructor
  · rintro ⟨s', ok⟩
    obtain ⟨hlive, ledger, hledger, -⟩ := appendAll_ok_iff.mp ok
    exact ⟨hlive, ledger, hledger⟩
  · rintro ⟨hlive, ledger, hledger⟩
    exact ⟨_, appendAll_ok_iff.mpr ⟨hlive, ledger, hledger, rfl⟩⟩

theorem history_of_appendAll {ms : List Message} (ok : s.appendAll ms = .ok s') :
    s'.history = s.history ++ ms := by
  obtain ⟨-, ledger, -, rfl⟩ := appendAll_ok_iff.mp ok
  rfl

theorem id_of_appendAll {ms : List Message} (ok : s.appendAll ms = .ok s') :
    s'.id = s.id := by
  obtain ⟨-, ledger, -, rfl⟩ := appendAll_ok_iff.mp ok
  rfl

theorem status_of_appendAll {ms : List Message} (ok : s.appendAll ms = .ok s') :
    s'.status = s.statusAfter (ms.countP Message.isUserText) s'.pending := by
  obtain ⟨-, ledger, -, rfl⟩ := appendAll_ok_iff.mp ok
  rfl

@[simp] theorem history_markFailed (s : Session) : s.markFailed.history = s.history := rfl

@[simp] theorem history_markCompleted (s : Session) : s.markCompleted.history = s.history := by
  unfold markCompleted
  split <;> rfl

@[simp] theorem id_markCompleted (s : Session) : s.markCompleted.id = s.id := by
  unfold markCompleted
  split <;> rfl

/-- Calls that were recorded are open behind those that were. -/
theorem openCalls_of_appendAll_calls (h : s.Consistent) {calls : List Message}
    (hcalls : ∀ m ∈ calls, m.issues?.isSome) (ok : s.appendAll calls = .ok s') :
    Log.openCalls s'.history = Log.openCalls s.history ++ calls := by
  have hgo := ((appendAll_isOk_iff h).mp ⟨s', ok⟩).2
  rw [Log.continues_calls_iff hcalls] at hgo
  rw [history_of_appendAll ok]
  exact Log.openCalls_append_calls hcalls
    (fun _ => h.ledger.issued_of_answered) hgo.2

/-- Calls under new identifiers that differ are recorded. -/
theorem appendAll_calls_ok (h : s.Consistent) (hlive : s.status ≠ .failed)
    {calls : List Message} (hcalls : ∀ m ∈ calls, m.issues?.isSome)
    (hnodup : (Log.issued calls).Nodup)
    (hnew : ∀ id ∈ Log.issued calls, id ∉ Log.issued s.history) :
    ∃ s', s.appendAll calls = .ok s' :=
  (appendAll_isOk_iff h).mpr
    ⟨hlive, (Log.continues_calls_iff hcalls).mpr ⟨hnodup, hnew⟩⟩

/-- One result for each open call is recorded, and no call is open
behind them. -/
theorem appendAll_results_ok (h : s.Consistent) (hlive : s.status ≠ .failed)
    {results : List Message} (hresults : ∀ m ∈ results, m.answers?.isSome)
    (hids : Log.answered results = Log.issued (Log.openCalls s.history)) :
    ∃ s', s.appendAll results = .ok s' ∧ Log.openCalls s'.history = [] := by
  have hsub : (Log.issued (Log.openCalls s.history)).Sublist
      (Log.issued s.history) := List.filter_sublist.filterMap _
  have hgo : Log.Continues s.history results := by
    rw [Log.continues_results_iff hresults, hids]
    refine ⟨h.ledger.issued_nodup.sublist hsub, fun id hid => ⟨hsub.subset hid, ?_⟩⟩
    obtain ⟨m, hm, hi⟩ := Log.mem_issued.mp hid
    obtain ⟨-, other, ho, hno⟩ := Log.mem_openCalls.mp hm
    rw [hi, Option.some.injEq] at ho
    exact ho ▸ hno
  obtain ⟨s', ok⟩ := (appendAll_isOk_iff h).mpr ⟨hlive, hgo⟩
  refine ⟨s', ok, ?_⟩
  rw [history_of_appendAll ok]
  exact Log.openCalls_append_results hresults fun id hid => hids ▸ hid

/-- A session that no longer waits for tools is active again. -/
theorem active_of_appendAll (h : s'.Consistent) {ms : List Message}
    (ok : s.appendAll ms = .ok s') (hwas : s.status = .active ∨ s.status = .awaitingTool)
    (hopen : Log.openCalls s'.history = []) : s'.status = .active := by
  have hpending := (pending_eq_zero_iff h).mpr hopen
  rw [status_of_appendAll ok, statusAfter, hpending]
  rcases hwas with hs | hs <;> simp [hs]

/-- A quiet session records a text. -/
theorem appendAll_text_ok (h : s.Consistent) (hlive : s.status ≠ .failed)
    (hopen : Log.openCalls s.history = []) {m : Message}
    (hissues : m.issues? = none) (hanswers : m.answers? = none) :
    ∃ s', s.appendAll [m] = .ok s' := by
  refine (appendAll_isOk_iff h).mpr ⟨hlive, ?_, True.intro⟩
  rw [Log.admits_of_text hissues hanswers]
  exact Log.openCalls_eq_nil_iff.mp hopen

end Session

end AgentLoop
