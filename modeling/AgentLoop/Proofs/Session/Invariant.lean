/-
AgentLoop.Proofs.Session.Invariant — what holds of every session.

* `SessionOp`, `Session.perform` — the operations on a session; a refused
  append leaves the session as it was
* `Session.Reachable` — the sessions that come about by operations
* `Session.Consistent` — ledger, status and turn count fit the log
* `Session.Invariant` — the same said of log, index, counter, status and
  turn count one by one
* `reachable_session_invariant` — it holds of every reachable session

The status can only be kept in step with the counter because the counter
is in step with the log, so the operations preserve `Consistent` as a
whole. An append works on a copy of the ledger and commits it at the end;
a refused append therefore has nothing to undo.
-/
import AgentLoop.Message.FreshId
import AgentLoop.Proofs.Session.Ledger
import AgentLoop.Session.Basic

namespace AgentLoop

/-! ## Operations -/

/-- The operations on a session. -/
inductive SessionOp where
  | append (m : Message)
  | appendAll (ms : List Message)
  | resume
  | recordUsage (u : TokenUsage)
  | markCompleted
  | markFailed

namespace Session

/-- The session after an operation. A refused append leaves it as it
was. -/
def perform (s : Session) : SessionOp → Session
  | .append m => ((s.append m).toOption).getD s
  | .appendAll ms => ((s.appendAll ms).toOption).getD s
  | .resume => s.resume.2
  | .recordUsage u => s.recordUsage u
  | .markCompleted => s.markCompleted
  | .markFailed => s.markFailed

/-- The session after some operations in their order. -/
def performAll (s : Session) (ops : List SessionOp) : Session :=
  ops.foldl perform s

/-- The sessions that operations make of a new one, empty or with a system
prompt. -/
inductive Reachable : Session → Prop
  | new (id : SessionId) : Reachable (new id)
  | prompted {id : SessionId} {prompt : String} {s : Session} :
      withSystemPrompt id prompt = .ok s → Reachable s
  | perform {s : Session} (op : SessionOp) : Reachable s → Reachable (s.perform op)

theorem Reachable.performAll {s : Session} (h : s.Reachable)
    (ops : List SessionOp) : (s.performAll ops).Reachable := by
  induction ops generalizing s with
  | nil => exact h
  | cons op rest ih => exact ih (h.perform op)

/-! ## An append -/

/-- The session that an accepted group of messages leaves. -/
def extended (s : Session) (ms : List Message) (ledger : CallLedger) : Session :=
  { s with
    history := s.history ++ ms
    ledger := ledger
    turn := s.turn + ms.countP Message.isUserText
    status := s.statusAfter (ms.countP Message.isUserText) ledger.pending }

theorem appendAll_ok_iff {s s' : Session} {ms : List Message} :
    s.appendAll ms = .ok s' ↔ s.status ≠ .failed ∧
      ∃ ledger, s.ledger.acceptAll s.history.length ms = .ok ledger ∧
        s' = s.extended ms ledger := by
  unfold appendAll
  split
  · simp [*]
  · rename_i hlive
    cases hledger : s.ledger.acceptAll s.history.length ms with
    | error e => simp
    | ok ledger => simp [hlive, extended, eq_comm]

theorem Reachable.appendAll {s s' : Session} {ms : List Message}
    (h : s.Reachable) (ok : s.appendAll ms = .ok s') : s'.Reachable := by
  have hstep := h.perform (.appendAll ms)
  simpa [Session.perform, ok, Except.toOption] using hstep

/-! ## The invariant -/

/-- Ledger, status and turn count fit the log. -/
structure Consistent (s : Session) : Prop where
  ledger : s.ledger.Matches s.history
  awaiting : s.status = .awaitingTool → 0 < s.pending
  quiet : s.status = .active ∨ s.status = .completed → s.pending = 0
  turn : s.turn = s.history.countP Message.isUserText

namespace Consistent

variable {s s' : Session}

theorem new (id : SessionId) : (Session.new id).Consistent where
  ledger := CallLedger.matches_empty
  awaiting := by simp [Session.new]
  quiet := fun _ => rfl
  turn := rfl

theorem appendAll (h : s.Consistent) {ms : List Message}
    (ok : s.appendAll ms = .ok s') : s'.Consistent := by
  obtain ⟨hlive, ledger, hledger, rfl⟩ := appendAll_ok_iff.mp ok
  refine { ledger := ?_, awaiting := ?_, quiet := ?_, turn := ?_ }
  · exact CallLedger.acceptAll_matches h.ledger hledger
  · simp only [extended, statusAfter, pending]
    split
    · intro _; assumption
    · split
      · intro hs; cases hs
      · rename_i hold
        intro hs
        simp [hs] at hold
  · simp only [extended, statusAfter, pending]
    split
    · rintro (hs | hs) <;> cases hs
    · intro _; omega
  · simp only [extended, List.countP_append, h.turn]

theorem perform (h : s.Consistent) (op : SessionOp) : (s.perform op).Consistent := by
  cases op with
  | append m =>
    simp only [Session.perform, append]
    cases ok : s.appendAll [m] with
    | error e => exact h
    | ok s' => exact h.appendAll ok
  | appendAll ms =>
    simp only [Session.perform]
    cases ok : s.appendAll ms with
    | error e => exact h
    | ok s' => exact h.appendAll ok
  | resume =>
    simp only [Session.perform, resume]
    split
    · exact h
    · -- whether the reopened session waits for tools is read off the counter
      refine { h with awaiting := ?_, quiet := ?_ }
      · intro hs
        by_cases hp : s.pending > 0
        · exact hp
        · simp [hp] at hs
      · intro hs
        by_cases hp : s.pending > 0
        · simp [hp] at hs
        · exact Nat.eq_zero_of_not_pos hp
  | recordUsage u => exact { h with }
  | markCompleted =>
    simp only [Session.perform, markCompleted]
    split
    · rename_i hactive
      refine { h with awaiting := ?_, quiet := ?_ }
      · intro hs; cases hs
      · intro _; exact h.quiet (Or.inl hactive)
    · exact h
  | markFailed =>
    refine { h with awaiting := ?_, quiet := ?_ }
    · intro hs; cases hs
    · rintro (hs | hs) <;> cases hs

end Consistent

theorem withSystemPrompt_ok {id : SessionId} {prompt : String} {s : Session}
    (h : withSystemPrompt id prompt = .ok s) :
    ∃ m, Message.system prompt = .ok m ∧ (new id).append m = .ok s := by
  unfold withSystemPrompt at h
  split at h
  · cases h
  · rename_i m hm
    split at h
    · cases h
    · rename_i s' hs
      cases h
      exact ⟨m, hm, hs⟩

theorem Reachable.consistent {s : Session} (h : s.Reachable) : s.Consistent := by
  induction h with
  | new id => exact .new id
  | prompted hprompt =>
    obtain ⟨m, -, happend⟩ := withSystemPrompt_ok hprompt
    exact (Consistent.new _).appendAll happend
  | perform op _ ih => exact ih.perform op

/-- What holds of the log, the index, the counter, the status and the turn
count of a session.

The index has a slot for each call of the log and for nothing else, at the
position of the call; no identifier is issued twice. A slot is resolved at
a position exactly if the one result for its call stands there, which is
behind the call, and every result of the log stands where a slot says so.
The counter counts the slots without a result, so it is above zero
whenever a group of messages comes to a result for one of them. -/
structure Invariant (s : Session) : Prop where
  slot_iff_call : ∀ id, (s.ledger.calls.find? id).isSome ↔ id ∈ Log.issued s.history
  issued_once : (Log.issued s.history).Nodup
  issued_at : ∀ id slot, s.ledger.calls.find? id = some slot →
    Log.issuedAt? s.history slot.issuedAt = some id
  resolved_iff : ∀ id slot j, s.ledger.calls.find? id = some slot →
    (slot.resolvedAt = some j ↔
      ∀ k, Log.answeredAt? s.history k = some id ↔ k = j)
  resolved_later : ∀ id slot j, s.ledger.calls.find? id = some slot →
    slot.resolvedAt = some j → slot.issuedAt < j
  result_resolves : ∀ id j, Log.answeredAt? s.history j = some id →
    ∃ slot, s.ledger.calls.find? id = some slot ∧ slot.resolvedAt = some j
  one_slot_each : s.ledger.calls.keys.Nodup
  pending_counts : s.pending = s.ledger.calls.openCount
  never_below_zero : ∀ ms ledger id slot,
    s.ledger.acceptAll s.history.length ms = .ok ledger →
    ledger.calls.find? id = some slot → slot.resolvedAt = none →
    0 < ledger.pending
  awaiting_open : s.status = .awaitingTool → 0 < s.pending
  quiet_closed : s.status = .active ∨ s.status = .completed → s.pending = 0
  turns_counted : s.turn = s.history.countP Message.isUserText

/-- A slot is resolved where the one result for its call stands. -/
theorem Consistent.resolvedAt_iff {s : Session} (h : s.Consistent) {id : CallId}
    {slot : CallSlot} (hfind : s.ledger.calls.find? id = some slot) (j : Nat) :
    slot.resolvedAt = some j ↔
      ∀ k, Log.answeredAt? s.history k = some id ↔ k = j := by
  have honly : ∀ k, Log.answeredAt? s.history k = some id →
      slot.resolvedAt = some k := by
    intro k hk
    obtain ⟨i, hi⟩ := h.ledger.slot_of_result k id hk
    rw [hfind, Option.some.injEq] at hi
    rw [hi]
  constructor
  · intro hres k
    constructor
    · intro hk
      rw [honly k hk, Option.some.injEq] at hres
      exact hres
    · rintro rfl
      exact (h.ledger.resolved_at id slot k hfind hres).2
  · intro hall
    exact honly j ((hall j).mpr rfl)

/-- The invariant of every session that operations bring about, in any
order, refused appends and failed turns in between included. -/
theorem reachable_session_invariant {s : Session} (h : s.Reachable) :
    s.Invariant := by
  have hs := h.consistent
  exact {
    slot_iff_call := fun _ => hs.ledger.find?_isSome_iff
    issued_once := hs.ledger.issued_nodup
    issued_at := hs.ledger.issued_at
    resolved_iff := fun _ _ j hfind => hs.resolvedAt_iff hfind j
    resolved_later := fun id slot j hfind hres =>
      (hs.ledger.resolved_at id slot j hfind hres).1
    result_resolves := by
      intro id j hj
      obtain ⟨i, hi⟩ := hs.ledger.slot_of_result j id hj
      exact ⟨_, hi, rfl⟩
    one_slot_each := hs.ledger.keys_nodup
    pending_counts := hs.ledger.pending_eq
    never_below_zero := by
      intro ms ledger id slot hledger hfind hopen
      have hmatches := CallLedger.acceptAll_matches hs.ledger hledger
      exact hmatches.pending_pos_of_open hfind hopen
    awaiting_open := hs.awaiting
    quiet_closed := hs.quiet
    turns_counted := hs.turn }

/-- A failure in the middle of a batch, a refused message, and a
resumption. -/
theorem invariant_of_reopened_batch :
    let s := (new ⟨"s"⟩).performAll
      [.append (.userText ⟨"go", by decide⟩),
       .appendAll [.toolCall (.numbered 1) ⟨"look", by decide⟩ .null,
         .toolCall (.numbered 2) ⟨"look", by decide⟩ .null],
       .append (.toolResult (.numbered 2) .ok .null), .markFailed,
       .append (.userText ⟨"go", by decide⟩), .resume]
    s.Reachable ∧ s.status = .awaitingTool ∧ s.pending = 1 ∧
      s.history.length = 4 ∧ s.Invariant := by
  have h := (Reachable.new ⟨"s"⟩).performAll
    [.append (.userText ⟨"go", by decide⟩),
     .appendAll [.toolCall (.numbered 1) ⟨"look", by decide⟩ .null,
       .toolCall (.numbered 2) ⟨"look", by decide⟩ .null],
     .append (.toolResult (.numbered 2) .ok .null), .markFailed,
     .append (.userText ⟨"go", by decide⟩), .resume]
  refine ⟨h, by decide +kernel, by decide +kernel, by decide +kernel, ?_⟩
  exact reachable_session_invariant h

end Session

end AgentLoop
