/-
AgentLoop.Proofs.Turn.Lifetime — what becomes of a session over all its turns.

* `reportedIn` — the usages that the backend reported in a stretch of a turn
* `runTurn_reachable`, `submit_reachable` — turns and what the user says lead from
  sessions that operations bring about to such sessions
* `Session.Lived` — the sessions that operations, what the user says and turns bring
  about, with all usages that were reported on the way
* `Lived.reachable` — operations alone bring them about

Each turn may be run by another agent, in another world and with another signal; it
may fail, be cancelled or never end.
-/
import AgentLoop.Agent
import AgentLoop.Proofs.Turn.Loop
import AgentLoop.Proofs.Turn.Rejection

namespace AgentLoop

/-- The usage that an occurrence reports: that of a reply which has one. -/
def Occurrence.usage? : Occurrence → Option TokenUsage
  | .answered (.ok reply) => reply.usage?
  | _ => none

/-- The usages that were reported, in their order. -/
def reportedIn (os : List Occurrence) : List TokenUsage := os.filterMap Occurrence.usage?

/-- The usage that an operation adds. -/
def SessionOp.tokens : SessionOp → List TokenUsage
  | .recordUsage u => [u]
  | _ => []

namespace Agent

variable {σ : Type} {a : Agent σ} {s s' : Session}

/-- A part of a turn leads from a session that operations bring about to one. -/
theorem reachable_along (a : Agent σ) :
    Along a fun t t' => t.session.Reachable → t'.session.Reachable where
  refl _ h := h
  trans first second h := second (first h)
  fail _ _ h := h.perform .markFailed
  complete _ _ h := h.perform .markCompleted
  reply {t t' m text e} _ hrecord h := by
    unfold Turn.record at hrecord
    split at hrecord
    · cases hrecord
      exact h
    · rename_i s ok
      cases hrecord
      exact h.appendAll ok
  query _ _ hquery h := (query_exchanged hquery).reachable h
  execute _ hexecute h := (execute_exchanged hexecute).reachable h

/-- So does a whole turn. -/
theorem runTurn_reachable (a : Agent σ) (h : s.Reachable) (c : Clock) (w : σ) :
    (a.runTurn s c w).1.session.Reachable := by
  refine (reachable_along a).runTurn h c w (fun _ => ?_) h.resume
  rw [(rejected_is_noop s c w).1]
  exact h

/-- A session as the user's message finds it. -/
def readied (s : Session) : Session :=
  if s.status = .failed && s.pendingToolCalls.isEmpty then s.resume.2 else s

theorem submit_eq (s : Session) (text : String) :
    submit s text =
      match Message.user text with
      | .error e => .error e.toAgentError
      | .ok m => ((readied s).appendAll [m]).mapError AppendError.toAgentError := by
  unfold submit
  cases Message.user text with
  | error e => rfl
  | ok m =>
    dsimp only
    change _ = ((readied s).append m).mapError AppendError.toAgentError
    rw [← readied]
    cases (readied s).append m <;> rfl

/-- What was submitted is one message behind the session as it was found. -/
theorem submit_appends {text : String} (ok : submit s text = .ok s') :
    ∃ m, Message.user text = .ok m ∧ (readied s).appendAll [m] = .ok s' := by
  rw [submit_eq] at ok
  split at ok
  · cases ok
  · rename_i m hm
    refine ⟨m, hm, ?_⟩
    cases happend : (readied s).appendAll [m] with
    | error e =>
      rw [happend] at ok
      cases ok
    | ok s'' =>
      rw [happend] at ok
      cases ok
      rfl

theorem submit_reachable (h : s.Reachable) {text : String} (ok : submit s text = .ok s') :
    s'.Reachable := by
  obtain ⟨m, -, happend⟩ := submit_appends ok
  have hready : (readied s).Reachable := by
    unfold readied
    split
    · exact h.resume
    · exact h
  exact hready.appendAll happend

end Agent

namespace Session

/-- A session that has lived through operations, messages of the user and turns,
with the usages that were reported in all that time. -/
inductive Lived : Session → List TokenUsage → Prop
  | new (id : SessionId) : Lived (.new id) []
  | prompted {id : SessionId} {prompt : String} {s : Session}
      (ok : withSystemPrompt id prompt = .ok s) : Lived s []
  | operated {s : Session} {us : List TokenUsage} (before : Lived s us) (op : SessionOp) :
      Lived (s.perform op) (us ++ op.tokens)
  | submitted {s s' : Session} {us : List TokenUsage} {text : String} (before : Lived s us)
      (ok : Agent.submit s text = .ok s') : Lived s' us
  | turn {σ : Type} {s : Session} {us : List TokenUsage} (before : Lived s us)
      (a : Agent σ) (c : Clock) (w : σ) :
      Lived (a.runTurn s c w).1.session (us ++ reportedIn (a.runTurn s c w).1.trace)

theorem Lived.reachable {s : Session} {us : List TokenUsage} (h : s.Lived us) :
    s.Reachable := by
  induction h with
  | new id => exact .new id
  | prompted ok => exact .prompted ok
  | operated before op ih => exact ih.perform op
  | submitted before ok ih => exact Agent.submit_reachable ih ok
  | turn before a c w ih => exact Agent.runTurn_reachable a ih c w

theorem Lived.performAll {s : Session} {us : List TokenUsage} (h : s.Lived us)
    (ops : List SessionOp) : (s.performAll ops).Lived (us ++ ops.flatMap SessionOp.tokens) := by
  induction ops generalizing s us with
  | nil =>
    rw [List.flatMap_nil, List.append_nil]
    exact h
  | cons op rest ih =>
    rw [List.flatMap_cons, ← List.append_assoc]
    exact ih (h.operated op)

end Session

end AgentLoop
