/-
AgentLoop.Session.Basic — a conversation and its bookkeeping.

* `Session` — the log, the ledger of its calls, the number of turns, a
  status and the tokens used
* `Session.appendAll` — a group of messages is recorded as a whole or
  not at all
* `Session.pendingToolCalls` — the calls without a result, in the order
  of the log
* `Session.resume`, `Session.markCompleted`, `Session.markFailed` — the
  ways the status changes besides

The rules of the log: a call identifier is issued once, a result answers
a call that is open, and no text is appended while a call is open.
-/
import AgentLoop.Failure
import AgentLoop.Provider.Reply
import AgentLoop.Session.Calls

namespace AgentLoop

/-- The identifier of a session; any text will do. -/
structure SessionId where
  text : String
deriving DecidableEq, Repr

/-- Where a session stands between two turns. -/
inductive SessionStatus where
  | active
  | awaitingTool
  | completed
  | failed
deriving DecidableEq, Repr

namespace SessionStatus

/-- The name of a status in the text of a session. -/
def name : SessionStatus → String
  | .active => "active"
  | .awaitingTool => "awaiting_tool"
  | .completed => "completed"
  | .failed => "failed"

/-- The statuses by their names. -/
def names : List (String × SessionStatus) :=
  [("active", .active), ("awaiting_tool", .awaitingTool),
   ("completed", .completed), ("failed", .failed)]

theorem lookup_name (s : SessionStatus) : names.lookup s.name = some s := by
  cases s <;> rfl

/-- The name of a status in the text of an error. -/
def label : SessionStatus → String
  | .active => "Active"
  | .awaitingTool => "AwaitingTool"
  | .completed => "Completed"
  | .failed => "Failed"

end SessionStatus

/-- An append that the rules forbid, as an error of the agent. -/
def AppendError.toAgentError (e : AppendError) : AgentError :=
  .invariantViolation e.reason

/-- A conversation and its bookkeeping. -/
structure Session where
  id : SessionId
  history : List Message := []
  ledger : CallLedger := {}
  turn : Nat := 0
  status : SessionStatus := .active
  usage : TokenUsage := {}
deriving Repr

namespace Session

/-- An empty session. -/
def new (id : SessionId) : Session := { id }

/-- The number of calls without a result. -/
def pending (s : Session) : Nat := s.ledger.pending

/-- The status after a group that opened so many turns and left so many
calls open. -/
def statusAfter (s : Session) (newTurns pending : Nat) : SessionStatus :=
  if pending > 0 then .awaitingTool
  else if newTurns > 0 || s.status = .awaitingTool then .active
  else s.status

/-- Appends a group of messages: all of them, or none if a rule forbids
one. A failed session takes none. -/
def appendAll (s : Session) (ms : List Message) : Except AppendError Session :=
  if s.status = .failed then .error (.sessionFailed s.id.text)
  else
    match s.ledger.acceptAll s.history.length ms with
    | .error e => .error e
    | .ok ledger =>
      let newTurns := ms.countP Message.isUserText
      .ok { s with
        history := s.history ++ ms
        ledger := ledger
        turn := s.turn + newTurns
        status := s.statusAfter newTurns ledger.pending }

/-- Appends one message. -/
def append (s : Session) (m : Message) : Except AppendError Session :=
  s.appendAll [m]

/-- A session that begins with a system prompt. -/
def withSystemPrompt (id : SessionId) (prompt : String) :
    Except AgentError Session :=
  match Message.system prompt with
  | .error e => .error e.toAgentError
  | .ok m =>
    match (new id).append m with
    | .error e => .error e.toAgentError
    | .ok s => .ok s

/-- The calls without a result, in the order of the log. -/
def pendingToolCalls (s : Session) : List Message :=
  s.ledger.calls.openPositions.filterMap fun i => s.history[i]?

/-- Whether a call with this identifier was ever issued. -/
def hasCall (s : Session) (id : CallId) : Bool :=
  (s.ledger.calls.find? id).isSome

/-- Whether the latest message that is no system text is the user's. -/
def userSpokeLast (s : Session) : Bool :=
  match s.history.reverse.find? fun m => !m.isSystemText with
  | some m => m.isUserText
  | none => false

/-- Whether the user spoke last, and no reply is on its way. -/
def awaitsReply (s : Session) : Bool :=
  s.status = .active && s.userSpokeLast

/-- Adds the tokens that a reply took. -/
def recordUsage (s : Session) (u : TokenUsage) : Session :=
  { s with usage := s.usage + u }

/-- The turn is over and has an answer. -/
def markCompleted (s : Session) : Session :=
  if s.status = .active then { s with status := .completed } else s

/-- The turn is over and has none. -/
def markFailed (s : Session) : Session := { s with status := .failed }

/-- Opens a failed session again; its open calls stay open. The flag
tells whether the status changed. -/
def resume (s : Session) : Bool × Session :=
  if s.status ≠ .failed then (false, s)
  else
    (true, { s with
      status := if s.pending > 0 then .awaitingTool else .active })

end Session

end AgentLoop
