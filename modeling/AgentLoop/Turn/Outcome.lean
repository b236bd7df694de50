/-
AgentLoop.Turn.Outcome — where a turn is, and how it ends.

* `LoopState` — the states of the loop
* `TurnOutcome` — an answer, or the error that ended the turn
-/
import AgentLoop.Failure

namespace AgentLoop

open Json (Reader)

/-- Where a turn is. -/
inductive LoopState where
  | idle
  | querying
  | executingTools
  | done
  | errored
deriving DecidableEq, Repr

namespace LoopState

/-- The name of a state. -/
def name : LoopState → String
  | .idle => "idle"
  | .querying => "querying"
  | .executingTools => "executing_tools"
  | .done => "done"
  | .errored => "errored"

/-- The states by their names. -/
def names : List (String × LoopState) :=
  [("idle", .idle), ("querying", .querying),
   ("executing_tools", .executingTools), ("done", .done),
   ("errored", .errored)]

theorem lookup_name (s : LoopState) : names.lookup s.name = some s := by
  cases s <;> rfl

end LoopState

/-- How a turn ends. -/
inductive TurnOutcome where
  | finalAnswer (text : String)
  | errored (kind : TurnErrorKind) (message : String)
deriving DecidableEq, Repr

namespace TurnOutcome

/-- Whether the turn has an answer. -/
def isFinalAnswer : TurnOutcome → Bool
  | .finalAnswer _ => true
  | .errored .. => false

/-- Why the turn has no answer. -/
def errorKind? : TurnOutcome → Option TurnErrorKind
  | .finalAnswer _ => none
  | .errored kind _ => some kind

/-- The outcome of a turn that ends with an error. -/
def ofError (e : AgentError) : TurnOutcome := .errored e.turnKind e.display

/-- The record of an outcome. -/
def toJson : TurnOutcome → Json
  | .finalAnswer text =>
    .object [("outcome", .string "final_answer"), ("text", .string text)]
  | .errored kind message =>
    .object [("outcome", .string "errored"), ("kind", kind.toJson),
      ("message", .string message)]

/-- Reads an outcome. -/
def reader : Reader TurnOutcome := fun n => do
  let (outcome, content) ← Json.tagged "outcome" n
  match outcome with
  | "final_answer" =>
    let g ← Json.record [.of "text" Reader.text] content
    return .finalAnswer (← g.required "text" Reader.text)
  | "errored" =>
    let kind := TurnErrorKind.reader true
    let g ← Json.record [.of "kind" kind, .of "message" Reader.text] content
    return .errored (← g.required "kind" kind)
      (← g.required "message" Reader.text)
  | _ => .error .malformed

end TurnOutcome

end AgentLoop
