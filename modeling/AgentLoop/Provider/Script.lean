/-
AgentLoop.Provider.Script — a backend that follows a script.

* `ScriptEntry` — one answer, and what happens before it is given
* `Script` — the answers to come and the requests that were received
* `Script.ask` — a request to the script

A script that has come to its end answers that it has.
-/
import AgentLoop.Provider.Reply
import AgentLoop.Time.Activity
import AgentLoop.Tool.Spec

namespace AgentLoop

/-- What happens before an answer is given: a wait, then perhaps the
raising of the signal, then perhaps nothing ever again. -/
structure ScriptEffect where
  delayMs : Nat := 0
  raises : Bool := false
  hangs : Bool := false
deriving DecidableEq, Repr

/-- A request as a script receives it: the history, and the names of the
tools. -/
structure ScriptRequest where
  history : List Message
  tools : List String
deriving Repr

/-- A scripted backend. Each request takes the next effect; the next
result is taken only when the effect is over, so a request that is given
up leaves its result to the one after it. The requests that came to
their result are kept last first. -/
structure Script where
  name : String := "scripted"
  healthy : Bool := true
  effects : List ScriptEffect := []
  results : List ProviderResult := []
  received : List ScriptRequest := []

namespace Script

/-- Adds an answer at the end of a script. -/
def push (s : Script) (effect : ScriptEffect) (result : ProviderResult) : Script :=
  { s with effects := s.effects ++ [effect], results := s.results ++ [result] }

/-- The next result. -/
def deliver (s : Script) (request : ScriptRequest) : Script × ProviderResult :=
  let s := { s with received := request :: s.received }
  match s.results with
  | [] => (s, .error (.malformed "script exhausted"))
  | r :: rest => ({ s with results := rest }, r)

/-- A request to a script, in a world that has been told of it. -/
def ask {σ : Type} (history : List Message) (tools : List ToolSpec)
    (s : Script) (world : σ) : Activity (Script × σ) ProviderResult :=
  let effect := s.effects.headD {}
  let s := { s with effects := s.effects.drop 1 }
  let (delivered, result) := s.deliver ⟨history, tools.map (·.name)⟩
  let ending : Activity (Script × σ) ProviderResult :=
    if effect.hangs then .stuck (s, world) else .done (delivered, world) result
  .wait (s, world) effect.delayMs
    (if effect.raises then .raise ending else ending)

end Script

end AgentLoop
