/-
AgentLoop.Rehearsal.Backend — the backends of a rehearsal.

* `Backend` — a script, a model server, or a chain of backends
* `Backend.ask`, `Backend.health` — a request to a backend, and whether
  it is well
* `Backend.scripts`, `Backend.updateScript` — the scripts in a backend, in
  the order in which they stand in it
* `World` — a backend on a stage, and the provider it is in that world
-/
import AgentLoop.ChatServer.Service
import AgentLoop.Provider.Chain
import AgentLoop.Provider.Script
import AgentLoop.Rehearsal.Stage
import AgentLoop.Turn.Run

namespace AgentLoop.Rehearsal

/-- A backend, with all the state it has. -/
inductive Backend where
  | script (s : Script)
  | server (settings : ServerSettings)
  | chain (cursor : Cursor) (members : List Backend)

namespace Backend

mutual

/-- The name of a backend. -/
def name : Backend → String
  | .script s => s.name
  | .server _ => "ollama"
  | .chain _ members => "chain(" ++ "|".intercalate (names members) ++ ")"

/-- The names of several backends. -/
def names : List Backend → List String
  | [] => []
  | b :: rest => name b :: names rest

end

/-- The way from a stage to a model server. -/
def link : ChatServer.Link Stage := ⟨Stage.send, Stage.freshId⟩

mutual

/-- A request to a backend. -/
def ask (history : List Message) (tools : List ToolSpec) :
    Backend → Stage → Activity (Backend × Stage) ProviderResult
  | .script s, stage =>
    let stage := { stage with
      asked := ⟨s.name, history, tools.map (·.name)⟩ :: stage.asked }
    (s.ask history tools stage).mapState fun (s, stage) => (.script s, stage)
  | .server settings, stage =>
    let (result, stage) := ChatServer.complete link settings history tools stage
    .done (.server settings, stage) result
  | .chain cursor members, stage =>
    (Chain.complete (askEach history tools members) ⟨cursor, members⟩ stage).mapState
      fun (c, stage) => (.chain c.cursor c.members, stage)

/-- The request, put to each of several backends. -/
def askEach (history : List Message) (tools : List ToolSpec) :
    List Backend → List (Stage → Activity (Backend × Stage) ProviderResult)
  | [] => []
  | b :: rest => ask history tools b :: askEach history tools rest

end

mutual

/-- Whether a backend is well; a chain is if one of its members is. -/
def health : Backend → Stage → Bool × Stage
  | .script s, stage => (s.healthy, stage)
  | .server settings, stage => ChatServer.health link settings stage
  | .chain _ members, stage => anyHealth members stage

/-- Whether one of several backends is well; they are looked at in order
until one is. -/
def anyHealth : List Backend → Stage → Bool × Stage
  | [], stage => (false, stage)
  | b :: rest, stage =>
    match health b stage with
    | (true, stage) => (true, stage)
    | (false, stage) => anyHealth rest stage

end

mutual

/-- The scripts in a backend, in order. -/
def scripts : Backend → List Script
  | .script s => [s]
  | .server _ => []
  | .chain _ members => scriptsOf members

/-- The scripts in several backends, in order. -/
def scriptsOf : List Backend → List Script
  | [] => []
  | b :: rest => scripts b ++ scriptsOf rest

end

mutual

/-- Changes the script at a place in the order. -/
def updateScript (place : Nat) (f : Script → Script) : Backend → Backend
  | .script s => .script (if place = 0 then f s else s)
  | .server settings => .server settings
  | .chain cursor members => .chain cursor (updateScriptOf place f members)

/-- Changes the script at a place in the order of several backends. -/
def updateScriptOf (place : Nat) (f : Script → Script) :
    List Backend → List Backend
  | [] => []
  | b :: rest =>
    let count := (scripts b).length
    if place < count then updateScript place f b :: rest
    else b :: updateScriptOf (place - count) f rest

end

end Backend

/-- A backend on a stage. -/
structure World where
  backend : Backend
  stage : Stage

namespace World

/-- The backend as the loop sees it. -/
def provider (name : String) : Provider World where
  name := name
  complete history tools w :=
    (w.backend.ask history tools w.stage).mapState fun (b, s) => ⟨b, s⟩

/-- A fresh identifier. -/
def freshId (w : World) : CallId × World :=
  let (id, stage) := w.stage.freshId
  (id, { w with stage := stage })

/-- A tool that follows a plan in this world. -/
def executor (p : ToolPlan) (name : String) (number : Nat) : Executor World :=
  p.executor name number World.stage fun s w => { w with stage := s }

end World

end AgentLoop.Rehearsal
