/-
AgentLoop.Tool.Registry — the tools that are on offer.

* `Registry` — the tools in the order of their registration, and an
  index of their names
* `Registry.register` — adds a tool, unless its description is refused
  or its name is taken
* `Execution`, `Executor` — what runs behind a tool, in time
* `Registry.invoke` — a call from lookup to result
-/
import AgentLoop.Tool.Result

namespace AgentLoop

/-- Why a tool cannot be registered. -/
inductive RegisterError where
  | badSpec (error : SpecError)
  | nameTaken (name : String)
deriving DecidableEq, Repr

/-- A tool that cannot be registered, as an error of the agent. -/
def RegisterError.toAgentError : RegisterError → AgentError
  | .badSpec e => .invalidToolSpec e.reason
  | .nameTaken name => .duplicateTool name

/-- A description and what runs behind it. -/
structure RegisteredTool (ε : Type) where
  spec : ToolSpec
  executor : ε

/-- The tools on offer, and the position of each by its name. -/
structure Registry (ε : Type) where
  tools : List (RegisteredTool ε) := []
  index : List (String × Nat) := []

namespace Registry

variable {ε : Type}

/-- A registry without tools. -/
def empty : Registry ε := {}

/-- Adds a tool. -/
def register (r : Registry ε) (spec : ToolSpec) (executor : ε) :
    Except RegisterError (Registry ε) :=
  match spec.check with
  | .error e => .error (.badSpec e)
  | .ok _ =>
    if (r.index.lookup spec.name).isSome then .error (.nameTaken spec.name)
    else .ok
      { tools := r.tools ++ [⟨spec, executor⟩]
        index := (spec.name, r.tools.length) :: r.index }

/-- The tool of a name. -/
def find? (r : Registry ε) (name : String) : Option (RegisteredTool ε) :=
  (r.index.lookup name).bind fun i => r.tools[i]?

/-- The description of the tool of a name. -/
def get? (r : Registry ε) (name : String) : Option ToolSpec :=
  (r.find? name).map (·.spec)

/-- All descriptions, in the order of registration. -/
def describeAll (r : Registry ε) : List ToolSpec := r.tools.map (·.spec)

/-- All names, in the order of registration. -/
def names (r : Registry ε) : List String := r.tools.map (·.spec.name)

/-- The number of tools. -/
def size (r : Registry ε) : Nat := r.tools.length

/-- Whether there are no tools. -/
def isEmpty (r : Registry ε) : Bool := r.tools.isEmpty

end Registry

/-! ## Running a tool -/

/-- The course that the run of a tool takes if it is left alone: when it
raises the signal to stop, and when and how it ends, in milliseconds from
its start. -/
structure Execution where
  raises : Option Nat
  ending : Option (Nat × ExecutorOutcome)
deriving Repr

/-- What runs behind a tool. A start may change the world. -/
abbrev Executor (σ : Type) := Fields → σ → Execution × σ

/-- A call on its way to its result, in milliseconds from its start:
when the signal is raised, and when the result is there. It was
`executed` if lookup and arguments were right. -/
structure Invocation where
  executed : Bool
  raises : Option Nat
  result : Option (Nat × ToolCallResult)
deriving Repr

namespace Invocation

/-- A call that is answered without running anything. -/
def refused (id : CallId) (f : ToolFailure) : Invocation :=
  ⟨false, none, some (0, .failure id f)⟩

/-- Whether a run goes on for so long. -/
def lasts (limit : Option Nat) (ms : Nat) : Bool := limit.all (ms ≤ ·)

/-- A run under a time limit. A run that ends with the limit has ended. -/
def ofExecution (id : CallId) (tool : String) (limit : Option Nat)
    (e : Execution) : Invocation :=
  let ending := match e.ending with
    | some (ms, outcome) =>
      if lasts limit ms then some (ms, ToolCallResult.ofOutcome id tool outcome)
      else none
    | none => none
  let result := match ending with
    | some r => some r
    | none => limit.map fun l => (l, ToolCallResult.timedOut id tool l)
  ⟨true, e.raises.filter fun ms => lasts (result.map (·.1)) ms, result⟩

end Invocation

/-- A call from lookup to result, under a time limit if there is one. A
result always comes of it, unless the tool never ends and there is no
limit. -/
def Registry.invoke {σ : Type} (r : Registry (Executor σ)) (limit : Option Nat)
    (request : ToolCallRequest) (world : σ) : Invocation × σ :=
  let id := request.callId
  let name := request.toolName
  match r.find? name with
  | none => (.refused id (.unknownTool name r.names), world)
  | some tool =>
    match tool.spec.validateArguments request.arguments with
    | .error vs => (.refused id (.schemaViolation name vs), world)
    | .ok arguments =>
      let (execution, world) := tool.executor arguments world
      (.ofExecution id name limit execution, world)

end AgentLoop
