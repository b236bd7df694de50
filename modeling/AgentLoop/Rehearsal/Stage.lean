/-
AgentLoop.Rehearsal.Stage — the world in which a turn is rehearsed.

* `Stage` — what backends and tools share: the identifiers given out, the
  runs of tools, the line to a server, and a log of what was asked
* `ToolPlan` — what the runs of a tool are to look like
* `ToolPlan.executor` — a tool that follows its plan
-/
import AgentLoop.Http.Exchange
import AgentLoop.Message.FreshId
import AgentLoop.Tool.Registry

namespace AgentLoop.Rehearsal

/-- A run of a tool: its name and its arguments. -/
structure ToolRun where
  tool : String
  arguments : Fields
deriving Repr

/-- A request to a scripted backend. -/
structure Asked where
  provider : String
  history : List Message
  tools : List String
deriving Repr

/-- What backends and tools share. The logs are kept last first. -/
structure Stage where
  nextId : Nat := 0
  runCounts : List (Nat × Nat) := []
  runs : List ToolRun := []
  asked : List Asked := []
  line : Http.Line := {}

namespace Stage

/-- The first number of an identifier; the others follow it. -/
def firstId : Nat := 0x9E3779B97F4A4C15A24BAED4963EE407

/-- The identifier that was given out at a place in the order. -/
def idAt (place : Nat) : CallId := CallId.numbered (firstId + place)

/-- A fresh identifier. -/
def freshId (s : Stage) : CallId × Stage :=
  (idAt s.nextId, { s with nextId := s.nextId + 1 })

/-- Sends a request to the server. -/
def send (r : Http.Request) (s : Stage) :
    Except Http.Fault Http.Response × Stage :=
  let (answer, line) := s.line.send r
  (answer, { s with line := line })

/-- Notes the start of a run. The flag numbers the executor; the result
counts its earlier runs. -/
def startRun (executor : Nat) (run : ToolRun) (s : Stage) : Nat × Stage :=
  let earlier := (s.runCounts.lookup executor).getD 0
  (earlier, { s with
    runCounts := (executor, earlier + 1) :: s.runCounts
    runs := run :: s.runs })

end Stage

/-- How a planned run ends: with the arguments it was given, with a value,
with an error or with a crash. -/
inductive PlannedEnding where
  | echo
  | value (v : Json)
  | fail (causes : List String)
  | crash (report : Option String)
deriving Repr

/-- What the runs of a tool are to look like: a wait, which an argument
may set; then perhaps the raising of the signal; then the ending, unless
the run hangs. -/
structure ToolPlan where
  delayArgument : Option String := none
  delayMs : Nat := 0
  raises : Bool := false
  hangs : Bool := false
  hangsFirst : Nat := 0
  ending : PlannedEnding := .echo
deriving Repr

namespace ToolPlan

/-- The wait of a run. -/
def delay (p : ToolPlan) (arguments : Fields) : Nat :=
  ((p.delayArgument.bind arguments.find?).bind Json.nat?).getD p.delayMs

/-- The end of a run that does not hang. -/
def outcome (p : ToolPlan) (arguments : Fields) : ExecutorOutcome :=
  match p.ending with
  | .echo => .value (.object arguments)
  | .value v => .value v
  | .fail causes => .failed causes
  | .crash report => .crashed report

/-- The course of a run behind so many earlier ones. -/
def execution (p : ToolPlan) (arguments : Fields) (earlier : Nat) : Execution :=
  let delay := p.delay arguments
  { raises := if p.raises then some delay else none
    ending :=
      if p.hangs || earlier < p.hangsFirst then none
      else some (delay, p.outcome arguments) }

/-- A tool that follows its plan, on a stage within a larger world. -/
def executor {σ : Type} (p : ToolPlan) (name : String) (number : Nat)
    (stage : σ → Stage) (put : Stage → σ → σ) : Executor σ :=
  fun arguments world =>
    let (earlier, s) := (stage world).startRun number ⟨name, arguments⟩
    (p.execution arguments earlier, put s world)

end ToolPlan

end AgentLoop.Rehearsal
