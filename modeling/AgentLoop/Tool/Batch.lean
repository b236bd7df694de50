/-
AgentLoop.Tool.Batch — a batch of tool calls, several at a time.

* `BatchRun` — when a call of the batch starts, raises the signal and
  has its result
* `Batch.schedule` — the runs of a batch under a bound on how many are
  under way
* `Batch.follow` — waiting for the whole batch, under the signal to stop
* `Batch.peak` — how many executors were running at once

Calls start in their order. With a window of `n`, call `i` starts once
the results of the calls up to `i - n` are there, so a slow call at the
head holds later ones back.
-/
import AgentLoop.Time.Activity
import AgentLoop.Tool.Registry

namespace AgentLoop

/-- One call of a batch in time: the times of its start, of the signal
being raised by it, and of its result. `yielded` is the time at which its
result and all results before it are there. -/
structure BatchRun where
  request : ToolCallRequest
  executed : Bool
  start : Nat
  raises : Option Nat
  result : Option (Nat × ToolCallResult)
  yielded : Option Nat
deriving Repr

namespace BatchRun

/-- Whether the executor of a run is still running at a time. -/
def runsAfter (r : BatchRun) (time : Nat) : Bool :=
  r.executed && r.result.all fun e => time < e.1

/-- The run of an invocation that starts at a time, behind runs whose
results are there at `before`. -/
def ofInvocation (request : ToolCallRequest) (start : Nat)
    (before : Option Nat) (i : Invocation) : BatchRun :=
  let result := i.result.map fun r => (start + r.1, r.2)
  { request := request
    executed := i.executed
    start := start
    raises := i.raises.map (start + ·)
    result := result
    yielded := match before, result with
      | some b, some r => some (max b r.1)
      | _, _ => none }

end BatchRun

namespace Batch

variable {σ : Type}

/-- What a call does when it starts in a state of the world. -/
abbrev Invoke (σ : Type) := ToolCallRequest → σ → Invocation × σ

/-- The time at which the next call starts, given the times at which the
results of the calls before it are yielded. -/
def nextStart (window begin : Nat) (yields : List (Option Nat)) : Option Nat :=
  if yields.length < window then some begin
  else (yields[yields.length - window]?).join

/-- The runs of a batch, each with the state of the world after its start.
Calls that never start have none. -/
def scheduleFrom (invoke : Invoke σ) (window begin : Nat)
    (yields : List (Option Nat)) (before : Option Nat) :
    List ToolCallRequest → σ → List (BatchRun × σ)
  | [], _ => []
  | request :: rest, world =>
    match nextStart window begin yields with
    | none => []
    | some start =>
      let (invocation, world) := invoke request world
      let run := BatchRun.ofInvocation request start before invocation
      (run, world) ::
        scheduleFrom invoke window begin (yields ++ [run.yielded]) run.yielded
          rest world

/-- The runs of a batch that begins at a time. -/
def schedule (invoke : Invoke σ) (window begin : Nat)
    (requests : List ToolCallRequest) (world : σ) : List (BatchRun × σ) :=
  scheduleFrom invoke window begin [] (some begin) requests world

/-- The earlier of two times, either of which may never come. -/
def earlier : Option Nat → Option Nat → Option Nat
  | some a, some b => some (min a b)
  | some a, none => some a
  | none, b => b

/-- The first time at which a run raises the signal. -/
def firstRaise (runs : List BatchRun) : Option Nat :=
  runs.foldr (fun r t => earlier r.raises t) none

/-- The results of the runs, if every call of the batch has one. -/
def results? (requests : List ToolCallRequest) (runs : List BatchRun) :
    Option (List ToolCallResult) :=
  if runs.length = requests.length then
    runs.mapM fun r => r.result.map (·.2)
  else none

/-- The time at which the last result of a batch is there, if it comes. -/
def completion? (begin : Nat) (requests : List ToolCallRequest)
    (runs : List BatchRun) : Option Nat :=
  if runs.length = requests.length then
    match runs.getLast? with
    | some r => r.yielded
    | none => some begin
  else none

/-- The state of the world after some runs have started. -/
def worldAfter (world : σ) (runs : List (BatchRun × σ)) : σ :=
  match runs.getLast? with
  | some r => r.2
  | none => world

/-- The runs that have started by a time. -/
def startedBy (time : Nat) (runs : List (BatchRun × σ)) :
    List (BatchRun × σ) :=
  runs.takeWhile fun r => r.1.start ≤ time

/-- How a wait for a batch ends: the runs that were started, and all
results or none. -/
abbrev Outcome (σ : Type) :=
  Awaited (σ × List BatchRun) (List ToolCallResult)

/-- The clock when the signal is raised before the batch is complete:
by one of its runs, or from outside. -/
def interruption? (c : Clock) (raise completion : Option Nat) :
    Option Clock :=
  let inside := match c.signal, raise with
    | .absent, _ => none
    | _, some time =>
      if completion.all (time < ·) then some (⟨time, .raised⟩ : Clock) else none
    | _, none => none
  match inside, c.interruption? completion with
  | some a, some b => some (if b.now < a.now then b else a)
  | some a, none => some a
  | none, b => b

/-- Waits for a whole batch. The signal cuts the wait short unless it is
raised in the very moment in which the last result comes; what was
started by then has been started, and no result is kept. -/
def follow (invoke : Invoke σ) (window : Nat) (requests : List ToolCallRequest)
    (c : Clock) (world : σ) : Outcome σ :=
  if c.isRaised then .interrupted c (world, [])
  else
    let planned := schedule invoke (max window 1) c.now requests world
    let runs := planned.map (·.1)
    let completion := completion? c.now requests runs
    match interruption? c (firstRaise runs) completion with
    | some c =>
      let started := startedBy c.now planned
      .interrupted c (worldAfter world started, started.map (·.1))
    | none =>
      let state := (worldAfter world planned, runs)
      match completion, results? requests runs with
      | some time, some results =>
        let c := c.advance time
        .ready (if (firstRaise runs).isSome then c.raise else c) state results
      | _, _ => .never c state

/-- How many executors are running when each run starts, itself
included; the runs before it are given last first. -/
def loads (before : List BatchRun) : List BatchRun → List Nat
  | [] => []
  | r :: rest =>
    if r.executed then
      (before.countP (·.runsAfter r.start) + 1) :: loads (r :: before) rest
    else loads (r :: before) rest

/-- The greatest number of executors that were running at once. -/
def peak (runs : List BatchRun) : Nat := (loads [] runs).foldr max 0

end Batch

end AgentLoop
