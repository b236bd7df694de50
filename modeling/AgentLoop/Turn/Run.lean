/-
AgentLoop.Turn.Run — one turn of a conversation.

* `Provider` — a backend as the loop sees it
* `Agent` — a backend, tools, settings and a source of fresh identifiers
* `Occurrence` — what a turn does and what it is given
* `Turn` — a turn on its way: session, clock, world and what occurred
* `Turn.record` — a group of messages goes to the session
* `Agent.query` — one question to the backend, repeated as the settings
  allow
* `Agent.execute` — one batch of tool calls
* `Agent.runTurn` — the loop: queries and batches in turn until there is
  an answer or an error

A turn is a function of the session, the clock and the state of the
world; backends and tools are arbitrary functions of that state. What a
turn does and what it is given is kept in the order of its occurrence,
each with the clock at that moment.
-/
import AgentLoop.Settings
import AgentLoop.Session.Context
import AgentLoop.Tool.Batch
import AgentLoop.Turn.Event

namespace AgentLoop

/-- A backend: asked with a history and the tools on offer, it answers
after a while. -/
structure Provider (σ : Type) where
  name : String
  complete : List Message → List ToolSpec → σ → Activity σ ProviderResult

/-- What runs turns. -/
structure Agent (σ : Type) where
  provider : Provider σ
  tools : Registry (Executor σ)
  settings : Settings
  freshId : σ → CallId × σ

/-- Something that occurred in a turn: it published an event, asked the
backend with a history and tools, was answered, assigned an identifier to
a call (a fresh one, or the one that was asked for), had a group of
messages recorded or refused by the session, or started the calls of a
batch. -/
inductive Occurrence where
  | published (event : AgentEvent)
  | asked (history : List Message) (tools : List ToolSpec)
  | answered (result : ProviderResult)
  | assigned (id : CallId) (fresh : Bool)
  | recorded (messages : List Message)
  | refused (error : AppendError)
  | started (runs : List BatchRun)
deriving Repr

/-- A turn on its way. What occurred is kept last first, each with the
clock at that moment. -/
structure Turn (σ : Type) where
  session : Session
  clock : Clock
  world : σ
  occurred : List (Clock × Occurrence) := []

namespace Turn

variable {σ : Type}

/-- Notes that something occurred. -/
def note (t : Turn σ) (o : Occurrence) : Turn σ :=
  { t with occurred := (t.clock, o) :: t.occurred }

/-- The turn after something outside took its time. -/
def after (t : Turn σ) (clock : Clock) (world : σ) : Turn σ :=
  { t with clock := clock, world := world }

/-- Publishes an event. -/
def publish (t : Turn σ) (e : AgentEvent) : Turn σ := t.note (.published e)

/-- Enters a state of the loop. -/
def enter (t : Turn σ) (state : LoopState) : Turn σ :=
  t.publish (.stateChanged t.session.id state)

/-- What occurred, in its order. -/
def trace (t : Turn σ) : List Occurrence :=
  (t.occurred.map (·.2)).reverse

/-- The events of a turn in their order. -/
def events (t : Turn σ) : List AgentEvent :=
  t.trace.filterMap fun
    | .published e => some e
    | _ => none

/-- The runs of tools of a turn, batch by batch. -/
def batches (t : Turn σ) : List (List BatchRun) :=
  t.trace.filterMap fun
    | .started runs => some runs
    | _ => none

/-- Appends a group of messages to the session, which takes all of them or
says why it takes none. -/
def record (t : Turn σ) (ms : List Message) : Turn σ × Option AppendError :=
  match t.session.appendAll ms with
  | .error e => (t.note (.refused e), some e)
  | .ok session => ({ t with session := session }.note (.recorded ms), none)

/-- Adds the usage of a reply, if it has one. -/
def count (t : Turn σ) : Option TokenUsage → Turn σ
  | some u => { t with session := t.session.recordUsage u }
  | none => t

/-- The turn is over without an answer. -/
def fail (t : Turn σ) (e : AgentError) : Turn σ × TurnOutcome :=
  let outcome := TurnOutcome.ofError e
  let t := { t with session := t.session.markFailed }.enter .errored
  (t.publish (.turnFinished t.session.id outcome), outcome)

/-- The turn is over and has an answer, the empty one if the backend is
done without one. -/
def complete (t : Turn σ) (text : String) : Turn σ × TurnOutcome :=
  let outcome := TurnOutcome.finalAnswer text
  let t := { t with session := t.session.markCompleted }.enter .done
  (t.publish (.turnFinished t.session.id outcome), outcome)

/-- The turn is over; its answer, if it has one, goes to the session
first. -/
def finish (t : Turn σ) : Option String → Turn σ × TurnOutcome
  | none => t.complete ""
  | some text =>
    match Message.assistant text with
    | .error e => t.fail e.toAgentError
    | .ok m =>
      match t.record [m] with
      | (t, some e) => t.fail e.toAgentError
      | (t, none) => t.complete text

end Turn

/-- How a step of a turn comes out: with what it was done for, with an
error that ends the turn, or never. -/
inductive StepResult (α : Type) where
  | next (a : α)
  | failed (e : AgentError)
  | never

/-- What a reply of the backend asks for. -/
inductive Verdict where
  | finish (text : Option String)
  | execute (calls : List ToolCallRequest)

namespace Agent

variable {σ : Type}

/-! ## Asking the backend -/

/-- Waits before a request is repeated; no wait of zero milliseconds is
ever begun. The flag tells whether the wait came to its end. -/
def pauseFor (ms : Nat) (t : Turn σ) : Turn σ × Bool :=
  if ms = 0 then (t, true)
  else if t.clock.isRaised then (t, false)
  else match (Activity.pause t.world ms).follow t.clock with
    | .ready clock world _ => (t.after clock world, true)
    | .interrupted clock world | .never clock world =>
      (t.after clock world, false)

/-- Asks the backend once. -/
def attempt (a : Agent σ) (view : List Message) (specs : List ToolSpec)
    (t : Turn σ) : Turn σ × StepResult ProviderResult :=
  if t.clock.isRaised then (t, .failed .cancelled)
  else
    let t := t.note (.asked view specs)
    match (a.provider.complete view specs t.world).follow t.clock with
    | .never clock world => (t.after clock world, .never)
    | .interrupted clock world => (t.after clock world, .failed .cancelled)
    | .ready clock world result =>
      ((t.after clock world).note (.answered result), .next result)

/-- Announces repetition number `retry` and waits `ms` milliseconds. -/
def backOff (ms retry : Nat) (e : ProviderError) (t : Turn σ) :
    Turn σ × Bool :=
  pauseFor ms (t.publish (.providerRetry t.session.id retry e))

/-- Asks the backend until it replies, fails for good, or may not be asked
again: `left` repetitions are allowed, `retry` were made, `waits` tells how
long to wait in front of each. -/
def request (a : Agent σ) (waits : Nat → Nat) (view : List Message)
    (specs : List ToolSpec) :
    (left retry : Nat) → Turn σ → Turn σ × StepResult ProviderReply
  | 0, _, t =>
    match a.attempt view specs t with
    | (t, .never) => (t, .never)
    | (t, .failed e) => (t, .failed e)
    | (t, .next (.ok reply)) => (t, .next reply)
    | (t, .next (.error e)) => (t, .failed (.provider e))
  | left + 1, retry, t =>
    match a.attempt view specs t with
    | (t, .never) => (t, .never)
    | (t, .failed e) => (t, .failed e)
    | (t, .next (.ok reply)) => (t, .next reply)
    | (t, .next (.error e)) =>
      if e.retryable then
        match backOff (waits (retry + 1)) (retry + 1) e t with
        | (t, true) => request a waits view specs left (retry + 1) t
        | (t, false) => (t, .failed .cancelled)
      else (t, .failed (.provider e))

/-- Gives a call an identifier that neither the session nor an earlier call
of its batch has: its own if it can, a fresh one otherwise. -/
def assignId (a : Agent σ) (seen : List CallId) (call : ToolCallRequest)
    (t : Turn σ) : Turn σ × ToolCallRequest :=
  if t.session.hasCall call.callId || seen.contains call.callId then
    let (id, world) := a.freshId t.world
    ((t.after t.clock world).note (.assigned id true), { call with callId := id })
  else (t.note (.assigned call.callId false), call)

/-- The calls of a batch under their identifiers, and the messages that
record them, up to the first call that has no tool. -/
def prepareCalls (a : Agent σ) (seen : List CallId) :
    List ToolCallRequest → Turn σ →
      Turn σ × Except MessageError (List ToolCallRequest × List Message)
  | [], t => (t, .ok ([], []))
  | call :: rest, t =>
    let (t, call) := a.assignId seen call t
    match Message.call call.callId call.toolName call.arguments with
    | .error e => (t, .error e)
    | .ok m =>
      match prepareCalls a (call.callId :: seen) rest t with
      | (t, .error e) => (t, .error e)
      | (t, .ok (calls, ms)) => (t, .ok (call :: calls, m :: ms))

/-- Records the calls of a batch in the session, all of them or none. -/
def recordCalls (a : Agent σ) (requested : List ToolCallRequest)
    (t : Turn σ) : Turn σ × StepResult Verdict :=
  if t.clock.isRaised then (t, .failed .cancelled)
  else match a.prepareCalls [] requested t with
    | (t, .error e) =>
      (t, .failed (.provider (.malformed e.toAgentError.display)))
    | (t, .ok (calls, messages)) =>
      match t.record messages with
      | (t, some e) => (t, .failed e.toAgentError)
      | (t, none) => (t, .next (.execute calls))

/-- Takes a reply in: its usage always counts, a blank answer or a batch
without calls is a failure of the backend unless it is done. -/
def acceptReply (a : Agent σ) (reply : ProviderReply) (t : Turn σ) :
    Turn σ × StepResult Verdict :=
  let t := t.count reply.usage?
  match reply with
  | .finalAnswer text _ =>
    if Text.isBlank text then
      (t, .failed (.provider (.malformed "final answer is empty")))
    else (t, .next (.finish (some text)))
  | .toolCallBatch [] done _ =>
    if done then (t, .next (.finish none))
    else (t, .failed (.provider (.malformed "tool call batch is empty")))
  | .toolCallBatch calls _ _ => a.recordCalls calls t

/-- The part of the history that the backend is shown. -/
def view (a : Agent σ) (s : Session) : List Message :=
  match a.settings.maxContextTokens with
  | some budget => Context.fitToBudget budget s.history
  | none => s.history

/-- One question to the backend. -/
def query (a : Agent σ) (t : Turn σ) : Turn σ × StepResult Verdict :=
  let t := t.enter .querying
  match a.request a.settings.retry.backoff (a.view t.session)
      a.tools.describeAll a.settings.retry.maxRetries 0 t with
  | (t, .next reply) => a.acceptReply reply t
  | (t, .failed e) => (t, .failed e)
  | (t, .never) => (t, .never)

/-! ## Running tools -/

/-- One batch of calls: all results are recorded in the order of the
calls, or none if the turn is cancelled meanwhile. -/
def execute (a : Agent σ) (calls : List ToolCallRequest) (t : Turn σ) :
    Turn σ × StepResult Unit :=
  let t := t.enter .executingTools
  let t := calls.foldl (fun t call =>
    t.publish (.toolCallStarted t.session.id call.callId call.toolName)) t
  let invoke := a.tools.invoke a.settings.toolTimeoutMs
  match Batch.follow invoke a.settings.toolConcurrency calls t.clock t.world with
  | .never clock (world, runs) =>
    ((t.after clock world).note (.started runs), .never)
  | .interrupted clock (world, runs) =>
    ((t.after clock world).note (.started runs), .failed .cancelled)
  | .ready clock (world, runs) results =>
    let t := (t.after clock world).note (.started runs)
    let t := results.foldl (fun t r =>
      t.publish (.toolCallFinished t.session.id r.callId r.status)) t
    match t.record (results.map ToolCallResult.toMessage) with
    | (t, some e) => (t, .failed e.toAgentError)
    | (t, none) => (t, .next ())

/-! ## The loop -/

/-- The end of a turn, unless it never ends. -/
abbrev Ended (σ : Type) := Turn σ × Option TurnOutcome

/-- A turn that has come to its end. -/
def ended (e : Turn σ × TurnOutcome) : Ended σ := (e.1, some e.2)

/-- Asks and executes in turn, with so many questions left. -/
def loop (a : Agent σ) : (left : Nat) → Turn σ → Ended σ
  | left, t =>
    if t.clock.isRaised then ended (t.fail .cancelled)
    else match left with
      | 0 => ended (t.fail (.iterationLimitExceeded a.settings.maxIterations))
      | left + 1 =>
        match a.query t with
        | (t, .never) => (t, none)
        | (t, .failed e) => ended (t.fail e)
        | (t, .next (.finish text)) => ended (t.finish text)
        | (t, .next (.execute calls)) =>
          match a.execute calls t with
          | (t, .never) => (t, none)
          | (t, .failed e) => ended (t.fail e)
          | (t, .next _) => loop a left t

/-- A recorded call as a request again. -/
def requestOf? : Message → Option ToolCallRequest
  | .toolCall id tool arguments => some ⟨id, tool.text, arguments⟩
  | _ => none

/-- The calls that a session has no results for, as requests. -/
def pendingRequests (s : Session) : List ToolCallRequest :=
  s.pendingToolCalls.filterMap requestOf?

/-- Why a turn cannot begin. -/
def noUserMessage (s : Session) : AgentError :=
  .invariantViolation ("session " ++ s.id.text
    ++ " has no unanswered user message (status " ++ s.status.label ++ ")")

/-- Turns a turn down: the session is left as it was found. -/
def reject (reopened : Bool) (t : Turn σ) : Turn σ × TurnOutcome :=
  let outcome := TurnOutcome.ofError (noUserMessage t.session)
  let session := if reopened then t.session.markFailed else t.session
  let t := { t with session := session }.enter .errored
  (t.publish (.turnFinished t.session.id outcome), outcome)

/-- A turn as it begins: a failed session is opened again. -/
def opening (session : Session) (clock : Clock) (world : σ) : Turn σ :=
  let t : Turn σ := { session := session, clock := clock, world := world }
  { t.enter .idle with session := session.resume.2 }

/-- Runs a turn. Calls that the last turn left without results are run
before the backend is asked. -/
def runTurn (a : Agent σ) (session : Session) (clock : Clock) (world : σ) :
    Ended σ :=
  let t := opening session clock world
  match pendingRequests t.session with
  | [] =>
    if t.session.awaitsReply then a.loop a.settings.maxIterations t
    else ended (reject session.resume.1 t)
  | calls =>
    if t.clock.isRaised then ended (t.fail .cancelled)
    else match a.execute calls t with
      | (t, .never) => (t, none)
      | (t, .failed e) => ended (t.fail e)
      | (t, .next _) => a.loop a.settings.maxIterations t

end Agent

end AgentLoop
