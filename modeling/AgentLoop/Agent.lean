/-
AgentLoop.Agent — the agent as its callers see it.

* `Agent.createSession`, `Agent.submit` — a conversation and the user's
  next message
* `Agent.ask` — one question on a session of its own
* `AgentBuilder` — an agent put together step by step
-/
import AgentLoop.Turn.Run

namespace AgentLoop

namespace Agent

variable {σ : Type}

/-- A session that begins with the system prompt of the settings, if they
have one. -/
def createSession (a : Agent σ) (id : SessionId) : Except AgentError Session :=
  match a.settings.systemPrompt with
  | some prompt => Session.withSystemPrompt id prompt
  | none => .ok (Session.new id)

/-- Appends the user's next message. A failed session is opened again for
it, unless calls are still open. -/
def submit (s : Session) (text : String) : Except AgentError Session :=
  match Message.user text with
  | .error e => .error e.toAgentError
  | .ok m =>
    let s :=
      if s.status = .failed && s.pendingToolCalls.isEmpty then s.resume.2 else s
    match s.append m with
    | .error e => .error e.toAgentError
    | .ok s => .ok s

/-- What the caller of `ask` is told of a turn without an answer: an error
made anew from the kind of the turn's end and its text. -/
def askError (a : Agent σ) (kind : TurnErrorKind) (message : String) :
    AgentError :=
  match kind with
  | .provider kind => .provider (.ofKind kind message)
  | .iterationLimitExceeded => .iterationLimitExceeded a.settings.maxIterations
  | .cancelled => .cancelled
  | .invariantViolation => .invariantViolation message

/-- The answer to one question, on a session of its own, and the turn it
took; without a turn if the question cannot be put. A turn that nobody
can cancel is run. -/
def ask (a : Agent σ) (id : SessionId) (question : String) (now : Nat)
    (world : σ) : Option (Turn σ) × Option (Except AgentError String) :=
  let opened := do
    let s ← a.createSession id
    submit s question
  match opened with
  | .error e => (none, some (.error e))
  | .ok s =>
    let (t, outcome) := a.runTurn s ⟨now, .absent⟩ world
    (some t, outcome.map fun
      | .finalAnswer text => .ok text
      | .errored kind message => .error (a.askError kind message))

end Agent

/-- An agent that is being put together. Tools come one by one or as a
registry that several agents share. The first tool that is refused is
remembered. -/
structure AgentBuilder (σ : Type) where
  provider : Option (Provider σ) := none
  tools : Registry (Executor σ) := {}
  sharedTools : Option (Registry (Executor σ)) := none
  settings : Settings := {}
  eventCapacity : Nat := EventChannel.defaultCapacity
  refused : Option RegisterError := none

namespace AgentBuilder

variable {σ : Type}

/-- Adds a tool. -/
def tool (b : AgentBuilder σ) (spec : ToolSpec) (executor : Executor σ) :
    AgentBuilder σ :=
  match b.tools.register spec executor with
  | .ok tools => { b with tools := tools }
  | .error e => { b with refused := b.refused.or (some e) }

/-- The agent and the channel of its events. -/
def build (b : AgentBuilder σ) (freshId : σ → CallId × σ) :
    Except AgentError (Agent σ × EventChannel) := do
  if let some e := b.refused then throw e.toAgentError
  let some provider := b.provider | throw SettingsError.noProvider.toAgentError
  if let .error e := b.settings.validate then throw e.toAgentError
  let tools ← match b.sharedTools with
    | none => pure b.tools
    | some shared =>
      if b.tools.isEmpty then pure shared
      else throw SettingsError.twoRegistries.toAgentError
  return (⟨provider, tools, b.settings, freshId⟩, .ofCapacity b.eventCapacity)

end AgentBuilder

end AgentLoop
