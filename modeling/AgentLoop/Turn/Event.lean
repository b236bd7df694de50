/-
AgentLoop.Turn.Event — what a turn lets others know.

* `AgentEvent` — the events of a turn
* `EventChannel` — the events that receivers have not fetched yet, in a
  ring of limited size
* `EventChannel.publish`, `EventChannel.subscribe`,
  `EventChannel.receive`

Publishing never waits. A receiver sees the events published after it
subscribed; one that is too far behind is told how many it missed and
goes on with the oldest event that is still there.
-/
import AgentLoop.Session.Basic
import AgentLoop.Turn.Outcome

namespace AgentLoop

/-- An event of a turn. -/
inductive AgentEvent where
  | stateChanged (session : SessionId) (state : LoopState)
  | providerRetry (session : SessionId) (retry : Nat) (error : ProviderError)
  | toolCallStarted (session : SessionId) (call : CallId) (tool : String)
  | toolCallFinished (session : SessionId) (call : CallId) (status : ToolStatus)
  | turnFinished (session : SessionId) (outcome : TurnOutcome)
deriving DecidableEq, Repr

/-- The record of an event. -/
def AgentEvent.toJson : AgentEvent → Json
  | .stateChanged s state =>
    .object [("event", .string "state_changed"), ("session_id", .string s.text),
      ("state", .string state.name)]
  | .providerRetry s retry error =>
    .object [("event", .string "provider_retry"), ("session_id", .string s.text),
      ("retry", .ofNat retry), ("error", error.toJson)]
  | .toolCallStarted s call tool =>
    .object [("event", .string "tool_call_started"),
      ("session_id", .string s.text), ("call_id", .string call.text),
      ("tool_name", .string tool)]
  | .toolCallFinished s call status =>
    .object [("event", .string "tool_call_finished"),
      ("session_id", .string s.text), ("call_id", .string call.text),
      ("status", .string status.name)]
  | .turnFinished s outcome =>
    .object [("event", .string "turn_finished"), ("session_id", .string s.text),
      ("outcome", outcome.toJson)]

/-- What a receiver gets: an event, or word of events it missed. -/
inductive Received where
  | event (e : AgentEvent)
  | lagged (missed : Nat)
deriving DecidableEq, Repr

/-- A ring of events with room for `room` of them. The number of events
published so far is `count`; `latest` holds the last ones, the last one
first. Each receiver has the number of the event it comes to next. -/
structure EventChannel where
  room : Nat
  count : Nat := 0
  latest : List AgentEvent := []
  receivers : List Nat := []
deriving Repr

namespace EventChannel

/-- The least power of two that is not below `n`, from a power of two on,
given as many rounds as it may have to be doubled. -/
def powerFrom (n : Nat) : Nat → Nat → Nat
  | 0, p => p
  | rounds + 1, p => if n ≤ p then p else powerFrom n rounds (2 * p)

/-- A channel for so many events, at least one, rounded up to a power of
two. -/
def ofCapacity (capacity : Nat) : EventChannel :=
  { room := powerFrom capacity capacity.log2.succ 1 }

/-- The room of a channel if nothing else is said. -/
def defaultCapacity : Nat := 256

/-- Publishes an event. Without a receiver it is gone. -/
def publish (c : EventChannel) (e : AgentEvent) : EventChannel :=
  if c.receivers.isEmpty then c
  else { c with count := c.count + 1, latest := (e :: c.latest).take c.room }

/-- Publishes events in their order. -/
def publishAll (c : EventChannel) (es : List AgentEvent) : EventChannel :=
  es.foldl publish c

/-- Adds a receiver for all events to come. -/
def subscribe (c : EventChannel) : EventChannel :=
  { c with receivers := c.receivers ++ [c.count] }

/-- All that a receiver has not fetched yet. -/
def receive (c : EventChannel) (receiver : Nat) :
    List Received × EventChannel :=
  match c.receivers[receiver]? with
  | none => ([], c)
  | some next =>
    let behind := c.count - next
    let events := (c.latest.take behind).reverse.map Received.event
    let missed := behind - c.latest.length
    let got := if missed > 0 then .lagged missed :: events else events
    (got, { c with receivers := c.receivers.set receiver c.count })

end EventChannel

end AgentLoop
