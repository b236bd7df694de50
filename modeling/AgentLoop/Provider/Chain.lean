/-
AgentLoop.Provider.Chain — several backends behind one another.

* `Strategy` — stay with a backend until it fails, or go round
* `Cursor` — the slot that the next request starts with
* `Cursor.start`, `Cursor.advancePast` — the two steps in which a request
  touches the cursor
* `Chain.complete` — a request to a chain

A slot is a number that only grows; slot `s` belongs to the backend `s`
modulo the length of the chain. Requests that are under way at the same
time share the cursor, so each touches it in single steps only.
-/
import AgentLoop.Provider.Reply
import AgentLoop.Time.Activity
import AgentLoop.Tool.Spec

namespace AgentLoop

/-- Which backend a request starts with: the one that answered last, or
the next one in turn. -/
inductive Strategy where
  | failover
  | roundRobin
deriving DecidableEq, Repr

/-- The slot that the next request starts with. Slots are numbers of 64
bits and begin again at zero after the last. -/
structure Cursor where
  strategy : Strategy
  index : Nat
deriving DecidableEq, Repr

namespace Cursor

/-- The number of slots. -/
def slots : Nat := Number.max64 + 1

/-- The slot so many places behind another. -/
def slotAfter (slot offset : Nat) : Nat := (slot + offset) % slots

/-- Takes the slot that a request starts with. -/
def start (c : Cursor) : Nat × Cursor :=
  match c.strategy with
  | .failover => (c.index, c)
  | .roundRobin => (c.index, { c with index := slotAfter c.index 1 })

/-- Moves past a slot whose backend failed, unless the cursor has moved
on already. -/
def advancePast (c : Cursor) (failed : Nat) : Cursor :=
  if c.strategy = .failover && c.index = failed then
    { c with index := slotAfter failed 1 }
  else c

end Cursor

/-- Backends behind one another. A member carries its own state. -/
structure Chain (μ : Type) where
  cursor : Cursor
  members : List μ

namespace Chain

variable {μ τ : Type}

/-- A request that is put to a member: the members' state and the state
they share go along. -/
abbrev Asked (μ τ : Type) := τ → Activity (μ × τ) ProviderResult

/-- A chain without backends cannot answer. -/
def emptyError : ProviderError :=
  { ProviderError.unavailable "provider chain is empty" with retryable := false }

/-- Asks `left` more members, beginning `offset` places behind the slot
`first`; `last` is the latest failure. -/
def askFrom (asked : List (Asked μ τ)) (first : Nat) :
    (left offset : Nat) → (last : ProviderError) → Chain μ → τ →
      Activity (Chain μ × τ) ProviderResult
  | 0, _, last, chain, shared => .done (chain, shared) (.error last)
  | left + 1, offset, last, chain, shared =>
    let slot := Cursor.slotAfter first offset
    let place := slot % chain.members.length
    match asked[place]? with
    | none => .done (chain, shared) (.error last)
    | some ask =>
      let activity := (ask shared).mapState fun (member, shared) =>
        ({ chain with members := chain.members.set place member }, shared)
      activity.bind fun (chain, shared) result =>
        match result with
        | .ok reply => .done (chain, shared) (.ok reply)
        | .error e =>
          if e.retryable then
            let chain := { chain with cursor := chain.cursor.advancePast slot }
            askFrom asked first left (offset + 1) e chain shared
          else .done (chain, shared) (.error e)

/-- A request to a chain: its members are asked one after the other until
one replies or fails for good; `asked` puts the request to each. -/
def complete (asked : List (Asked μ τ)) (chain : Chain μ) (shared : τ) :
    Activity (Chain μ × τ) ProviderResult :=
  if chain.members.isEmpty then .done (chain, shared) (.error emptyError)
  else
    let (first, cursor) := chain.cursor.start
    askFrom asked first chain.members.length 0
      (.unavailable "no provider answered") { chain with cursor := cursor } shared

end Chain

end AgentLoop
