/-
AgentLoop.Session.Calls — the index of a session's tool calls.

* `CallSlot` — where a call was issued and, once answered, where its
  result stands
* `CallIndex` — the slots of all calls by their identifiers
* `CallLedger` — the index and the number of calls still open
* `CallLedger.accept` — the rules of pairing, for one message

The index stands beside the log; messages never point at each other.
-/
import AgentLoop.Message.Basic

namespace AgentLoop

/-- Where a call was issued and where its result stands. -/
structure CallSlot where
  issuedAt : Nat
  resolvedAt : Option Nat
deriving DecidableEq, Repr

/-- The slots of the calls of a session, the latest call first. -/
structure CallIndex where
  entries : List (CallId × CallSlot) := []
deriving DecidableEq, Repr

namespace CallIndex

/-- The slot of a call. -/
def find? (c : CallIndex) (id : CallId) : Option CallSlot :=
  c.entries.lookup id

/-- Adds a call that was issued at a position. -/
def issue (c : CallIndex) (id : CallId) (position : Nat) : CallIndex :=
  ⟨(id, ⟨position, none⟩) :: c.entries⟩

/-- Notes the position of a call's result. -/
def resolve (c : CallIndex) (id : CallId) (position : Nat) : CallIndex :=
  ⟨c.entries.map fun e =>
    if e.1 = id then (e.1, { e.2 with resolvedAt := some position }) else e⟩

theorem find?_issue (c : CallIndex) (id : CallId) (position : Nat)
    (other : CallId) :
    (c.issue id position).find? other =
      if other = id then some ⟨position, none⟩ else c.find? other := by
  by_cases h : other = id
  · simp [issue, find?, h]
  · simp [issue, find?, List.lookup_cons, beq_eq_false_iff_ne.mpr h, h]

theorem find?_resolve (c : CallIndex) (id : CallId) (position : Nat)
    (other : CallId) :
    (c.resolve id position).find? other =
      (c.find? other).map fun slot =>
        if other = id then { slot with resolvedAt := some position } else slot := by
  obtain ⟨entries⟩ := c
  simp only [resolve, find?]
  induction entries with
  | nil => rfl
  | cons e rest ih =>
    obtain ⟨i, slot⟩ := e
    by_cases h : other = i
    · subst h
      by_cases hi : other = id <;> simp [hi]
    · have hb : (other == i) = false := beq_eq_false_iff_ne.mpr h
      by_cases hi : i = id
      · subst hi
        simpa [List.lookup_cons, hb] using ih
      · simpa [List.lookup_cons, hb, hi] using ih

/-- The positions of the calls without a result, in ascending order. -/
def openPositions (c : CallIndex) : List Nat :=
  ((c.entries.filter fun e => e.2.resolvedAt.isNone).map
    fun e => e.2.issuedAt).mergeSort

end CallIndex

/-- Why a message cannot be appended. -/
inductive AppendError where
  | sessionFailed (session : String)
  | duplicateCall (id : CallId) (resolved : Bool) (position : Nat)
  | resultRepeated (id : CallId)
  | resultUnknown (id : CallId)
  | callsOpen (role : Role) (count : Nat)
deriving DecidableEq, Repr

/-- The reason in words. -/
def AppendError.reason : AppendError → String
  | .sessionFailed session =>
    "session " ++ session ++ " has failed and accepts no further messages"
  | .duplicateCall id resolved position =>
    "call_id " ++ id.text ++ " duplicates an "
      ++ (if resolved then "resolved" else "unresolved")
      ++ " tool call at position " ++ toString position
  | .resultRepeated id =>
    "tool result for call_id " ++ id.text ++ " was already recorded"
  | .resultUnknown id => "tool result references unknown call_id " ++ id.text
  | .callsOpen role count =>
    "cannot append " ++ role.name ++ " while " ++ toString count
      ++ " tool call(s) are unresolved"

/-- The index of calls and the number of those without a result. -/
structure CallLedger where
  calls : CallIndex := {}
  pending : Nat := 0
deriving DecidableEq, Repr

namespace CallLedger

/-- Takes in a message at a position of the log: a call under a new
identifier, a result for an open call, or a text while no call is
open. -/
def accept (l : CallLedger) (position : Nat) (m : Message) :
    Except AppendError CallLedger :=
  match m with
  | .toolCall id _ _ =>
    match l.calls.find? id with
    | some slot => .error (.duplicateCall id slot.resolvedAt.isSome slot.issuedAt)
    | none => .ok ⟨l.calls.issue id position, l.pending + 1⟩
  | .toolResult id _ _ =>
    match l.calls.find? id with
    | none => .error (.resultUnknown id)
    | some slot =>
      if slot.resolvedAt.isSome then .error (.resultRepeated id)
      else .ok ⟨l.calls.resolve id position, l.pending - 1⟩
  | m =>
    if l.pending > 0 then .error (.callsOpen m.role l.pending) else .ok l

/-- Takes in a group of messages, the first of them at a position. -/
def acceptAll (l : CallLedger) (position : Nat) :
    List Message → Except AppendError CallLedger
  | [] => .ok l
  | m :: rest =>
    match l.accept position m with
    | .error e => .error e
    | .ok l => l.acceptAll (position + 1) rest

end CallLedger

end AgentLoop
