/-
AgentLoop.Time.Clock — time and the signal to stop.

* `Signal` — the caller's means to cancel a turn
* `Clock` — the time and the signal
* `Clock.interruption?` — whether the signal cuts a wait short

Time is counted in milliseconds and passes only while something waits.
A wait that is over in the very millisecond in which the signal is due
is over first.
-/

namespace AgentLoop

/-- The caller's means to cancel a turn: there is none, or it is not
raised yet but perhaps due at some time, or it is raised. It is never
lowered again. -/
inductive Signal where
  | absent
  | lowered (due : Option Nat)
  | raised
deriving DecidableEq, Repr

/-- The time and the signal. -/
structure Clock where
  now : Nat
  signal : Signal
deriving DecidableEq, Repr

namespace Clock

/-- Whether the signal is raised. -/
def isRaised (c : Clock) : Bool := c.signal = .raised

/-- The signal is raised, if there is one. -/
def raise (c : Clock) : Clock :=
  match c.signal with
  | .absent => c
  | _ => { c with signal := .raised }

/-- The clock at a later time. -/
def advance (c : Clock) (time : Nat) : Clock := { c with now := time }

/-- The clock when the signal cuts a wait short, if it does. The wait ends
at `deadline`, or never. -/
def interruption? (c : Clock) (deadline : Option Nat) : Option Clock :=
  match c.signal with
  | .absent => none
  | .raised => some c
  | .lowered none => none
  | .lowered (some due) =>
    if deadline.all (due < ·) then some ⟨max c.now due, .raised⟩ else none

@[simp] theorem isRaised_advance (c : Clock) (time : Nat) :
    (c.advance time).isRaised = c.isRaised := rfl

theorem isRaised_of_interruption? {c c' : Clock} {deadline : Option Nat}
    (h : c.interruption? deadline = some c') : c'.isRaised = true := by
  unfold interruption? at h
  split at h
  · cases h
  · rename_i hraised
    cases h
    simp [isRaised, hraised]
  · cases h
  · split at h
    · cases h
      rfl
    · cases h

/-- A raised signal cuts every wait short. -/
theorem not_raised_of_no_interruption {c : Clock} {deadline : Option Nat}
    (h : c.interruption? deadline = none) : c.isRaised = false := by
  unfold interruption? at h
  unfold isRaised
  split at h
  · rename_i habsent
    simp [habsent]
  · cases h
  · rename_i hlowered
    simp [hlowered]
  · rename_i hlowered
    simp [hlowered]

end Clock

end AgentLoop
