/-
AgentLoop.Time.Activity — what happens while somebody waits for a
result.

* `Activity` — a course of events that ends in a result or never ends
* `Activity.bind` — one activity after another
* `Activity.follow` — waiting for the result, under the signal to stop;
  only the signal cuts a wait short (`isRaised_of_follow`)
* `Activity.Ends` — whether there is a result, so that waiting for it ends
  (`follow_ne_never`)

An activity carries the state of the world along: each wait shows the
state that the world is in while it lasts, which is where an
interruption leaves it.
-/
import AgentLoop.Time.Clock

namespace AgentLoop

/-- A course of events: a result, a standstill, a wait of some
milliseconds before the rest, or the raising of the signal. -/
inductive Activity (σ α : Type) where
  | done (state : σ) (result : α)
  | stuck (state : σ)
  | wait (state : σ) (ms : Nat) (rest : Activity σ α)
  | raise (rest : Activity σ α)

/-- How a wait for a result ends: with the result, with an interruption,
or not at all. -/
inductive Awaited (σ α : Type) where
  | ready (clock : Clock) (state : σ) (result : α)
  | interrupted (clock : Clock) (state : σ)
  | never (clock : Clock) (state : σ)

namespace Activity

variable {σ τ α β : Type}

/-- Another view of the state. -/
def mapState (f : σ → τ) : Activity σ α → Activity τ α
  | .done s a => .done (f s) a
  | .stuck s => .stuck (f s)
  | .wait s ms rest => .wait (f s) ms (rest.mapState f)
  | .raise rest => .raise (rest.mapState f)

/-- One activity, and then another that begins with its result. -/
def bind (first : Activity σ α) (next : σ → α → Activity σ β) :
    Activity σ β :=
  match first with
  | .done s a => next s a
  | .stuck s => .stuck s
  | .wait s ms rest => .wait s ms (rest.bind next)
  | .raise rest => .raise (rest.bind next)

/-- Waits for the result of an activity. The signal is noticed as soon as
there is something to wait for; an activity that raises it and ends
without another wait has ended. -/
def follow : Activity σ α → Clock → Awaited σ α
  | .done s a, c => .ready c s a
  | .stuck s, c =>
    match c.interruption? none with
    | some c => .interrupted c s
    | none => .never c s
  | .wait s ms rest, c =>
    if ms = 0 then rest.follow c
    else match c.interruption? (some (c.now + ms)) with
      | some c => .interrupted c s
      | none => rest.follow (c.advance (c.now + ms))
  | .raise rest, c => rest.follow c.raise

/-- A pause of some milliseconds. -/
def pause (state : σ) (ms : Nat) : Activity σ Unit :=
  .wait state ms (.done state ())

/-- Whether an activity ends in a result. -/
def Ends : Activity σ α → Prop
  | .done _ _ => True
  | .stuck _ => False
  | .wait _ _ rest => rest.Ends
  | .raise rest => rest.Ends

theorem isRaised_of_follow {activity : Activity σ α} {c c' : Clock} {s : σ}
    (h : activity.follow c = .interrupted c' s) : c'.isRaised = true := by
  induction activity generalizing c with
  | done _ _ => cases h
  | stuck _ =>
    simp only [follow] at h
    split at h
    · rename_i hsignal
      cases h
      exact Clock.isRaised_of_interruption? hsignal
    · cases h
  | wait _ ms rest ih =>
    simp only [follow] at h
    split at h
    · exact ih h
    · split at h
      · rename_i hsignal
        cases h
        exact Clock.isRaised_of_interruption? hsignal
      · exact ih h
  | raise rest ih => exact ih h

/-- Nobody waits in vain under a raised signal. -/
theorem not_raised_of_never {activity : Activity σ α} {c c' : Clock} {s : σ}
    (h : activity.follow c = .never c' s) : c'.isRaised = false := by
  induction activity generalizing c with
  | done _ _ => cases h
  | stuck _ =>
    simp only [follow] at h
    split at h
    · cases h
    · rename_i hsignal
      cases h
      exact Clock.not_raised_of_no_interruption hsignal
  | wait _ ms rest ih =>
    simp only [follow] at h
    split at h
    · exact ih h
    · split at h
      · cases h
      · exact ih h
  | raise rest ih => exact ih h

theorem follow_ne_never {activity : Activity σ α} (h : activity.Ends)
    (c c' : Clock) (s : σ) : activity.follow c ≠ .never c' s := by
  induction activity generalizing c with
  | done _ _ => simp [follow]
  | stuck _ => exact h.elim
  | wait _ ms rest ih =>
    simp only [follow]
    split
    · exact ih h c
    · split
      · simp
      · exact ih h _
  | raise rest ih => exact ih h _

theorem ends_pause (state : σ) (ms : Nat) : (pause state ms).Ends := True.intro

end Activity

end AgentLoop
