/-
AgentLoop.Proofs.Turn.Trace — the record of what occurs in a turn.

* simp lemmas — what each small step of a turn does to session, clock and
  trace
* `Turn.Passes` — a stretch of a turn that leaves the session alone
* `assignedIds` — the identifiers that were given to calls
* `MintsUnused` — no fresh identifier is one that is in use

The source of fresh identifiers is arbitrary, so nothing is known of what
it gives out. Where its promise matters it is taken as a condition on the
trace of the turn: each fresh identifier differs from those in use at the
moment it is given out.
-/
import AgentLoop.Turn.Run

namespace AgentLoop

namespace Turn

variable {σ : Type}

/-! ## Small steps -/

@[simp] theorem session_note (t : Turn σ) (o : Occurrence) :
    (t.note o).session = t.session := rfl

@[simp] theorem clock_note (t : Turn σ) (o : Occurrence) :
    (t.note o).clock = t.clock := rfl

@[simp] theorem world_note (t : Turn σ) (o : Occurrence) :
    (t.note o).world = t.world := rfl

@[simp] theorem trace_note (t : Turn σ) (o : Occurrence) :
    (t.note o).trace = t.trace ++ [o] := by
  simp [trace, note]

@[simp] theorem session_after (t : Turn σ) (clock : Clock) (world : σ) :
    (t.after clock world).session = t.session := rfl

@[simp] theorem clock_after (t : Turn σ) (clock : Clock) (world : σ) :
    (t.after clock world).clock = clock := rfl

@[simp] theorem trace_after (t : Turn σ) (clock : Clock) (world : σ) :
    (t.after clock world).trace = t.trace := rfl

@[simp] theorem session_publish (t : Turn σ) (e : AgentEvent) :
    (t.publish e).session = t.session := rfl

@[simp] theorem clock_publish (t : Turn σ) (e : AgentEvent) :
    (t.publish e).clock = t.clock := rfl

@[simp] theorem trace_publish (t : Turn σ) (e : AgentEvent) :
    (t.publish e).trace = t.trace ++ [.published e] := trace_note t _

@[simp] theorem session_enter (t : Turn σ) (state : LoopState) :
    (t.enter state).session = t.session := rfl

@[simp] theorem clock_enter (t : Turn σ) (state : LoopState) :
    (t.enter state).clock = t.clock := rfl

@[simp] theorem trace_enter (t : Turn σ) (state : LoopState) :
    (t.enter state).trace =
      t.trace ++ [.published (.stateChanged t.session.id state)] :=
  trace_note t _

@[simp] theorem trace_with_session (t : Turn σ) (s : Session) :
    ({ t with session := s } : Turn σ).trace = t.trace := rfl

@[simp] theorem clock_count (t : Turn σ) (u : Option TokenUsage) :
    (t.count u).clock = t.clock := by
  cases u <;> rfl

@[simp] theorem trace_count (t : Turn σ) (u : Option TokenUsage) :
    (t.count u).trace = t.trace := by
  cases u <;> rfl

/-! ## Stretches of a turn -/

/-- From `t` to `t'` the turn leaves its session alone; what occurs on the
way is `os`. -/
structure Passes (t : Turn σ) (os : List Occurrence) (t' : Turn σ) : Prop where
  session : t'.session = t.session
  trace : t'.trace = t.trace ++ os

namespace Passes

variable {t t' t'' : Turn σ} {os os' : List Occurrence}

theorem refl (t : Turn σ) : t.Passes [] t := ⟨rfl, by simp⟩

theorem trans (h : t.Passes os t') (h' : t'.Passes os' t'') :
    t.Passes (os ++ os') t'' := by
  refine ⟨h'.session.trans h.session, ?_⟩
  rw [h'.trace, h.trace, List.append_assoc]

theorem after (h : t.Passes os t') (clock : Clock) (world : σ) :
    t.Passes os (t'.after clock world) := ⟨h.session, h.trace⟩

theorem note (h : t.Passes os t') (o : Occurrence) :
    t.Passes (os ++ [o]) (t'.note o) := by
  refine ⟨h.session, ?_⟩
  rw [trace_note, h.trace, List.append_assoc]

end Passes

/-! ## How a turn is closed -/

@[simp] theorem snd_fail (t : Turn σ) (e : AgentError) :
    (t.fail e).2 = .ofError e := rfl

@[simp] theorem session_fail (t : Turn σ) (e : AgentError) :
    (t.fail e).1.session = t.session.markFailed := rfl

@[simp] theorem clock_fail (t : Turn σ) (e : AgentError) :
    (t.fail e).1.clock = t.clock := rfl

@[simp] theorem trace_fail (t : Turn σ) (e : AgentError) :
    (t.fail e).1.trace = t.trace ++
      [.published (.stateChanged t.session.id .errored),
       .published (.turnFinished t.session.id (.ofError e))] := by
  simp [fail, Session.markFailed]

@[simp] theorem snd_complete (t : Turn σ) (text : String) :
    (t.complete text).2 = .finalAnswer text := rfl

@[simp] theorem session_complete (t : Turn σ) (text : String) :
    (t.complete text).1.session = t.session.markCompleted := rfl

@[simp] theorem trace_complete (t : Turn σ) (text : String) :
    (t.complete text).1.trace = t.trace ++
      [.published (.stateChanged t.session.markCompleted.id .done),
       .published (.turnFinished t.session.markCompleted.id (.finalAnswer text))] := by
  simp [complete]

@[simp] theorem clock_complete (t : Turn σ) (text : String) :
    (t.complete text).1.clock = t.clock := rfl

end Turn

/-! ## Fresh identifiers -/

/-- The identifiers that were given to calls, in their order. -/
def assignedIds (os : List Occurrence) : List CallId :=
  os.filterMap fun
    | .assigned id _ => some id
    | _ => none

/-- No fresh identifier is one that is in use: one of `used`, or one that
was given to an earlier call. -/
def MintsUnused (used : List CallId) : List Occurrence → Prop
  | [] => True
  | .assigned id fresh :: rest =>
    (fresh = true → id ∉ used) ∧ MintsUnused (used ++ [id]) rest
  | _ :: rest => MintsUnused used rest

instance decidableMintsUnused :
    (used : List CallId) → (os : List Occurrence) → Decidable (MintsUnused used os)
  | _, [] => .isTrue True.intro
  | used, .assigned id fresh :: rest =>
    have := decidableMintsUnused (used ++ [id]) rest
    inferInstanceAs (Decidable ((fresh = true → id ∉ used) ∧ MintsUnused _ rest))
  | used, .published _ :: rest => decidableMintsUnused used rest
  | used, .asked _ _ :: rest => decidableMintsUnused used rest
  | used, .answered _ :: rest => decidableMintsUnused used rest
  | used, .recorded _ :: rest => decidableMintsUnused used rest
  | used, .refused _ :: rest => decidableMintsUnused used rest
  | used, .started _ :: rest => decidableMintsUnused used rest

@[simp] theorem assignedIds_append (os os' : List Occurrence) :
    assignedIds (os ++ os') = assignedIds os ++ assignedIds os' := by
  simp [assignedIds]

theorem mintsUnused_append {used : List CallId} {os os' : List Occurrence} :
    MintsUnused used (os ++ os') ↔
      MintsUnused used os ∧ MintsUnused (used ++ assignedIds os) os' := by
  induction os generalizing used with
  | nil => simp [MintsUnused, assignedIds]
  | cons o rest ih =>
    cases o with
    | assigned id fresh =>
      have hids : used ++ assignedIds (.assigned id fresh :: rest) =
          used ++ [id] ++ assignedIds rest := by
        simp [assignedIds]
      rw [hids]
      simp only [List.cons_append, MintsUnused, ih, and_assoc]
    | _ => simpa [MintsUnused, assignedIds] using ih

end AgentLoop
