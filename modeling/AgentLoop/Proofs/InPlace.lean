/-
AgentLoop.Proofs.InPlace — programs that change a state where it is kept.

* `InPlace` — such a program may break off, and what it has changed by then stays
  changed
* `run_bind`, `run_get_bind`, `run_throw_bind`, `run_liftExcept_bind`, `run_adapt` —
  what its steps do to the state
* `InPlace.commit` — what a program does that changes all at once or nothing

An operation that gives a new state or an error says nothing of what becomes of the
old state. A program in place does: if it comes to the same as `commit`, an error
has changed nothing.
-/

namespace AgentLoop

/-- A program that changes a state in place. It may break off, and what it has
changed by then stays changed. -/
abbrev InPlace (ε κ α : Type) := ExceptT ε (StateM κ) α

namespace InPlace

variable {ε κ α β : Type}

theorem run_bind (x : InPlace ε κ β) (f : β → InPlace ε κ α) (k : κ) :
    (x >>= f).run.run k =
      match x.run.run k with
      | (.ok b, k') => (f b).run.run k'
      | (.error e, k') => (.error e, k') := by
  rw [ExceptT.run_bind, StateT.run_bind]
  generalize x.run.run k = r
  obtain ⟨_ | _, _⟩ := r <;> rfl

theorem run_get_bind (f : κ → InPlace ε κ α) (k : κ) :
    (get >>= f).run.run k = (f k).run.run k := rfl

theorem run_throw_bind (e : ε) (f : β → InPlace ε κ α) (k : κ) :
    (throw e >>= f).run.run k = (.error e, k) := rfl

theorem run_liftExcept_bind (x : Except ε β) (f : β → InPlace ε κ α) (k : κ) :
    (liftExcept x >>= f).run.run k =
      match x with
      | .ok b => (f b).run.run k
      | .error e => (.error e, k) := by
  cases x <;> rfl

theorem run_adapt {ε' : Type} (g : ε → ε') (x : InPlace ε κ α) (k : κ) :
    (x.adapt g : InPlace ε' κ α).run.run k =
      ((x.run.run k).1.mapError g, (x.run.run k).2) := rfl

/-- Puts the new state of an operation where the old one was, or leaves that as it
was if the operation failed. -/
def commit (k : κ) : Except ε κ → Except ε Unit × κ
  | .ok k' => (.ok (), k')
  | .error e => (.error e, k)

end InPlace

end AgentLoop
