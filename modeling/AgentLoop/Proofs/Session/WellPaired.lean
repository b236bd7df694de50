/-
AgentLoop.Proofs.Session.WellPaired — which logs a session accepts.

* `Log.WellPaired` — the rule for a whole log: each of its messages is one
  that the part in front of it may go on with
* `wellPaired_append` — a well-paired log stays so exactly with the groups
  that it may go on with
* `Kept`, `Kept.appendAll` — an append as it is carried out, change by
  change, on a session that is kept with its times
* `Kept.run_appendAll` — this comes to the same as `Session.appendAll`
* `appendAll_iff_wellPaired` — a group is appended exactly if the session
  has not failed and the log is well paired with it; otherwise nothing has
  changed

The rule looks at the log alone, an append at the ledger alone. They agree
because the ledger of a reachable session is in step with its log.
-/
import AgentLoop.Proofs.InPlace
import AgentLoop.Proofs.Session.Pending

namespace AgentLoop

namespace Log

/-! ## Well-paired logs -/

/-- Each message of a log is one that the part in front of it admits: a
call under an identifier that was not issued there, a result for a call
that was issued there and not answered, a text where all calls are
answered. -/
def WellPaired (log : List Message) : Prop :=
  ∀ i (h : i < log.length), Admits (log.take i) log[i]

instance decidableAdmits (log : List Message) : (m : Message) → Decidable (Admits log m)
  | .toolCall id _ _ => inferInstanceAs (Decidable (id ∉ issued log))
  | .toolResult id _ _ =>
    inferInstanceAs (Decidable (id ∈ issued log ∧ id ∉ answered log))
  | .userText _ | .assistantText _ | .systemText _ =>
    inferInstanceAs (Decidable (∀ id ∈ issued log, id ∈ answered log))

instance decidableWellPaired (log : List Message) : Decidable (WellPaired log) :=
  inferInstanceAs (Decidable (∀ i (h : i < log.length), Admits (log.take i) log[i]))

theorem wellPaired_nil : WellPaired [] := by
  intro i h
  cases h

theorem wellPaired_append_singleton {log : List Message} {m : Message} :
    WellPaired (log ++ [m]) ↔ WellPaired log ∧ Admits log m := by
  constructor
  · intro h
    refine ⟨fun i hi => ?_, ?_⟩
    · have hadmits := h i (by simp; omega)
      rwa [List.take_append_of_le_length (by omega), List.getElem_append_left hi] at hadmits
    · simpa using h log.length (by simp)
  · rintro ⟨hlog, hlast⟩ i hi
    rw [List.length_append, List.length_singleton] at hi
    rw [List.take_append_of_le_length (by omega)]
    by_cases hlt : i < log.length
    · rw [List.getElem_append_left hlt]
      exact hlog i hlt
    · obtain rfl : i = log.length := by omega
      simpa using hlast

theorem wellPaired_append {log ms : List Message} :
    WellPaired (log ++ ms) ↔ WellPaired log ∧ Continues log ms := by
  induction ms generalizing log with
  | nil => simp [Continues]
  | cons m rest ih =>
    rw [List.append_cons, ih, wellPaired_append_singleton, Continues, and_assoc]

end Log

namespace Session

/-- The log of every reachable session is well paired. -/
theorem Reachable.wellPaired {s : Session} (h : s.Reachable) : Log.WellPaired s.history := by
  have happend : ∀ {s s' : Session} {ms : List Message}, s.Consistent →
      Log.WellPaired s.history → s.appendAll ms = .ok s' → Log.WellPaired s'.history := by
    intro s s' ms hs hlog ok
    rw [history_of_appendAll ok, Log.wellPaired_append]
    exact ⟨hlog, ((appendAll_isOk_iff hs).mp ⟨s', ok⟩).2⟩
  induction h with
  | new id => exact Log.wellPaired_nil
  | prompted hprompt =>
    obtain ⟨m, -, ok⟩ := withSystemPrompt_ok hprompt
    exact happend (.new _) Log.wellPaired_nil ok
  | @perform s op hs ih =>
    cases op with
    | append m =>
      simp only [Session.perform, Session.append]
      cases ok : s.appendAll [m] with
      | error e => exact ih
      | ok s' => exact happend hs.consistent ih ok
    | appendAll ms =>
      simp only [Session.perform]
      cases ok : s.appendAll ms with
      | error e => exact ih
      | ok s' => exact happend hs.consistent ih ok
    | resume =>
      simp only [Session.perform, Session.resume]
      split <;> exact ih
    | recordUsage u => exact ih
    | markCompleted => rwa [Session.perform, history_markCompleted]
    | markFailed => exact ih

end Session

/-! ## An append change by change -/

/-- A session where it is kept: with the times at which it was made and
last changed. -/
structure Kept where
  session : Session
  createdAt : Nat
  updatedAt : Nat

/-- A program that changes a kept session in place. It may break off, and
what it has changed by then stays changed. -/
abbrev Change (α : Type) := ExceptT AppendError (StateM Kept) α

/-- The copy of the ledger on which a group of messages is tried, with the
position of the next message and the turns opened so far. -/
structure Trial where
  ledger : CallLedger
  position : Nat
  newTurns : Nat

/-- Tries one more message. -/
def Trial.step (t : Trial) (m : Message) : Except AppendError Trial :=
  (t.ledger.accept t.position m).map fun ledger =>
    ⟨ledger, t.position + 1, t.newTurns + if m.isUserText then 1 else 0⟩

namespace Kept

/-- A group of messages is appended in place at a time: it is tried on a
copy first, and then the session is changed field by field. -/
def appendAll (now : Nat) (ms : List Message) : Change Unit := do
  let s := (← get).session
  if s.status = .failed then
    throw (.sessionFailed s.id.text)
  let trial ← liftExcept (ms.foldlM Trial.step ⟨s.ledger, s.history.length, 0⟩)
  modify fun k => { k with session.history := k.session.history ++ ms }
  modify fun k => { k with session.ledger := trial.ledger }
  modify fun k => { k with session.turn := k.session.turn + trial.newTurns }
  modify fun k =>
    { k with session.status := k.session.statusAfter trial.newTurns k.session.pending }
  modify fun k => { k with updatedAt := now }

end Kept

theorem Trial.foldlM_step (ms : List Message) (l : CallLedger) (position newTurns : Nat) :
    ms.foldlM Trial.step ⟨l, position, newTurns⟩ =
      (l.acceptAll position ms).map fun ledger =>
        ⟨ledger, position + ms.length, newTurns + ms.countP Message.isUserText⟩ := by
  induction ms generalizing l position newTurns with
  | nil => rfl
  | cons m rest ih =>
    rw [List.foldlM_cons, Trial.step, CallLedger.acceptAll]
    cases l.accept position m with
    | error e => rfl
    | ok next =>
      have hpos : position + 1 + rest.length = position + (rest.length + 1) := by omega
      simp [Except.map, bind, Except.bind, ih, hpos, List.countP_cons, Nat.add_comm, Nat.add_left_comm]

/-- An append in place comes to the same as the append of the session: it
puts the new session in the place of the old one, or breaks off before
anything has changed. -/
theorem Kept.run_appendAll (now : Nat) (ms : List Message) (k : Kept) :
    (Kept.appendAll now ms).run.run k =
      match k.session.appendAll ms with
      | .ok s => (.ok (), { k with session := s, updatedAt := now })
      | .error e => (.error e, k) := by
  rw [Kept.appendAll, InPlace.run_get_bind, Session.appendAll]
  by_cases hfailed : k.session.status = .failed
  · rw [if_pos hfailed, if_pos hfailed, InPlace.run_throw_bind]
  · rw [if_neg hfailed, if_neg hfailed, InPlace.run_liftExcept_bind, Trial.foldlM_step]
    cases k.session.ledger.acceptAll k.session.history.length ms with
    | error e => rfl
    | ok ledger =>
      simp only [Except.map, Nat.zero_add, Session.pending]
      rfl

/-! ## What is accepted -/

namespace Session

/-- A group of messages is appended to a reachable session exactly if the
session has not failed and its log is well paired with the group. The log
then goes on with the group. A refused group changes neither the session
nor the times that are kept with it. -/
theorem appendAll_iff_wellPaired {s : Session} (h : s.Reachable) (ms : List Message) :
    ((∃ s', s.appendAll ms = .ok s') ↔
        s.status ≠ .failed ∧ Log.WellPaired (s.history ++ ms)) ∧
      (∀ s', s.appendAll ms = .ok s' → s'.history = s.history ++ ms) ∧
      (∀ e, s.appendAll ms = .error e → s.perform (.appendAll ms) = s) ∧
      ∀ now k, k.session = s → (Kept.appendAll now ms).run.run k =
        match s.appendAll ms with
        | .ok s' => (.ok (), { k with session := s', updatedAt := now })
        | .error e => (.error e, k) := by
  refine ⟨?_, fun s' ok => history_of_appendAll ok, fun e refused => ?_, ?_⟩
  · rw [appendAll_isOk_iff h.consistent, Log.wellPaired_append]
    exact and_congr_right fun _ => (and_iff_right h.wellPaired).symm
  · rw [perform, refused]
    rfl
  · rintro now k rfl
    exact Kept.run_appendAll now ms k

/-- Two groups for a session that was opened again with one of two calls
answered. The first one answers the other call, replies, and calls and
answers once more. In the second one a text comes too early, behind a
result and a call that are fine. -/
theorem groups_for_reopened_batch :
    let s := (new ⟨"s"⟩).performAll
      [.append (.userText ⟨"go", by decide⟩),
       .appendAll [.toolCall (.numbered 1) ⟨"look", by decide⟩ .null,
         .toolCall (.numbered 2) ⟨"look", by decide⟩ .null],
       .append (.toolResult (.numbered 2) .ok .null), .markFailed, .resume]
    let whole : List Message :=
      [.toolResult (.numbered 1) .error .null, .assistantText ⟨"well", by decide⟩,
       .toolCall (.numbered 3) ⟨"look", by decide⟩ .null,
       .toolResult (.numbered 3) .ok .null]
    let early : List Message :=
      [.toolResult (.numbered 1) .error .null,
       .toolCall (.numbered 3) ⟨"look", by decide⟩ .null,
       .userText ⟨"next", by decide⟩]
    s.Reachable ∧ (∃ s', s.appendAll whole = .ok s' ∧ s'.history = s.history ++ whole) ∧
      ∃ e, s.appendAll early = .error e ∧
        ∀ now made changed, (Kept.appendAll now early).run.run ⟨s, made, changed⟩ =
          (.error e, ⟨s, made, changed⟩) := by
  intro s whole early
  have hs : s.Reachable := (Reachable.new ⟨"s"⟩).performAll _
  obtain ⟨hwhole, hlog, -⟩ := appendAll_iff_wellPaired hs whole
  obtain ⟨hearly, -, -, hkept⟩ := appendAll_iff_wellPaired hs early
  refine ⟨hs, ?_, ?_⟩
  · obtain ⟨s', ok⟩ := hwhole.mpr (by decide +kernel)
    exact ⟨s', ok, hlog s' ok⟩
  · have hrefused : ¬ ∃ s', s.appendAll early = .ok s' := by
      rw [hearly]
      decide +kernel
    cases happend : s.appendAll early with
    | ok s' => exact absurd ⟨s', happend⟩ hrefused
    | error e =>
      refine ⟨e, rfl, fun now made changed => ?_⟩
      rw [hkept now ⟨s, made, changed⟩ rfl, happend]

end Session

end AgentLoop
