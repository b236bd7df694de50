/-
AgentLoop.Proofs.Turn.Signal — what of a turn occurs before the signal is
raised, and what afterwards.

* `mark`, `Turn.marked` — what occurred, each with whether the signal was
  raised by then
* `Turn.Marks` — a stretch of a turn that leaves the session alone
* `Agent.Tried`, `Agent.attempt_tried` — the backend is asked once
* `Agent.Heard`, `Agent.request_heard` — it is asked with repetitions
* `Heard.asks` — it is asked at least once

All of this starts with the signal not raised, since that is looked up
before each request. Which of the occurrences come behind the raise then
depends only on where the clock stands at the end of a stretch.
-/
import AgentLoop.Proofs.Turn.Asking

namespace AgentLoop

/-! ## Marks -/

/-- Occurrences, each with whether the signal was raised by then. -/
def mark (raised : Bool) (os : List Occurrence) : List (Bool × Occurrence) :=
  os.map (Prod.mk raised)

@[simp] theorem mark_nil (raised : Bool) : mark raised [] = [] := rfl

@[simp] theorem mark_append (raised : Bool) (os os' : List Occurrence) :
    mark raised (os ++ os') = mark raised os ++ mark raised os' :=
  List.map_append

@[simp] theorem map_snd_mark (raised : Bool) (os : List Occurrence) :
    (mark raised os).map (·.2) = os := by
  simp [mark, Function.comp_def]

namespace Turn

variable {σ : Type} {t t' t'' : Turn σ}

/-- What occurred, in its order, each with whether the signal was raised by
then. -/
def marked (t : Turn σ) : List (Bool × Occurrence) :=
  (t.occurred.map fun p => (p.1.isRaised, p.2)).reverse

theorem trace_eq_marked (t : Turn σ) : t.trace = t.marked.map (·.2) := by
  simp [trace, marked, Function.comp_def]

theorem trace_of_marked {ms : List (Bool × Occurrence)} (h : t'.marked = t.marked ++ ms) :
    t'.trace = t.trace ++ ms.map (·.2) := by
  rw [trace_eq_marked, h, List.map_append, ← trace_eq_marked]

@[simp] theorem marked_note (t : Turn σ) (o : Occurrence) :
    (t.note o).marked = t.marked ++ mark t.clock.isRaised [o] := by
  simp [marked, note, mark]

@[simp] theorem marked_after (t : Turn σ) (clock : Clock) (world : σ) :
    (t.after clock world).marked = t.marked := rfl

@[simp] theorem marked_with_session (t : Turn σ) (s : Session) :
    ({ t with session := s } : Turn σ).marked = t.marked := rfl

@[simp] theorem marked_publish (t : Turn σ) (e : AgentEvent) :
    (t.publish e).marked = t.marked ++ mark t.clock.isRaised [.published e] :=
  marked_note t _

@[simp] theorem marked_enter (t : Turn σ) (state : LoopState) :
    (t.enter state).marked = t.marked ++
      mark t.clock.isRaised [.published (.stateChanged t.session.id state)] :=
  marked_note t _

@[simp] theorem marked_count (t : Turn σ) (u : Option TokenUsage) :
    (t.count u).marked = t.marked := by
  cases u <;> rfl

/-- From `t` to `t'` the turn leaves its session alone; what occurs on the
way is `ms`. -/
structure Marks (t : Turn σ) (ms : List (Bool × Occurrence)) (t' : Turn σ) : Prop where
  session : t'.session = t.session
  marked : t'.marked = t.marked ++ ms

namespace Marks

variable {ms ms' : List (Bool × Occurrence)}

theorem refl (t : Turn σ) : t.Marks [] t := ⟨rfl, by simp⟩

theorem trans (h : t.Marks ms t') (h' : t'.Marks ms' t'') : t.Marks (ms ++ ms') t'' := by
  refine ⟨h'.session.trans h.session, ?_⟩
  rw [h'.marked, h.marked, List.append_assoc]

theorem after (h : t.Marks ms t') (clock : Clock) (world : σ) :
    t.Marks ms (t'.after clock world) := ⟨h.session, h.marked⟩

theorem note (h : t.Marks ms t') (o : Occurrence) :
    t.Marks (ms ++ mark t'.clock.isRaised [o]) (t'.note o) := by
  refine ⟨h.session, ?_⟩
  rw [marked_note, h.marked, List.append_assoc]

theorem trace (h : t.Marks ms t') : t'.trace = t.trace ++ ms.map (·.2) :=
  trace_of_marked h.marked

end Marks

end Turn

namespace Agent

variable {σ : Type} {a : Agent σ} {t t' : Turn σ}

/-! ## Asking once -/

/-- All that asking once can come to if the signal is not raised before.
An answer is taken in even if the signal is raised by the time it is
there. -/
inductive Tried (view : List Message) (specs : List ToolSpec) (t t' : Turn σ) :
    StepResult ProviderResult → Prop
  | answered (result : ProviderResult)
      (marks : t.Marks (mark false [.asked view specs] ++
        mark t'.clock.isRaised [.answered result]) t') :
      Tried view specs t t' (.next result)
  | cut (raised : t'.clock.isRaised = true)
      (marks : t.Marks (mark false [.asked view specs]) t') :
      Tried view specs t t' (.failed .cancelled)
  | never (low : t'.clock.isRaised = false)
      (marks : t.Marks (mark false [.asked view specs]) t') :
      Tried view specs t t' .never

theorem attempt_tried {view : List Message} {specs : List ToolSpec}
    {r : StepResult ProviderResult} (low : t.clock.isRaised = false)
    (h : a.attempt view specs t = (t', r)) : Tried view specs t t' r := by
  have hasked := (Turn.Marks.refl t).note (.asked view specs)
  rw [low, List.nil_append] at hasked
  unfold attempt at h
  rw [low, if_neg Bool.false_ne_true] at h
  dsimp only at h
  split at h
  · rename_i hnever
    cases h
    exact .never (Activity.not_raised_of_never hnever) (hasked.after _ _)
  · rename_i hcut
    cases h
    exact .cut (Activity.isRaised_of_follow hcut) (hasked.after _ _)
  · cases h
    exact .answered _ ((hasked.after _ _).note _)

/-! ## Pausing -/

/-- A pause is cut short by the signal only. One that comes to its end
leaves the signal as it was. -/
theorem pauseFor_low {ms : Nat} {finished : Bool} (low : t.clock.isRaised = false)
    (h : pauseFor ms t = (t', finished)) :
    t.Marks [] t' ∧ t'.clock.isRaised = !finished := by
  unfold pauseFor at h
  split at h
  · cases h
    exact ⟨.refl t, low⟩
  · rename_i hms
    rw [low, if_neg Bool.false_ne_true] at h
    split at h
    · rename_i hready
      cases h
      refine ⟨(Turn.Marks.refl t).after _ _, ?_⟩
      simp only [Activity.pause, Activity.follow, if_neg hms] at hready
      split at hready
      · cases hready
      · cases hready
        exact low
    · rename_i hcut
      cases h
      exact ⟨(Turn.Marks.refl t).after _ _, Activity.isRaised_of_follow hcut⟩
    · rename_i hnever
      exact absurd hnever (Activity.follow_ne_never (Activity.ends_pause _ _) _ _ _)

/-- No pause follows the announcement of a repetition if the signal is
raised, unless it takes no time. -/
theorem backOff_raised {ms retry : Nat} {e : ProviderError} {finished : Bool}
    (raised : t.clock.isRaised = true) (h : backOff ms retry e t = (t', finished)) :
    t.Marks (mark true [.published (.providerRetry t.session.id retry e)]) t' ∧
      t'.clock.isRaised = true := by
  have hnoted := (Turn.Marks.refl t).note (.published (.providerRetry t.session.id retry e))
  rw [raised, List.nil_append] at hnoted
  unfold backOff pauseFor at h
  split at h
  · cases h
    exact ⟨hnoted, raised⟩
  · rw [Turn.clock_publish, raised, if_pos rfl] at h
    cases h
    exact ⟨hnoted, raised⟩

theorem backOff_low {ms retry : Nat} {e : ProviderError} {finished : Bool}
    (low : t.clock.isRaised = false) (h : backOff ms retry e t = (t', finished)) :
    t.Marks (mark false [.published (.providerRetry t.session.id retry e)]) t' ∧
      t'.clock.isRaised = !finished := by
  have hnoted := (Turn.Marks.refl t).note (.published (.providerRetry t.session.id retry e))
  rw [low, List.nil_append] at hnoted
  have hpaused := pauseFor_low (t := t.publish (.providerRetry t.session.id retry e)) low h
  refine ⟨?_, hpaused.2⟩
  simpa using hnoted.trans hpaused.1

/-! ## Asking with repetitions -/

/-- What the answer that decides a question makes of it. -/
def replyOf : ProviderResult → StepResult ProviderReply
  | .ok reply => .next reply
  | .error e => .failed (.provider e)

/-- All that asking with `left` repetitions can come to if the signal is
not raised before; `retry` repetitions were made, and `es` are the failures
after which it was repeated. -/
inductive Heard (view : List Message) (specs : List ToolSpec) (left retry : Nat)
    (t t' : Turn σ) : List ProviderError → StepResult ProviderReply → Prop
  | decided {es : List ProviderError} (answer : ProviderResult) (repeats : es.length ≤ left)
      (passing : ∀ e ∈ es, e.retryable = true)
      (final : ∀ e, answer = .error e → e.retryable = true → es.length = left)
      (marks : t.Marks (mark false (retrySteps t.session.id view specs retry es ++
        [.asked view specs]) ++ mark t'.clock.isRaised [.answered answer]) t') :
      Heard view specs left retry t t' es (replyOf answer)
  | unrepeated (es : List ProviderError) (e : ProviderError) (repeats : es.length < left)
      (passing : e.retryable = true) (raised : t'.clock.isRaised = true)
      (marks : t.Marks (mark false (retrySteps t.session.id view specs retry es ++
        [.asked view specs]) ++ mark true [.answered (.error e),
          .published (.providerRetry t.session.id (retry + es.length + 1) e)]) t') :
      Heard view specs left retry t t' (es ++ [e]) (.failed .cancelled)
  | cut {es : List ProviderError} (os : List Occurrence) (repeats : es.length ≤ left)
      (short : os = [] ∧ es ≠ [] ∨ os = [.asked view specs])
      (raised : t'.clock.isRaised = true)
      (marks : t.Marks (mark false (retrySteps t.session.id view specs retry es ++ os)) t') :
      Heard view specs left retry t t' es (.failed .cancelled)
  | never {es : List ProviderError} (repeats : es.length ≤ left)
      (low : t'.clock.isRaised = false)
      (marks : t.Marks (mark false (retrySteps t.session.id view specs retry es ++
        [.asked view specs])) t') :
      Heard view specs left retry t t' es .never

/-- One more answer after which the question is repeated. -/
theorem Heard.later {view : List Message} {specs : List ToolSpec} {left retry : Nat}
    {t₁ : Turn σ} {e : ProviderError} {es : List ProviderError}
    {r : StepResult ProviderReply} (h : Heard view specs left (retry + 1) t₁ t' es r)
    (hretry : e.retryable = true)
    (hmarks : t.Marks (mark false [.asked view specs, .answered (.error e),
      .published (.providerRetry t.session.id (retry + 1) e)]) t₁) :
    Heard view specs (left + 1) retry t t' (e :: es) r := by
  have hid := congrArg Session.id hmarks.session
  cases h with
  | decided answer repeats passing final marks =>
    refine .decided answer (by simpa using repeats) (by simpa using ⟨hretry, passing⟩) ?_ ?_
    · simpa using final
    · rw [hid] at marks
      simpa [retrySteps, mark] using hmarks.trans marks
  | unrepeated es e' repeats passing raised marks =>
    refine .unrepeated (e :: es) e' (by simpa using repeats) passing raised ?_
    have hcount : retry + (e :: es).length + 1 = retry + 1 + es.length + 1 := by
      rw [List.length_cons]
      omega
    rw [hid] at marks
    rw [hcount]
    simpa [retrySteps, mark] using hmarks.trans marks
  | cut os repeats short raised marks =>
    refine .cut os (by simpa using repeats) (short.imp (And.imp id (by simp)) id) raised ?_
    rw [hid] at marks
    simpa [retrySteps, mark] using hmarks.trans marks
  | never repeats low marks =>
    refine .never (by simpa using repeats) low ?_
    rw [hid] at marks
    simpa [retrySteps, mark] using hmarks.trans marks

theorem request_heard {waits : Nat → Nat} {view : List Message} {specs : List ToolSpec}
    {left retry : Nat} {r : StepResult ProviderReply} (low : t.clock.isRaised = false)
    (h : a.request waits view specs left retry t = (t', r)) :
    ∃ es, Heard view specs left retry t t' es r := by
  induction left generalizing retry t with
  | zero =>
    rw [request] at h
    cases hattempt : a.attempt view specs t with | mk t₁ r₁
    rw [hattempt] at h
    cases attempt_tried low hattempt with
    | never low₁ marks =>
      cases h
      exact ⟨[], .never (Nat.le_refl 0) low₁ marks⟩
    | cut raised marks =>
      cases h
      exact ⟨[], .cut _ (Nat.le_refl 0) (Or.inr rfl) raised marks⟩
    | answered result marks =>
      have hdecided : Heard view specs 0 retry t t₁ [] (replyOf result) :=
        .decided result (Nat.le_refl 0) (by simp) (fun _ _ _ => rfl) marks
      cases result <;> cases h <;> exact ⟨[], hdecided⟩
  | succ left ih =>
    rw [request] at h
    cases hattempt : a.attempt view specs t with | mk t₁ r₁
    rw [hattempt] at h
    cases attempt_tried low hattempt with
    | never low₁ marks =>
      cases h
      exact ⟨[], .never (Nat.zero_le _) low₁ marks⟩
    | cut raised marks =>
      cases h
      exact ⟨[], .cut _ (Nat.zero_le _) (Or.inr rfl) raised marks⟩
    | answered result marks =>
      cases result with
      | ok reply =>
        cases h
        exact ⟨[], .decided (.ok reply) (Nat.zero_le _) (by simp) (by simp) marks⟩
      | error e =>
        dsimp only at h
        split at h
        · rename_i hretry
          have hid := congrArg Session.id marks.session
          cases hback : backOff (waits (retry + 1)) (retry + 1) e t₁ with
          | mk t₂ finished
          rw [hback] at h
          cases hsignal : t₁.clock.isRaised with
          | true =>
            -- the backend raised the signal when it answered; if the pause takes no
            -- time, the next request notices
            obtain ⟨hmarks, hraised⟩ := backOff_raised hsignal hback
            rw [hid] at hmarks
            rw [hsignal] at marks
            have hend : (t₂, StepResult.failed .cancelled) = (t', r) := by
              cases finished with
              | false => exact h
              | true =>
                cases left <;> simpa [request, attempt, hraised] using h
            cases hend
            refine ⟨[e], .unrepeated [] e (Nat.succ_pos left) hretry hraised ?_⟩
            simpa [retrySteps, mark] using marks.trans hmarks
          | false =>
            obtain ⟨hmarks, hfinished⟩ := backOff_low hsignal hback
            rw [hid] at hmarks
            rw [hsignal] at marks
            have hstep := marks.trans hmarks
            cases finished with
            | false =>
              cases h
              refine ⟨[e], .cut [] (by simp) (Or.inl ⟨rfl, by simp⟩) hfinished ?_⟩
              simpa [retrySteps, mark] using hstep
            | true =>
              obtain ⟨es, hrest⟩ := ih hfinished h
              exact ⟨e :: es, hrest.later hretry (by simpa [mark] using hstep)⟩
        · rename_i hfinal
          cases h
          exact ⟨[], .decided (.error e) (Nat.zero_le _) (by simp)
            (by rintro _ ⟨⟩ hr; exact absurd hr hfinal) marks⟩

theorem retrySteps_asks (id : SessionId) {view : List Message} {specs : List ToolSpec}
    (retry : Nat) (es : List ProviderError) {os : List Occurrence}
    (h : os = [] ∧ es ≠ [] ∨ os = [.asked view specs]) :
    ∃ rest, retrySteps id view specs retry es ++ os = .asked view specs :: rest := by
  cases es with
  | nil =>
    rcases h with ⟨-, hne⟩ | rfl
    · exact absurd rfl hne
    · exact ⟨[], rfl⟩
  | cons e rest => exact ⟨_, rfl⟩

/-- A request is sent in any case. -/
theorem Heard.asks {view : List Message} {specs : List ToolSpec} {left retry : Nat}
    {es : List ProviderError} {r : StepResult ProviderReply}
    (h : Heard view specs left retry t t' es r) :
    ∃ os, t'.trace = t.trace ++ .asked view specs :: os := by
  cases h with
  | decided answer repeats passing final marks =>
    obtain ⟨rest, hrest⟩ := retrySteps_asks t.session.id retry es (Or.inr rfl)
    rw [marks.trace, List.map_append, map_snd_mark, hrest]
    exact ⟨_, rfl⟩
  | unrepeated es e repeats passing raised marks =>
    obtain ⟨rest, hrest⟩ := retrySteps_asks t.session.id retry es (Or.inr rfl)
    rw [marks.trace, List.map_append, map_snd_mark, hrest]
    exact ⟨_, rfl⟩
  | cut os repeats short raised marks =>
    obtain ⟨rest, hrest⟩ := retrySteps_asks t.session.id retry es short
    rw [marks.trace, map_snd_mark, hrest]
    exact ⟨rest, rfl⟩
  | never repeats low marks =>
    obtain ⟨rest, hrest⟩ := retrySteps_asks t.session.id retry es (Or.inr rfl)
    rw [marks.trace, map_snd_mark, hrest]
    exact ⟨rest, rfl⟩

end Agent

end AgentLoop
