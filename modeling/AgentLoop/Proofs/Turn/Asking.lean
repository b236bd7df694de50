/-
AgentLoop.Proofs.Turn.Asking — how the backend is asked.

* `Inquiry` — a question that was decided: the failures after which it was
  repeated and the answer that decided it, with the trace this leaves
* `Provider.Answers` — a backend that always answers in the end
* `Agent.Attempted`, `Agent.attempt_cases` — all that asking once can come
  to
* `Agent.RequestEnd`, `Agent.request_cases` — all that asking with
  repetitions can come to

The failures after which a question is repeated are kept as a list, so the
number of repetitions is its length and the budget is a bound on it. The
induction is on the repetitions that are left; that a failure which may
pass ends the question only when none is left is `RequestEnd.failed`.
-/
import AgentLoop.Proofs.Turn.Trace

namespace AgentLoop

/-! ## Decided questions -/

/-- Whether an occurrence belongs to the asking of the backend. -/
def Occurrence.isDialogue : Occurrence → Bool
  | .asked .. => true
  | .answered _ => true
  | .published (.stateChanged _ .querying) => true
  | .published (.providerRetry ..) => true
  | _ => false

/-- What asking leaves in the trace when the answer is a failure and the
question is repeated; `retry` repetitions were made before. -/
def retrySteps (id : SessionId) (view : List Message) (specs : List ToolSpec) :
    (retry : Nat) → List ProviderError → List Occurrence
  | _, [] => []
  | retry, e :: rest =>
    .asked view specs :: .answered (.error e) ::
      .published (.providerRetry id (retry + 1) e) ::
      retrySteps id view specs (retry + 1) rest

theorem isDialogue_retrySteps {id : SessionId} {view : List Message}
    {specs : List ToolSpec} {retry : Nat} {es : List ProviderError} :
    ∀ o ∈ retrySteps id view specs retry es, o.isDialogue = true := by
  induction es generalizing retry with
  | nil => simp [retrySteps]
  | cons e rest ih => simpa [retrySteps, Occurrence.isDialogue] using ih

/-- A question that was decided: what the backend was shown, the failures
after which the question was repeated, and the answer that decided it. -/
structure Inquiry where
  view : List Message
  retried : List ProviderError
  answer : ProviderResult

namespace Inquiry

/-- The trace of a decided question. -/
def occurrences (q : Inquiry) (id : SessionId) (specs : List ToolSpec) :
    List Occurrence :=
  .published (.stateChanged id .querying) ::
    (retrySteps id q.view specs 0 q.retried
      ++ [.asked q.view specs, .answered q.answer])

theorem isDialogue_occurrences (q : Inquiry) (id : SessionId) (specs : List ToolSpec) :
    ∀ o ∈ q.occurrences id specs, o.isDialogue = true := by
  intro o ho
  simp only [occurrences, List.mem_cons, List.mem_append, List.not_mem_nil, or_false] at ho
  rcases ho with rfl | hstep | rfl | rfl
  · rfl
  · exact isDialogue_retrySteps o hstep
  · rfl
  · rfl

/-- A question is repeated exactly as long as the answer is a failure that
may pass and less than `budget` repetitions were made. -/
structure Within (q : Inquiry) (budget : Nat) : Prop where
  retried_le : q.retried.length ≤ budget
  retried_retryable : ∀ e ∈ q.retried, e.retryable = true
  decided : ∀ e, q.answer = .error e → e.retryable = true →
    q.retried.length = budget

end Inquiry

/-- A backend that always answers in the end, with whatever. -/
def Provider.Answers {σ : Type} (p : Provider σ) : Prop :=
  ∀ view specs world, (p.complete view specs world).Ends

namespace Agent

variable {σ : Type} {a : Agent σ} {t t' : Turn σ}

/-- All that asking once can come to. -/
inductive Attempted (a : Agent σ) (view : List Message) (specs : List ToolSpec)
    (raised : Prop) : List Occurrence → StepResult ProviderResult → Prop
  | answered (result : ProviderResult) :
      Attempted a view specs raised
        [.asked view specs, .answered result] (.next result)
  | cancelled (os : List Occurrence) (short : os = [] ∨ os = [.asked view specs])
      (stopped : raised) : Attempted a view specs raised os (.failed .cancelled)
  | never (stuck : ¬ a.provider.Answers) :
      Attempted a view specs raised [.asked view specs] .never

theorem attempt_cases {view : List Message} {specs : List ToolSpec}
    {r : StepResult ProviderResult} (h : a.attempt view specs t = (t', r)) :
    ∃ os, t.Passes os t' ∧ Attempted a view specs (t'.clock.isRaised = true) os r := by
  unfold attempt at h
  split at h
  · rename_i hraised
    cases h
    exact ⟨[], .refl t, .cancelled [] (Or.inl rfl) hraised⟩
  · have hasked := (Turn.Passes.refl t).note (.asked view specs)
    dsimp only at h
    split at h
    · rename_i hnever
      cases h
      refine ⟨_, hasked.after _ _, .never fun hanswers => ?_⟩
      exact Activity.follow_ne_never (hanswers view specs _) _ _ _ hnever
    · rename_i hcut
      cases h
      refine ⟨_, hasked.after _ _, .cancelled _ (Or.inr rfl) ?_⟩
      exact Activity.isRaised_of_follow hcut
    · cases h
      exact ⟨_, (hasked.after _ _).note _, .answered _⟩

theorem pauseFor_spec {ms : Nat} {finished : Bool}
    (h : pauseFor ms t = (t', finished)) :
    t.Passes [] t' ∧ (finished = false → t'.clock.isRaised = true) := by
  unfold pauseFor at h
  split at h
  · cases h
    exact ⟨.refl t, by simp⟩
  · split at h
    · rename_i hraised
      cases h
      exact ⟨.refl t, fun _ => hraised⟩
    · split at h
      · cases h
        exact ⟨(Turn.Passes.refl t).after _ _, by simp⟩
      · rename_i hcut
        cases h
        exact ⟨(Turn.Passes.refl t).after _ _, fun _ => Activity.isRaised_of_follow hcut⟩
      · rename_i hnever
        exact absurd hnever (Activity.follow_ne_never (Activity.ends_pause _ _) _ _ _)

theorem backOff_spec {ms retry : Nat} {e : ProviderError} {finished : Bool}
    (h : backOff ms retry e t = (t', finished)) :
    t.Passes [.published (.providerRetry t.session.id retry e)] t' ∧
      (finished = false → t'.clock.isRaised = true) := by
  obtain ⟨hpass, hcut⟩ := pauseFor_spec h
  exact ⟨((Turn.Passes.refl t).note _).trans hpass, hcut⟩

/-- How asking ends behind its repetitions. A failure ends it if it does
not pass or if no repetition is left. -/
inductive RequestEnd (a : Agent σ) (view : List Message) (specs : List ToolSpec)
    (spent raised : Prop) : List Occurrence → StepResult ProviderReply → Prop
  | replied (reply : ProviderReply) :
      RequestEnd a view specs spent raised
        [.asked view specs, .answered (.ok reply)] (.next reply)
  | failed (e : ProviderError) (final : e.retryable = true → spent) :
      RequestEnd a view specs spent raised
        [.asked view specs, .answered (.error e)] (.failed (.provider e))
  | cancelled (os : List Occurrence) (short : os = [] ∨ os = [.asked view specs])
      (stopped : raised) :
      RequestEnd a view specs spent raised os (.failed .cancelled)
  | never (stuck : ¬ a.provider.Answers) :
      RequestEnd a view specs spent raised [.asked view specs] .never

/-- All that asking with `left` repetitions can come to: after the answers
`es`, and after nothing else, it is repeated. -/
theorem request_cases {waits : Nat → Nat} {view : List Message}
    {specs : List ToolSpec} {left retry : Nat} {r : StepResult ProviderReply}
    (h : a.request waits view specs left retry t = (t', r)) :
    ∃ es os, es.length ≤ left ∧ (∀ e ∈ es, e.retryable = true) ∧
      t.Passes (retrySteps t.session.id view specs retry es ++ os) t' ∧
      RequestEnd a view specs (es.length = left) (t'.clock.isRaised = true) os r := by
  induction left generalizing retry t with
  | zero =>
    rw [request] at h
    cases hattempt : a.attempt view specs t with | mk t₁ r₁
    rw [hattempt] at h
    obtain ⟨os, hpass, hcase⟩ := attempt_cases hattempt
    refine ⟨[], os, Nat.le_refl 0, by simp, ?_⟩
    cases hcase with
    | never stuck =>
      cases h
      exact ⟨hpass, .never stuck⟩
    | cancelled os short stopped =>
      cases h
      exact ⟨hpass, .cancelled os short stopped⟩
    | answered result =>
      cases result with
      | ok reply =>
        cases h
        exact ⟨hpass, .replied reply⟩
      | error e =>
        cases h
        exact ⟨hpass, .failed e fun _ => rfl⟩
  | succ left ih =>
    rw [request] at h
    cases hattempt : a.attempt view specs t with | mk t₁ r₁
    rw [hattempt] at h
    obtain ⟨os, hpass, hcase⟩ := attempt_cases hattempt
    cases hcase with
    | never stuck =>
      cases h
      exact ⟨[], _, by simp, by simp, hpass, .never stuck⟩
    | cancelled os short stopped =>
      cases h
      exact ⟨[], os, by simp, by simp, hpass, .cancelled os short stopped⟩
    | answered result =>
      cases result with
      | ok reply =>
        cases h
        exact ⟨[], _, by simp, by simp, hpass, .replied reply⟩
      | error e =>
        dsimp only at h
        split at h
        · rename_i hretry
          cases hback : backOff (waits (retry + 1)) (retry + 1) e t₁ with
          | mk t₂ finished
          rw [hback] at h
          obtain ⟨hpass₂, hcut⟩ := backOff_spec hback
          have hstep := hpass.trans hpass₂
          rw [hpass.session] at hstep
          cases finished with
          | false =>
            cases h
            refine ⟨[e], [], by simp, by simpa using hretry, ?_,
              .cancelled [] (Or.inl rfl) (hcut rfl)⟩
            simpa [retrySteps] using hstep
          | true =>
            obtain ⟨es, os, hle, hall, hrest, hend⟩ := ih h
            refine ⟨e :: es, os, by simpa using hle, ?_, ?_, ?_⟩
            · simpa using ⟨hretry, hall⟩
            · rw [hstep.session] at hrest
              simpa [retrySteps] using hstep.trans hrest
            · simpa using hend
        · rename_i hfinal
          cases h
          exact ⟨[], _, by simp, by simp, hpass, .failed e fun hr => absurd hr hfinal⟩

end Agent

end AgentLoop
