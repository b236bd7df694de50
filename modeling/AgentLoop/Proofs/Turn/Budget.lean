/-
AgentLoop.Proofs.Turn.Budget — how often the backend is asked in a turn.

* `Inquiry.CallsTools` — a question that was decided by a batch the turn
  goes on with
* `Decides` — the outcome that any other answer makes of a turn
* `Rounds.dialogue`, `Stop.decided` — the questions of a turn one after
  the other, and what the last one makes of it
* `Accounted` — a list of questions is all that a turn asked
* `Explained` — such a list explains how the turn ended
* `turn_budget` — a turn ends, and there is such a list

The dialogue of a turn is all of its trace that belongs to questions. It
is exactly the decided questions, each in full, so any count over it is a
sum over the questions.
-/
import AgentLoop.Proofs.Turn.Rejection

namespace AgentLoop

/-! ## Counting -/

/-- Whether an occurrence is a request to the backend. -/
def Occurrence.isAsk : Occurrence → Bool
  | .asked .. => true
  | _ => false

/-- Whether an occurrence is the beginning of a question. -/
def Occurrence.isQuerying : Occurrence → Bool
  | .published (.stateChanged _ .querying) => true
  | _ => false

/-- What of a trace belongs to questions. -/
def dialogueOf (os : List Occurrence) : List Occurrence := os.filter Occurrence.isDialogue

@[simp] theorem dialogueOf_append (os os' : List Occurrence) :
    dialogueOf (os ++ os') = dialogueOf os ++ dialogueOf os' := by
  simp [dialogueOf]

theorem dialogueOf_eq_self {os : List Occurrence} (h : ∀ o ∈ os, o.isDialogue = true) :
    dialogueOf os = os := List.filter_eq_self.mpr h

theorem dialogueOf_eq_nil {os : List Occurrence} (h : ∀ o ∈ os, o.isDialogue = false) :
    dialogueOf os = [] := by
  rw [dialogueOf, List.filter_eq_nil_iff]
  intro o ho
  rw [h o ho]
  simp

theorem countP_dialogue {p : Occurrence → Bool} (hp : ∀ o, p o = true → o.isDialogue = true)
    (os : List Occurrence) : (dialogueOf os).countP p = os.countP p := by
  rw [dialogueOf, List.countP_filter]
  apply List.countP_congr
  intro o _
  rw [Bool.and_eq_true]
  exact ⟨And.left, fun ho => ⟨ho, hp o ho⟩⟩

theorem Occurrence.dialogue_of_ask {o : Occurrence} (h : o.isAsk = true) :
    o.isDialogue = true := by
  cases o <;> first | rfl | cases h

theorem Occurrence.dialogue_of_querying {o : Occurrence} (h : o.isQuerying = true) :
    o.isDialogue = true := by
  cases o with
  | published e =>
    cases e with
    | stateChanged id state => cases state <;> first | rfl | cases h
    | _ => cases h
  | _ => cases h

theorem countP_isAsk_retrySteps (id : SessionId) (view : List Message)
    (specs : List ToolSpec) (retry : Nat) (es : List ProviderError) :
    (retrySteps id view specs retry es).countP Occurrence.isAsk = es.length := by
  induction es generalizing retry with
  | nil => rfl
  | cons e rest ih =>
    simp [retrySteps, List.countP_cons, Occurrence.isAsk, ih]

theorem countP_isQuerying_retrySteps (id : SessionId) (view : List Message)
    (specs : List ToolSpec) (retry : Nat) (es : List ProviderError) :
    (retrySteps id view specs retry es).countP Occurrence.isQuerying = 0 := by
  induction es generalizing retry with
  | nil => rfl
  | cons e rest ih =>
    simp [retrySteps, Occurrence.isQuerying, ih]

namespace Inquiry

/-- A question is one request more than it was repeated. -/
theorem countP_isAsk (q : Inquiry) (id : SessionId) (specs : List ToolSpec) :
    (q.occurrences id specs).countP Occurrence.isAsk = q.retried.length + 1 := by
  simp [occurrences, List.countP_cons, countP_isAsk_retrySteps, Occurrence.isAsk]

theorem countP_isQuerying (q : Inquiry) (id : SessionId) (specs : List ToolSpec) :
    (q.occurrences id specs).countP Occurrence.isQuerying = 1 := by
  simp [occurrences, List.countP_cons, countP_isQuerying_retrySteps, Occurrence.isQuerying]

end Inquiry

/-- Questions within a budget of `retries` repetitions each take at most
`retries + 1` requests each. -/
theorem countP_isAsk_le {qs : List Inquiry} {retries : Nat} (id : SessionId)
    (specs : List ToolSpec) (h : ∀ q ∈ qs, q.Within retries) :
    (qs.flatMap fun q => q.occurrences id specs).countP Occurrence.isAsk ≤
      qs.length * (retries + 1) := by
  induction qs with
  | nil => simp
  | cons q rest ih =>
    have hfirst := (h q (by simp)).retried_le
    have hrest := ih fun q hq => h q (List.mem_cons_of_mem _ hq)
    rw [List.flatMap_cons, List.countP_append, q.countP_isAsk, List.length_cons,
      Nat.succ_mul]
    omega

theorem countP_isQuerying_eq (qs : List Inquiry) (id : SessionId) (specs : List ToolSpec) :
    (qs.flatMap fun q => q.occurrences id specs).countP Occurrence.isQuerying =
      qs.length := by
  induction qs with
  | nil => rfl
  | cons q rest ih =>
    rw [List.flatMap_cons, List.countP_append, q.countP_isQuerying, ih, List.length_cons]
    omega

/-! ## What an answer makes of a turn -/

/-- A question that was decided by a batch of calls, each of which names a
tool. -/
def Inquiry.CallsTools (q : Inquiry) : Prop :=
  ∃ requested done u, q.answer = .ok (.toolCallBatch requested done u) ∧
    requested ≠ [] ∧ ∀ r ∈ requested, Text.isBlank r.toolName = false

/-- The outcome that an answer makes of a turn, if the turn does not go on
with it. -/
inductive Decides : ProviderResult → TurnOutcome → Prop
  | failure (e : ProviderError) :
      Decides (.error e) (.errored (.provider e.kind) e.display)
  | answer (text : String) (u : Option TokenUsage) (said : Text.isBlank text = false) :
      Decides (.ok (.finalAnswer text u)) (.finalAnswer text)
  | done (u : Option TokenUsage) :
      Decides (.ok (.toolCallBatch [] true u)) (.finalAnswer "")
  | blank (text : String) (u : Option TokenUsage) (message : String)
      (unsaid : Text.isBlank text = true) :
      Decides (.ok (.finalAnswer text u))
        (.errored (.provider .malformedResponse) message)
  | empty (u : Option TokenUsage) (message : String) :
      Decides (.ok (.toolCallBatch [] false u))
        (.errored (.provider .malformedResponse) message)
  | unnamed {requested : List ToolCallRequest} (done : Bool) (u : Option TokenUsage)
      (message : String) (unnamed : ∃ r ∈ requested, Text.isBlank r.toolName = true) :
      Decides (.ok (.toolCallBatch requested done u))
        (.errored (.provider .malformedResponse) message)

theorem Decides.not_callsTools {q : Inquiry} {o : TurnOutcome} (h : Decides q.answer o) :
    ¬ q.CallsTools := by
  rintro ⟨requested, done, u, hanswer, hne, hnamed⟩
  rw [hanswer] at h
  cases h with
  | done u => exact hne rfl
  | empty u message => exact hne rfl
  | unnamed done u message unnamed =>
    obtain ⟨r, hr, hblank⟩ := unnamed
    rw [hnamed r hr] at hblank
    cases hblank

theorem Decides.not_limit {answer : ProviderResult} {o : TurnOutcome}
    (h : Decides answer o) (message : String) :
    o ≠ .errored .iterationLimitExceeded message := by
  cases h <;> simp

/-- The signal was raised and ended the turn. -/
def Turn.Cancelled {σ : Type} (t : Turn σ) (o : TurnOutcome) : Prop :=
  t.clock.isRaised = true ∧ ∃ message, o = .errored .cancelled message

namespace Agent

variable {σ : Type} {a : Agent σ} {t t' : Turn σ}

/-! ## Rounds -/

theorem Round.callsTools {q : Inquiry} {b : Block} (h : Round a t q b t') :
    q.CallsTools := by
  obtain ⟨done, u, hanswer⟩ := h.answer
  exact ⟨b.requested, done, u, hanswer, h.wellFormed.nonempty, h.named⟩

theorem Rounds.dialogue {rs : List (Inquiry × Block)} (h : Rounds a t rs t') :
    dialogueOf t'.trace = dialogueOf t.trace ++
      (rs.map (·.1)).flatMap fun q => q.occurrences t.session.id a.tools.describeAll := by
  induction h with
  | nil t => simp
  | cons first rest ih =>
    obtain ⟨os, htrace, hos⟩ := first.trace_split
    rw [ih, htrace, first.id, dialogueOf_append, dialogueOf_append, dialogueOf_eq_nil hos,
      dialogueOf_eq_self (Inquiry.isDialogue_occurrences _ _ _)]
    simp

theorem Rounds.inquiries {rs : List (Inquiry × Block)} (h : Rounds a t rs t') :
    ∀ q ∈ rs.map (·.1), q.Within a.settings.retry.maxRetries ∧ q.CallsTools := by
  induction h with
  | nil t => simp
  | cons first rest ih =>
    intro q hq
    rcases List.mem_cons.mp hq with rfl | hq
    · exact ⟨first.within, first.callsTools⟩
    · exact ih q hq

/-! ## The stop -/

/-- From `t` to `t'` one more question was decided, by an answer that makes
this outcome, unless the session refused the calls of the answer. -/
structure Decided (a : Agent σ) (t : Turn σ) (q : Inquiry) (o : TurnOutcome)
    (t' : Turn σ) : Prop where
  within : q.Within a.settings.retry.maxRetries
  decides : Decides q.answer o ∨ ∃ error, .refused error ∈ t'.trace
  dialogue : dialogueOf t'.trace =
    dialogueOf t.trace ++ q.occurrences t.session.id a.tools.describeAll

/-- A question of a turn that fails without being cancelled was decided. -/
theorem Queried.decided_of_failed {e : AgentError} (h : Queried a t t' (.failed e))
    (hlive : ¬ t'.Cancelled (.ofError e)) :
    ∃ q, Decided a t q (.ofError e) t' := by
  cases h with
  | cancelled es os short stopped passes => exact absurd ⟨stopped, _, rfl⟩ hlive
  | @settled t₁ _ _ q os view within passes settled =>
    have hasked : dialogueOf t₁.trace =
        dialogueOf t.trace ++ q.occurrences t.session.id a.tools.describeAll := by
      rw [passes.trace, dialogueOf_append, dialogueOf_eq_self (q.isDialogue_occurrences _ _)]
    refine ⟨q, ?_⟩
    generalize hanswer : q.answer = answer at settled
    cases settled with
    | failure e => exact ⟨within, Or.inl (hanswer ▸ .failure e), hasked⟩
    | blank text u unsaid =>
      refine ⟨within, Or.inl (hanswer ▸ .blank text u _ unsaid), ?_⟩
      rw [Turn.trace_count, hasked]
    | empty u =>
      refine ⟨within, Or.inl (hanswer ▸ .empty u _), ?_⟩
      rw [Turn.trace_count, hasked]
    | cancelled done u nonempty stopped =>
      exact absurd ⟨(Turn.clock_count t₁ u).symm ▸ stopped, _, rfl⟩ hlive
    | unnamed done u e unnamed assigns passes' =>
      refine ⟨within, Or.inl (hanswer ▸ .unnamed done u _ unnamed), ?_⟩
      have hnone := dialogueOf_eq_nil fun o ho =>
        Occurrence.not_dialogue_of_assignment (assigns o ho)
      rw [passes'.trace, Turn.trace_count, dialogueOf_append, hasked, hnone, List.append_nil]
    | refused done u e nonempty assigns prepared refused passes' =>
      refine ⟨within, Or.inr ⟨e, by rw [passes'.trace]; simp⟩, ?_⟩
      have hnone := dialogueOf_eq_nil fun o ho =>
        Occurrence.not_dialogue_of_assignment (assigns o ho)
      rw [passes'.trace, Turn.trace_count, dialogueOf_append, hasked, dialogueOf_append, hnone]
      show _ ++ ([] ++ []) = _
      rw [List.append_nil, List.append_nil]

theorem Finished.decided {q : Inquiry} {text : Option String}
    (h : Finished a t q text t') : Decided a t q (.finalAnswer (text.getD "")) t' := by
  refine ⟨h.within, Or.inl ?_, ?_⟩
  · rcases h.answer with ⟨answer, u, rfl, hsaid, hanswer⟩ | ⟨u, rfl, hanswer⟩
    · rw [hanswer]
      exact .answer answer u hsaid
    · rw [hanswer]
      exact .done u
  · rw [h.trace, dialogueOf_append, dialogueOf_eq_self (q.isDialogue_occurrences _ _)]

/-- What follows a question and belongs to no other one changes nothing. -/
theorem Decided.further {q : Inquiry} {o : TurnOutcome} {t'' : Turn σ}
    {os : List Occurrence} (h : Decided a t q o t') (htrace : t''.trace = t'.trace ++ os)
    (hos : ∀ o ∈ os, o.isDialogue = false) : Decided a t q o t'' := by
  refine ⟨h.within, h.decides.imp id ?_, ?_⟩
  · rintro ⟨error, hmem⟩
    rw [htrace]
    exact ⟨error, List.mem_append_left _ hmem⟩
  · rw [htrace, dialogueOf_append, dialogueOf_eq_nil hos, List.append_nil, h.dialogue]

theorem Decided.fail {q : Inquiry} {o : TurnOutcome} (h : Decided a t q o t')
    (e : AgentError) : Decided a t q o (t'.fail e).1 :=
  h.further (Turn.trace_fail t' e) (by simp [Occurrence.isDialogue])

theorem Decided.complete {q : Inquiry} {o : TurnOutcome} (h : Decided a t q o t')
    (text : String) : Decided a t q o (t'.complete text).1 :=
  h.further (Turn.trace_complete t' text) (by simp [Occurrence.isDialogue])

theorem dialogueOf_fail (t : Turn σ) (e : AgentError) :
    dialogueOf (t.fail e).1.trace = dialogueOf t.trace := by
  rw [Turn.trace_fail, dialogueOf_append]
  show dialogueOf t.trace ++ [] = _
  rw [List.append_nil]

/-- The loop stops if the backend answers in the end and the tools end. -/
theorem Stop.ends {left : Nat} {e : Ended σ} (h : Stop a left t e)
    (hprovider : a.provider.Answers) (htools : a.tools.Ends a.settings.toolTimeoutMs) :
    ∃ o, e.2 = some o := by
  cases h with
  | unanswered queried =>
    cases queried with
    | never es stuck passes => exact absurd hprovider stuck
    | settled q os view within passes settled =>
      generalize q.answer = answer at settled
      cases settled
  | stuck queried executed =>
    cases executed with
    | never works stuck => exact absurd htools stuck
  | _ => exact ⟨_, rfl⟩

/-- Unless the turn is cancelled, the loop stops because no question is
left, or with one more question that an answer decided. -/
theorem Stop.decided {left : Nat} {e : Ended σ} {o : TurnOutcome} (h : Stop a left t e)
    (hend : e.2 = some o) (hlive : ¬ e.1.Cancelled o) (hquiet : t.session.Quiet) :
    (left = 0 ∧ dialogueOf e.1.trace = dialogueOf t.trace ∧
        ∃ message, o = .errored .iterationLimitExceeded message) ∨
      0 < left ∧ ∃ q, Decided a t q o e.1 := by
  cases h with
  | cancelled stopped =>
    cases hend
    exact absurd ⟨stopped, _, rfl⟩ hlive
  | exhausted =>
    cases hend
    exact Or.inl ⟨rfl, dialogueOf_fail t _, _, rfl⟩
  | unanswered queried => cases hend
  | @failed left _ t₁ e queried =>
    cases hend
    obtain ⟨q, hq⟩ := queried.decided_of_failed hlive
    exact Or.inr ⟨Nat.succ_pos left, q, hq.fail e⟩
  | @finished left _ t₁ text queried =>
    refine Or.inr ⟨Nat.succ_pos left, ?_⟩
    obtain ⟨q, hfinished⟩ := queried.finished
    have hq := hfinished.decided
    cases text with
    | none =>
      cases hend
      exact ⟨q, hq.complete ""⟩
    | some text =>
      obtain ⟨s, ok, hfinish⟩ := finish_some (hfinished.quiet hquiet) hfinished.said
      rw [ended, hfinish] at hend ⊢
      cases hend
      have hrecorded : Decided a t q (.finalAnswer text)
          (({ t₁ with session := s } : Turn σ).note
            (.recorded [.assistantText ⟨text, hfinished.said⟩])) :=
        hq.further (Turn.trace_note _ _) (by simp [Occurrence.isDialogue])
      exact ⟨q, hrecorded.complete text⟩
  | stuck queried executed => cases hend
  | @abandoned left _ t₁ t₂ calls e queried executed =>
    obtain ⟨q, requested, messages, hissued⟩ := queried.issued
    obtain ⟨-, hkind⟩ := executed.calm (hissued.waits hquiet)
    cases executed with
    | cancelled works stopped =>
      cases hend
      exact absurd ⟨stopped, _, rfl⟩ hlive
    | refused results e each works refused => exact absurd rfl (hkind _ rfl)

/-! ## A whole turn -/

/-- The questions `qs` account for the requests of a turn.

They are its whole dialogue with the backend, each with all its requests,
which show the same history and the same tools. Each question is repeated
just as long as its answers are failures that may pass and its own
repetitions are not used up. -/
structure Accounted (a : Agent σ) (s : Session) (t : Turn σ) (qs : List Inquiry) :
    Prop where
  dialogue : dialogueOf t.trace =
    qs.flatMap fun q => q.occurrences s.id a.tools.describeAll
  within : ∀ q ∈ qs, q.Within a.settings.retry.maxRetries
  queries : t.trace.countP Occurrence.isQuerying = qs.length
  queries_le : qs.length ≤ a.settings.maxIterations
  asks_le : t.trace.countP Occurrence.isAsk ≤
    a.settings.maxIterations * (a.settings.retry.maxRetries + 1)

/-- The questions `qs` explain the outcome of a turn.

Every question but the last one is decided by calls that the turn goes on
with; so is the last one if the turn is out of questions, and otherwise its
answer decides the outcome. -/
structure Explained (a : Agent σ) (o : TurnOutcome) (qs : List Inquiry) : Prop where
  decided : (∀ q ∈ qs, q.CallsTools) ∧ qs.length = a.settings.maxIterations ∨
    ∃ before last, qs = before ++ [last] ∧ (∀ q ∈ before, q.CallsTools) ∧
      ¬ last.CallsTools ∧ Decides last.answer o
  limit_iff : (∃ message, o = .errored .iterationLimitExceeded message) ↔
    qs.length = a.settings.maxIterations ∧ ∀ q ∈ qs, q.CallsTools

theorem accounted_of_dialogue {s : Session} {qs : List Inquiry}
    (hdialogue : dialogueOf t.trace =
      qs.flatMap fun q => q.occurrences s.id a.tools.describeAll)
    (hwithin : ∀ q ∈ qs, q.Within a.settings.retry.maxRetries)
    (hlength : qs.length ≤ a.settings.maxIterations) : Accounted a s t qs := by
  refine ⟨hdialogue, hwithin, ?_, hlength, ?_⟩
  · rw [← countP_dialogue fun _ => Occurrence.dialogue_of_querying, hdialogue]
    exact countP_isQuerying_eq qs _ _
  · rw [← countP_dialogue fun _ => Occurrence.dialogue_of_ask, hdialogue]
    exact Nat.le_trans (countP_isAsk_le _ _ hwithin) (Nat.mul_le_mul_right _ hlength)

theorem dialogueOf_opened {s : Session} {c : Clock} {w : σ} {r0 : List Message}
    (h : Opened s (opening s c w) r0 t) : dialogueOf t.trace = [] := by
  obtain ⟨os, htrace, hos⟩ := h.trace
  have hnone := dialogueOf_eq_nil fun o ho => Occurrence.not_dialogue_of_toolWork (hos o ho)
  rw [htrace, trace_opening, dialogueOf_append, hnone]
  rfl

/-- A turn that is out of questions. -/
theorem explained_of_limit {o : TurnOutcome} {qs : List Inquiry}
    (hcalls : ∀ q ∈ qs, q.CallsTools) (hlength : qs.length = a.settings.maxIterations)
    (hlimit : ∃ message, o = .errored .iterationLimitExceeded message) :
    Explained a o qs where
  decided := Or.inl ⟨hcalls, hlength⟩
  limit_iff := ⟨fun _ => ⟨hlength, hcalls⟩, fun _ => hlimit⟩

/-- A turn that an answer ends. -/
theorem explained_of_decides {o : TurnOutcome} {before : List Inquiry} {last : Inquiry}
    (hcalls : ∀ q ∈ before, q.CallsTools) (hdecides : Decides last.answer o) :
    Explained a o (before ++ [last]) := by
  have hends := hdecides.not_callsTools
  refine ⟨Or.inr ⟨before, last, rfl, hcalls, hends, hdecides⟩, ?_, ?_⟩
  · rintro ⟨message, hlimit⟩
    exact absurd hlimit (hdecides.not_limit message)
  · rintro ⟨-, hall⟩
    exact absurd (hall last (by simp)) hends

/-- A turn that can begin ends, if the backend answers in the end and the
tools end. Unless the signal ended it, a list of decided questions accounts
for its requests, and explains its outcome if the fresh identifiers were not
in use. -/
theorem turn_budget (a : Agent σ) {s : Session} (c : Clock) (w : σ) (h : s.Reachable)
    (hfit : s.canBegin = true) (hprovider : a.provider.Answers)
    (htools : a.tools.Ends a.settings.toolTimeoutMs) :
    ∃ t o, a.runTurn s c w = (t, some o) ∧
      (¬ t.Cancelled o → ∃ qs, Accounted a s t qs ∧
        (MintsUnused (Log.issued s.history) t.trace → Explained a o qs)) := by
  have hcourse := runTurn_course a h c w
  have hkept := runTurn_refuses_nothing a c w h hfit
  generalize a.runTurn s c w = e at hcourse hkept
  cases hcourse with
  | rejected unfit =>
    rw [hfit] at unfit
    cases unfit
  | interrupted fit pending works stopped =>
    exact ⟨_, _, rfl, fun hlive => absurd ⟨stopped, _, rfl⟩ hlive⟩
  | stuck fit works tools => exact absurd htools tools
  | @ran r0 t₁ t₂ rs left _ fit opened rounds length stop =>
    obtain ⟨o, hend⟩ := stop.ends hprovider htools
    refine ⟨e.1, o, by rw [← hend], fun hlive => ?_⟩
    have hwithin := fun q hq => (rounds.inquiries q hq).1
    have hcalls := fun q hq => (rounds.inquiries q hq).2
    have hdialogue := rounds.dialogue
    rw [dialogueOf_opened opened, opened.id, List.nil_append] at hdialogue
    rcases stop.decided hend hlive (rounds.quiet opened.quiet) with
      ⟨rfl, hsame, hlimit⟩ | ⟨hleft, q, hq⟩
    · have hfull : (rs.map (·.1)).length = a.settings.maxIterations := by
        rw [List.length_map, ← length, Nat.add_zero]
      rw [hdialogue] at hsame
      exact ⟨_, accounted_of_dialogue hsame hwithin (Nat.le_of_eq hfull),
        fun _ => explained_of_limit hcalls hfull hlimit⟩
    · have htrace : dialogueOf e.1.trace = (rs.map (·.1) ++ [q]).flatMap
          fun q => q.occurrences s.id a.tools.describeAll := by
        rw [hq.dialogue, hdialogue, rounds.id, opened.id]
        simp
      have hall : ∀ p ∈ rs.map (·.1) ++ [q], p.Within a.settings.retry.maxRetries := by
        intro p hp
        rcases List.mem_append.mp hp with hp | hp
        · exact hwithin p hp
        · rw [List.mem_singleton.mp hp]
          exact hq.within
      have hle : (rs.map (·.1) ++ [q]).length ≤ a.settings.maxIterations := by
        rw [List.length_append, List.length_map, List.length_singleton]
        omega
      refine ⟨_, accounted_of_dialogue htrace hall hle, fun hfresh => ?_⟩
      have hnone := not_exists.mpr (hkept hfresh)
      exact explained_of_decides hcalls (hq.decides.resolve_right hnone)

/-- A turn of two questions, of which the second one is repeated once. -/
theorem budget_of_repeated_question :
    let answers := [reusingBatch, .error (.unavailable "busy"), .ok (.finalAnswer "fine" none)]
    ∃ t, (replaying answers).runTurn halfAnswered ⟨0, .absent⟩ (0, 7) =
        (t, some (.finalAnswer "fine")) ∧
      t.trace.countP Occurrence.isQuerying = 2 ∧ t.trace.countP Occurrence.isAsk = 3 ∧
      ∃ qs, Accounted (replaying answers) halfAnswered t qs ∧
        Explained (replaying answers) (.finalAnswer "fine") qs := by
  intro answers
  obtain ⟨t, o, hend, haccount⟩ := turn_budget (replaying answers) ⟨0, .absent⟩ (0, 7)
    reachable_halfAnswered (by decide +kernel) (replaying_answers _) (replaying_ends _ _)
  have ht : t = ((replaying answers).runTurn halfAnswered ⟨0, .absent⟩ (0, 7)).1 := by
    rw [hend]
  have ho : some o = ((replaying answers).runTurn halfAnswered ⟨0, .absent⟩ (0, 7)).2 := by
    rw [hend]
  have hfine : ((replaying answers).runTurn halfAnswered ⟨0, .absent⟩ (0, 7)).2 =
      some (.finalAnswer "fine") := by
    decide +kernel
  rw [hfine, Option.some.injEq] at ho
  subst ho
  have hfresh : MintsUnused (Log.issued halfAnswered.history) t.trace := by
    rw [ht]
    decide +kernel
  have hlive : ¬ t.Cancelled (.finalAnswer "fine") := by
    rintro ⟨-, message, hcancelled⟩
    cases hcancelled
  obtain ⟨qs, haccounted, hexplained⟩ := haccount hlive
  refine ⟨t, hend, ?_, ?_, qs, haccounted, hexplained hfresh⟩
  · rw [ht]
    decide +kernel
  · rw [ht]
    decide +kernel

end Agent

end AgentLoop
