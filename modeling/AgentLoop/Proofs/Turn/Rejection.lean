/-
AgentLoop.Proofs.Turn.Rejection — a turn keeps the rules of its session.

* `Turn.Calm` — a stretch of a turn in which the session refuses nothing
* `Queried.calm`, `Executed.calm`, `Rounds.calm`, `Stop.calm` — every step
  of a turn is such a stretch, and no error of a step comes from a refusal
* `runTurn_refuses_nothing` — the session refuses no message of a turn that
  can begin
* `rejected_is_noop` — a turn that is turned down leaves all as it was
* `invariantViolation_iff_unfit` — a turn ends with a broken rule exactly
  if it could not begin

The one assumption is that a fresh identifier is not in use when it is
given out. It is carried from step to step as a bound on the identifiers
of the log: each of them was there at the start or was given out in this
turn.
-/
import AgentLoop.Proofs.Turn.Course

namespace AgentLoop

/-! ## Occurrences -/

/-- Whether an occurrence is a refusal of the session. -/
def Occurrence.isRefusal : Occurrence → Bool
  | .refused _ => true
  | _ => false

namespace Occurrence

variable {o : Occurrence}

theorem not_refusal_of_dialogue (h : o.isDialogue = true) : o.isRefusal = false := by
  cases o <;> first | rfl | cases h

theorem not_refusal_of_assignment (h : o.isAssignment = true) : o.isRefusal = false := by
  cases o <;> first | rfl | cases h

theorem not_refusal_of_toolWork (h : o.isToolWork = true) : o.isRefusal = false := by
  cases o <;> first | rfl | cases h

end Occurrence

namespace Turn

variable {σ : Type} {t t' t'' : Turn σ}

/-- From `t` to `t'` the session refuses nothing. -/
def Calm (t t' : Turn σ) : Prop :=
  ∃ os, t'.trace = t.trace ++ os ∧ ∀ o ∈ os, o.isRefusal = false

namespace Calm

theorem refl (t : Turn σ) : t.Calm t := ⟨[], by simp, by simp⟩

theorem trans (h : t.Calm t') (h' : t'.Calm t'') : t.Calm t'' := by
  obtain ⟨os, htrace, hos⟩ := h
  obtain ⟨os', htrace', hos'⟩ := h'
  refine ⟨os ++ os', by rw [htrace', htrace, List.append_assoc], ?_⟩
  intro o ho
  rcases List.mem_append.mp ho with ho | ho
  · exact hos o ho
  · exact hos' o ho

theorem of_dialogue {os : List Occurrence} (htrace : t'.trace = t.trace ++ os)
    (hos : ∀ o ∈ os, o.isDialogue = true) : t.Calm t' :=
  ⟨os, htrace, fun o ho => Occurrence.not_refusal_of_dialogue (hos o ho)⟩

theorem of_toolWork {os : List Occurrence} (htrace : t'.trace = t.trace ++ os)
    (hos : ∀ o ∈ os, o.isToolWork = true) : t.Calm t' :=
  ⟨os, htrace, fun o ho => Occurrence.not_refusal_of_toolWork (hos o ho)⟩

theorem of_works (h : t.Works t') : t.Calm t' := by
  obtain ⟨os, hos, hpass⟩ := h
  exact of_toolWork hpass.trace hos

theorem fail (h : t.Calm t') (e : AgentError) : t.Calm (t'.fail e).1 :=
  h.trans ⟨_, trace_fail t' e, by simp [Occurrence.isRefusal]⟩

theorem complete (h : t.Calm t') (text : String) : t.Calm (t'.complete text).1 :=
  h.trans ⟨_, trace_complete t' text, by simp [Occurrence.isRefusal]⟩

/-- The start of a calm turn saw none of its identifiers in use. -/
theorem minted {used : List CallId} (h : t.Calm t') (hfresh : MintsUnused used t'.trace) :
    MintsUnused used t.trace := by
  obtain ⟨os, htrace, -⟩ := h
  rw [htrace, mintsUnused_append] at hfresh
  exact hfresh.1

end Calm

/-- Every identifier of the log was in use at the start or was given to a
call of the turn. -/
def Accounts (used : List CallId) (t : Turn σ) : Prop :=
  ∀ id ∈ Log.issued t.session.history, id ∈ used ++ assignedIds t.trace

end Turn

namespace Agent

variable {σ : Type} {a : Agent σ} {t t' : Turn σ} {used : List CallId}

/-! ## Steps -/

theorem isDialogue_undecided {es : List ProviderError} {os : List Occurrence}
    (short : os = [] ∨ os = [.asked (a.view t.session) a.tools.describeAll]) :
    ∀ o ∈ a.undecided t es os, o.isDialogue = true := by
  intro o ho
  rcases List.mem_cons.mp ho with rfl | ho
  · rfl
  rcases List.mem_append.mp ho with ho | ho
  · exact isDialogue_retrySteps o ho
  rcases short with rfl | rfl
  · cases ho
  · rw [List.mem_singleton.mp ho]
    rfl

/-- The messages of a prepared batch are not refused by a quiet session. -/
theorem Prepared.not_refused {s : Session} {requested calls : List ToolCallRequest}
    {os : List Occurrence} {messages : List Message}
    (h : Prepared s [] requested os calls messages) (hquiet : s.Quiet)
    (hknown : ∀ id ∈ Log.issued s.history, id ∈ used) (hfresh : MintsUnused used os)
    (e : AppendError) : s.appendAll messages ≠ .error e := by
  have hhas : ∀ id, s.hasCall id = true ↔ id ∈ Log.issued s.history := fun id =>
    hquiet.reachable.consistent.ledger.find?_isSome_iff
  obtain ⟨hnodup, hnew⟩ := h.distinct used hfresh
    (fun id hid => hknown id ((hhas id).mp hid)) (by simp)
  have hunused : ∀ id ∈ Log.issued messages, id ∉ Log.issued s.history := by
    intro id hid hlog
    rw [h.issued_eq] at hid
    have hcalled := (hhas id).mpr hlog
    rw [(hnew id hid).1] at hcalled
    cases hcalled
  obtain ⟨s', ok⟩ := hquiet.records_calls h.isSome_issues?
    (h.issued_eq ▸ hnodup) hunused
  rw [ok]
  simp

theorem Queried.calm {r : StepResult Verdict} (h : Queried a t t' r)
    (hquiet : t.session.Quiet) (hknown : t.Accounts used)
    (hfresh : MintsUnused used t'.trace) :
    t.Calm t' ∧ ∀ e, r = .failed e → e.turnKind ≠ .invariantViolation := by
  cases h with
  | never es stuck passes =>
    exact ⟨.of_dialogue passes.trace (isDialogue_undecided (Or.inr rfl)), by simp⟩
  | cancelled es os short stopped passes =>
    refine ⟨.of_dialogue passes.trace (isDialogue_undecided short), ?_⟩
    rintro e ⟨⟩
    simp [AgentError.turnKind]
  | @settled t₁ _ _ q os view within passes settled =>
    have hasked : t.Calm t₁ := .of_dialogue passes.trace (q.isDialogue_occurrences _ _)
    have hcount : ∀ u, t.Calm (t₁.count u) := fun u =>
      hasked.trans ⟨[], by simp, by simp⟩
    generalize q.answer = answer at settled
    cases settled with
    | failure e =>
      refine ⟨hasked, ?_⟩
      rintro e ⟨⟩
      simp [AgentError.turnKind]
    | answer text u said => exact ⟨hcount u, by simp⟩
    | blank text u unsaid =>
      refine ⟨hcount u, ?_⟩
      rintro e ⟨⟩
      simp [AgentError.turnKind]
    | done u => exact ⟨hcount u, by simp⟩
    | empty u =>
      refine ⟨hcount u, ?_⟩
      rintro e ⟨⟩
      simp [AgentError.turnKind]
    | cancelled done u nonempty stopped =>
      refine ⟨hcount u, ?_⟩
      rintro e ⟨⟩
      simp [AgentError.turnKind]
    | unnamed done u e unnamed assigns passes' =>
      refine ⟨(hcount u).trans ⟨_, passes'.trace, ?_⟩, ?_⟩
      · exact fun o ho => Occurrence.not_refusal_of_assignment (assigns o ho)
      · rintro e ⟨⟩
        simp [AgentError.turnKind]
    | @refused requested done u os _ calls messages e nonempty assigns prepared refused passes' =>
      rw [passes'.trace, Turn.trace_count, passes.trace, mintsUnused_append] at hfresh
      have hassigned := (mintsUnused_append.mp hfresh.2).1
      refine absurd refused (prepared.not_refused ?_ ?_ hassigned e)
      · rw [← passes.session] at hquiet
        exact Turn.quiet_count hquiet u
      · intro id hid
        rw [Turn.history_count, passes.session] at hid
        rw [assignedIds_append, ← List.append_assoc]
        exact List.mem_append_left _ (hknown id hid)
    | recorded done u nonempty assigns prepared recorded trace =>
      refine ⟨hasked.trans ⟨_, trace, ?_⟩, by simp⟩
      intro o ho
      rcases List.mem_append.mp ho with ho | ho
      · exact Occurrence.not_refusal_of_assignment (assigns o ho)
      · rw [List.mem_singleton.mp ho]
        rfl

theorem Executed.calm {calls : List ToolCallRequest} {r : StepResult Unit}
    (h : Executed a calls t t' r) (hwaits : t.session.Waits (calls.map (·.callId))) :
    t.Calm t' ∧ ∀ e, r = .failed e → e.turnKind ≠ .invariantViolation := by
  cases h with
  | never works stuck => exact ⟨.of_works works, by simp⟩
  | cancelled works stopped =>
    refine ⟨.of_works works, ?_⟩
    rintro e ⟨⟩
    simp [AgentError.turnKind]
  | refused results e each works refused =>
    obtain ⟨s, ok, -⟩ := hwaits.records_results (isSome_answers?_toMessage results)
      ((answered_toMessage results).trans each)
    rw [ok] at refused
    cases refused
  | recorded results each works recorded =>
    refine ⟨(Turn.Calm.of_works works).trans ?_, by simp⟩
    exact ⟨_, Turn.trace_note _ _, by simp [Occurrence.isRefusal]⟩

/-! ## The loop -/

theorem Round.calm {q : Inquiry} {b : Block} (h : Round a t q b t') : t.Calm t' := by
  obtain ⟨os, os', htrace, hos, hos', -⟩ := h.trace
  refine ⟨_, htrace, ?_⟩
  intro o ho
  rcases List.mem_append.mp ho with ho | ho
  · exact Occurrence.not_refusal_of_dialogue (q.isDialogue_occurrences _ _ o ho)
  rcases List.mem_append.mp ho with ho | ho
  · exact Occurrence.not_refusal_of_assignment (hos o ho)
  · exact Occurrence.not_refusal_of_toolWork (hos' o ho)

theorem Round.accounts {q : Inquiry} {b : Block} (h : Round a t q b t')
    (hknown : t.Accounts used) : t'.Accounts used := by
  obtain ⟨os, os', htrace, hos, hos', hassigned⟩ := h.trace
  intro id hid
  rw [h.history, Log.issued_append, List.mem_append] at hid
  rw [htrace]
  simp only [assignedIds_append, hassigned]
  rcases hid with hid | hid
  · have hused := hknown id hid
    rw [List.mem_append] at hused ⊢
    exact hused.imp_right fun hmem => List.mem_append_left _ hmem
  · simp [hid]

theorem Rounds.calm {rs : List (Inquiry × Block)} (h : Rounds a t rs t') : t.Calm t' := by
  induction h with
  | nil t => exact .refl t
  | cons first rest ih => exact first.calm.trans ih

theorem Rounds.accounts {rs : List (Inquiry × Block)} (h : Rounds a t rs t')
    (hknown : t.Accounts used) : t'.Accounts used := by
  induction h with
  | nil t => exact hknown
  | cons first rest ih => exact ih (first.accounts hknown)

theorem Opened.accounts {s : Session} {r0 : List Message} (h : Opened s t r0 t') :
    t'.Accounts (Log.issued s.history) := by
  intro id hid
  rw [h.history, Log.issued_append, h.issued_results, List.append_nil] at hid
  exact List.mem_append_left _ hid

/-- A turn that fails for any other reason than a broken rule. -/
theorem calm_fail {e : AgentError} (h : t.Calm t') (hkind : e.turnKind ≠ .invariantViolation) :
    t.Calm (ended (t'.fail e)).1 ∧ ∀ message,
      (ended (t'.fail e)).2 ≠ some (.errored .invariantViolation message) := by
  refine ⟨h.fail e, ?_⟩
  rintro message hend
  simp only [ended, Turn.snd_fail, TurnOutcome.ofError, Option.some.injEq,
    TurnOutcome.errored.injEq] at hend
  exact hkind hend.1

theorem Stop.calm {left : Nat} {e : Ended σ} (h : Stop a left t e)
    (hquiet : t.session.Quiet) (hknown : t.Accounts used)
    (hfresh : MintsUnused used e.1.trace) :
    t.Calm e.1 ∧ ∀ message, e.2 ≠ some (.errored .invariantViolation message) := by
  cases h with
  | cancelled stopped => exact calm_fail (.refl t) (by simp [AgentError.turnKind])
  | exhausted => exact calm_fail (.refl t) (by simp [AgentError.turnKind])
  | unanswered queried =>
    exact ⟨(queried.calm hquiet hknown hfresh).1, by simp⟩
  | @failed left _ t₁ e queried =>
    have hfresh := ((Turn.Calm.refl t₁).fail e).minted hfresh
    obtain ⟨hcalm, hkind⟩ := queried.calm hquiet hknown hfresh
    exact calm_fail hcalm (hkind e rfl)
  | @finished left _ t₁ text queried =>
    obtain ⟨q, hfinished⟩ := queried.finished
    cases text with
    | none =>
      have hfresh := ((Turn.Calm.refl t₁).complete "").minted hfresh
      have hcalm := (queried.calm hquiet hknown hfresh).1
      exact ⟨hcalm.complete "", by rintro message ⟨⟩⟩
    | some text =>
      obtain ⟨s, ok, hfinish⟩ := finish_some (hfinished.quiet hquiet) hfinished.said
      rw [ended, hfinish] at hfresh ⊢
      have hrecorded : t₁.Calm (({ t₁ with session := s } : Turn σ).note
          (.recorded [.assistantText ⟨text, hfinished.said⟩])) :=
        ⟨_, Turn.trace_note _ _, by simp [Occurrence.isRefusal]⟩
      have hfresh := (hrecorded.complete text).minted hfresh
      have hcalm := (queried.calm hquiet hknown hfresh).1
      exact ⟨(hcalm.trans hrecorded).complete text, by rintro message ⟨⟩⟩
  | @stuck left _ t₁ t₂ calls queried executed =>
    obtain ⟨q, requested, messages, hissued⟩ := queried.issued
    have hexecuted := (executed.calm (hissued.waits hquiet)).1
    have hfresh := hexecuted.minted hfresh
    exact ⟨(queried.calm hquiet hknown hfresh).1.trans hexecuted, by simp⟩
  | @abandoned left _ t₁ t₂ calls e queried executed =>
    obtain ⟨q, requested, messages, hissued⟩ := queried.issued
    obtain ⟨hexecuted, hkind⟩ := executed.calm (hissued.waits hquiet)
    have hfresh := (hexecuted.fail e).minted hfresh
    have hcalm := (queried.calm hquiet hknown hfresh).1
    exact calm_fail (hcalm.trans hexecuted) (hkind e rfl)

/-! ## A whole turn -/

theorem reopened_restored (s : Session) :
    (if s.resume.1 then s.resume.2.markFailed else s.resume.2) = s := by
  unfold Session.resume
  split
  · rfl
  · rename_i hfailed
    have hfailed := Classical.not_not.mp hfailed
    cases s
    cases hfailed
    rfl

/-- A turn that is turned down leaves session, clock and world as they
were, and only publishes that it was turned down. -/
theorem rejected_is_noop (s : Session) (c : Clock) (w : σ) :
    let t := (reject s.resume.1 (opening s c w)).1
    t.session = s ∧ t.clock = c ∧ t.world = w ∧
      t.trace = [.published (.stateChanged s.id .idle),
        .published (.stateChanged s.id .errored),
        .published (.turnFinished s.id (.ofError (noUserMessage s.resume.2)))] := by
  refine ⟨reopened_restored s, rfl, rfl, ?_⟩
  unfold reject
  dsimp only
  rw [session_opening, reopened_restored, Turn.trace_publish, Turn.trace_enter,
    Turn.trace_with_session (opening s c w), trace_opening]
  rfl

/-- A turn of a fit session keeps all rules of the session. -/
theorem runTurn_calm (a : Agent σ) {s : Session} (c : Clock) (w : σ) (h : s.Reachable)
    (hfit : s.canBegin = true)
    (hfresh : MintsUnused (Log.issued s.history) (a.runTurn s c w).1.trace) :
    (opening s c w).Calm (a.runTurn s c w).1 ∧ ∀ message,
      (a.runTurn s c w).2 ≠ some (.errored .invariantViolation message) := by
  have hcourse := runTurn_course a h c w
  generalize a.runTurn s c w = e at hcourse hfresh
  cases hcourse with
  | rejected unfit =>
    rw [hfit] at unfit
    cases unfit
  | interrupted fit pending works stopped =>
    exact calm_fail (.of_works works) (by simp [AgentError.turnKind])
  | stuck fit works tools => exact ⟨.of_works works, by simp⟩
  | @ran r0 t₁ t₂ rs left _ fit opened rounds length stop =>
    obtain ⟨os, htrace, hos⟩ := opened.trace
    have hopened : (opening s c w).Calm t₁ := .of_toolWork htrace hos
    obtain ⟨hcalm, hkind⟩ :=
      stop.calm (rounds.quiet opened.quiet) (rounds.accounts opened.accounts) hfresh
    exact ⟨(hopened.trans rounds.calm).trans hcalm, hkind⟩

/-- The session refuses no message of such a turn. -/
theorem runTurn_refuses_nothing (a : Agent σ) {s : Session} (c : Clock) (w : σ)
    (h : s.Reachable) (hfit : s.canBegin = true)
    (hfresh : MintsUnused (Log.issued s.history) (a.runTurn s c w).1.trace) :
    ∀ error, .refused error ∉ (a.runTurn s c w).1.trace := by
  intro error hmem
  obtain ⟨⟨os, htrace, hos⟩, -⟩ := runTurn_calm a c w h hfit hfresh
  rw [htrace, trace_opening, List.singleton_append, List.mem_cons] at hmem
  rcases hmem with hmem | hmem
  · cases hmem
  · have hrefusal := hos _ hmem
    cases hrefusal

/-- A turn ends with a broken rule exactly if no call is pending and it is
not the case that the session is active or failed and the user spoke
last. The session never refuses a message of the turn itself. A turn that
ends so has asked nothing, run nothing and changed nothing. -/
theorem invariantViolation_iff_unfit (a : Agent σ) {s : Session} (c : Clock) (w : σ)
    (h : s.Reachable)
    (hfresh : MintsUnused (Log.issued s.history) (a.runTurn s c w).1.trace) :
    let e := a.runTurn s c w
    ((∃ message, e.2 = some (.errored .invariantViolation message)) ↔
        s.pending = 0 ∧
          ¬ ((s.status = .active ∨ s.status = .failed) ∧ s.userSpokeLast = true)) ∧
      (∀ error, .refused error ∉ e.1.trace) ∧
      ((∃ message, e.2 = some (.errored .invariantViolation message)) →
        e.1.session = s ∧ e.1.clock = c ∧ e.1.world = w ∧
          e.1.trace = [.published (.stateChanged s.id .idle),
            .published (.stateChanged s.id .errored),
            .published (.turnFinished s.id (.ofError (noUserMessage s.resume.2)))]) := by
  intro e
  have hunfit : s.canBegin = false ↔ s.pending = 0 ∧
      ¬ ((s.status = .active ∨ s.status = .failed) ∧ s.userSpokeLast = true) := by
    rw [← Bool.not_eq_true, Session.canBegin_iff h, not_or, Classical.not_not]
  rw [← hunfit]
  cases hfit : s.canBegin with
  | false =>
    have hrejected := runTurn_of_unfit a h c w hfit
    obtain ⟨hsession, hclock, hworld, htrace⟩ := rejected_is_noop s c w
    have he : e = ended (reject s.resume.1 (opening s c w)) := hrejected
    rw [he]
    refine ⟨⟨fun _ => rfl, fun _ => ⟨_, rfl⟩⟩, ?_, fun _ => ⟨hsession, hclock, hworld, htrace⟩⟩
    intro error hmem
    rw [ended, htrace] at hmem
    simp at hmem
  | true =>
    obtain ⟨-, hkind⟩ := runTurn_calm a c w h hfit hfresh
    have hnot : ¬ ∃ message, e.2 = some (.errored .invariantViolation message) :=
      fun ⟨message, hend⟩ => hkind message hend
    exact ⟨⟨fun hend => absurd hend hnot, fun hno => by cases hno⟩,
      runTurn_refuses_nothing a c w h hfit hfresh, fun hend => absurd hend hnot⟩

/-- A turn in which a call gets a fresh identifier. -/
theorem rules_kept_with_reused_identifier :
    let e := (replaying [reusingBatch, .ok (.finalAnswer "fine" none)]).runTurn
      halfAnswered ⟨0, .absent⟩ (0, 7)
    e.2 = some (.finalAnswer "fine") ∧
      assignedIds e.1.trace = [.numbered 7, .numbered 3] ∧
      ∀ error, .refused error ∉ e.1.trace := by
  have hfresh : MintsUnused (Log.issued halfAnswered.history)
      ((replaying [reusingBatch, .ok (.finalAnswer "fine" none)]).runTurn
        halfAnswered ⟨0, .absent⟩ (0, 7)).1.trace := by
    decide +kernel
  obtain ⟨-, hcalm, -⟩ := invariantViolation_iff_unfit
    (replaying [reusingBatch, .ok (.finalAnswer "fine" none)]) ⟨0, .absent⟩ (0, 7)
    reachable_halfAnswered hfresh
  exact ⟨by decide +kernel, by decide +kernel, hcalm⟩

end Agent

end AgentLoop
