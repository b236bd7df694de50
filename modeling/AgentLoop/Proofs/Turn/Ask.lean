/-
AgentLoop.Proofs.Turn.Ask — one question on a session of its own.

* `Session.Quiet.appends_text` — a text leaves a quiet session quiet
* `Agent.question_session` — the session of a question: a turn can begin there
* `Agent.Retold`, `Agent.retold` — the error that is made anew for the caller, and
  the one that ended the turn
* `Agent.Cause.expected` — without a signal and a refusal, the backend or the limit
  on questions ended the turn
* `Agent.ask_reports` — the caller has the answer of the turn, or an error of the
  kind that ended it
* `Agent.fatal_failure_retold` — a failure of the backend that the caller gets
  with another text and the opposite flag

The caller's error is made from the kind and the text of the outcome. That gives
back the limit on questions and the cancellation as they were. A failure of the
backend is put in words twice, and its flag is the usual one of its kind.
-/
import Mathlib.Control.Monad.Basic
import AgentLoop.Agent
import AgentLoop.Proofs.Turn.Causes
import AgentLoop.Proofs.Turn.Rejection
import AgentLoop.Proofs.Turn.Submission
import AgentLoop.Proofs.Turn.Timing

namespace AgentLoop

/-! ## The session of a question -/

namespace Session

variable {s : Session}

/-- A text leaves a quiet session quiet. -/
theorem Quiet.appends_text (h : s.Quiet) {m : Message} (hissues : m.issues? = none)
    (hanswers : m.answers? = none) : ∃ s', s.append m = .ok s' ∧ s'.Quiet := by
  obtain ⟨s', ok⟩ := h.records_text hissues hanswers
  have hreachable := h.reachable.appendAll ok
  have hissued : Log.issued [m] = [] := by simp [Log.issued, hissues]
  have hclosed : Log.openCalls s'.history = [] := by
    rw [history_of_appendAll ok, Log.openCalls_eq_nil_iff, Log.issued_append, hissued,
      List.append_nil, Log.answered_append]
    intro id hid
    exact List.mem_append_left _ (Log.openCalls_eq_nil_iff.mp h.closed id hid)
  exact ⟨s', ok, hreachable,
    active_of_appendAll hreachable.consistent ok (.inl h.active) hclosed, hclosed⟩

theorem quiet_new (id : SessionId) : (new id).Quiet := ⟨.new id, rfl, rfl⟩

end Session

namespace Agent

variable {σ : Type} {a : Agent σ}

theorem createSession_quiet (id : SessionId)
    (hprompt : ∀ p, a.settings.systemPrompt = some p → Text.isBlank p = false) :
    ∃ s, a.createSession id = .ok s ∧ s.Quiet := by
  unfold createSession
  cases hsystem : a.settings.systemPrompt with
  | none => exact ⟨_, rfl, Session.quiet_new id⟩
  | some p =>
    have hsaid := hprompt p hsystem
    have hmessage : Message.system p = .ok (.systemText ⟨p, hsaid⟩) :=
      NonBlank.map_ofText Message.systemText hsaid
    obtain ⟨s, ok, hquiet⟩ := (Session.quiet_new id).appends_text
      (m := .systemText ⟨p, hsaid⟩) rfl rfl
    refine ⟨s, ?_, hquiet⟩
    simp only [Session.withSystemPrompt, hmessage, ok]

/-- The session of a question that is no blank: a turn can begin there. -/
theorem question_session (id : SessionId) {question : String}
    (hprompt : ∀ p, a.settings.systemPrompt = some p → Text.isBlank p = false)
    (hquestion : Text.isBlank question = false) :
    ∃ s₀ s, a.createSession id = .ok s₀ ∧ submit s₀ question = .ok s ∧ s.Reachable ∧
      s.canBegin = true := by
  obtain ⟨s₀, hcreated, hquiet⟩ := createSession_quiet id hprompt
  have hclosed : s₀.pendingToolCalls = [] := by
    rw [Session.pendingToolCalls_eq_openCalls hquiet.reachable.consistent]
    exact hquiet.closed
  have ok := submit_of_quiet hquiet.reachable hclosed hquestion
  have hreachable := submit_reachable hquiet.reachable ok
  exact ⟨s₀, _, hcreated, ok, hreachable, saying_canBegin hreachable⟩

/-! ## The error that is made anew -/

/-- How the error a caller is told of stands to the one that ended the turn. -/
structure Retold (e e' : AgentError) : Prop where
  kind : e'.turnKind = e.turnKind
  limit : ∀ n, e = .iterationLimitExceeded n → e' = e
  cancelled : e = .cancelled → e' = e
  provider : ∀ p, e = .provider p → e' = .provider ⟨p.kind, p.kind.isTransient, p.display⟩
  flag_iff : ∀ p, e = .provider p →
    (e'.isRetryable = e.isRetryable ↔ p.retryable = p.kind.isTransient)
  text : ∀ p, e = .provider p → e'.display ≠ e.display

/-- A failure is longer in words than its message. -/
theorem display_ne_message (p : ProviderError) : p.display ≠ p.message := by
  have hlonger : ∀ name message : String,
      "provider error (" ++ name ++ "): " ++ message ≠ message := by
    simp [String.append_eq_right_iff, String.append_eq_empty_iff]
  exact hlonger p.kind.name p.message

theorem retold {t : Turn σ} {e : AgentError} (h : Cause a t e) :
    Retold e (a.askError e.turnKind e.display) where
  kind := by cases e <;> rfl
  limit := by
    rintro n rfl
    cases h
    rfl
  cancelled := by
    rintro rfl
    rfl
  provider := by
    rintro p rfl
    rfl
  flag_iff := by
    rintro p rfl
    exact eq_comm
  text := by
    rintro p rfl
    exact display_ne_message _

/-- A turn that is not cancelled, and whose session refused nothing, is ended by the
backend or by the limit on questions. -/
theorem Cause.expected {t : Turn σ} {e : AgentError} (h : Cause a t e)
    (low : t.clock.isRaised = false) (unrefused : ∀ error, .refused error ∉ t.trace) :
    (∃ p, e = .provider p) ∨ e = .iterationLimitExceeded a.settings.maxIterations := by
  cases h with
  | failure p last => exact .inl ⟨p, rfl⟩
  | reply reply reason last => exact .inl ⟨_, rfl⟩
  | limit => exact .inr rfl
  | cancelled raised => rw [low] at raised; cases raised
  | refused error mem => exact absurd mem (unrefused error)

/-- What the caller is told of an outcome. -/
def told (a : Agent σ) : TurnOutcome → Conclusion
  | .finalAnswer text => .ok text
  | .errored kind message => .error (a.askError kind message)

theorem ask_eq {id : SessionId} {question : String} {s₀ s : Session} (now : Nat) (w : σ)
    (hcreated : a.createSession id = .ok s₀) (hsubmitted : submit s₀ question = .ok s) :
    a.ask id question now w =
      (some (a.runTurn s ⟨now, .absent⟩ w).1, (a.runTurn s ⟨now, .absent⟩ w).2.map a.told) := by
  unfold ask
  simp only [hcreated, hsubmitted, bind, Except.bind]
  refine congrArg (Prod.mk _) (congrFun (congrArg Option.map ?_) _)
  funext outcome
  cases outcome <;> rfl

/-- A question that is no blank is put on a session of its own, and a turn runs
there. The caller has the answer of the turn; without one, an error of the kind that
ended it. If fresh identifiers are unused, this is a failure of the backend or the
limit on questions. The limit is told as it was. A failure is told with the usual flag
of its kind, so the flag is right only if the failure had that one, and with its text
in place of its message, so its text never is. -/
theorem ask_reports (a : Agent σ) (id : SessionId) (question : String) (now : Nat) (w : σ)
    (hprompt : ∀ p, a.settings.systemPrompt = some p → Text.isBlank p = false)
    (hquestion : Text.isBlank question = false) :
    ∃ s₀ s t outcome answer,
      a.createSession id = .ok s₀ ∧ submit s₀ question = .ok s ∧ s.canBegin = true ∧
      a.runTurn s ⟨now, .absent⟩ w = (t, outcome) ∧
      a.ask id question now w = (some t, answer) ∧
      (∀ text, answer = some (.ok text) ↔ outcome = some (.finalAnswer text)) ∧
      (answer = none ↔ outcome = none) ∧
      outcome = (a.conclusion s ⟨now, .absent⟩ w).2.map TurnOutcome.ofConclusion ∧
      ∀ e, (a.conclusion s ⟨now, .absent⟩ w).2 = some (.error e) →
        Cause a t e ∧
        (MintsUnused (Log.issued s.history) t.trace →
          (∃ p, e = .provider p) ∨ e = .iterationLimitExceeded a.settings.maxIterations) ∧
        ∃ e', answer = some (.error e') ∧ Retold e e' := by
  obtain ⟨s₀, s, hcreated, hsubmitted, hreachable, hfit⟩ :=
    question_session id hprompt hquestion
  have hclosed := a.runTurn_eq_closed hreachable hfit ⟨now, .absent⟩ w
  have hlow := a.unsignalled_runTurn hreachable (c := ⟨now, .absent⟩) w rfl
  have hrefused := a.runTurn_refuses_nothing ⟨now, .absent⟩ w hreachable hfit
  have hask := ask_eq now w hcreated hsubmitted
  cases hrun : a.runTurn s ⟨now, .absent⟩ w with | mk t outcome
  cases hconclusion : a.conclusion s ⟨now, .absent⟩ w with | mk t₁ c
  rw [hrun] at hask hlow hrefused
  rw [hrun, hconclusion] at hclosed
  have houtcome : outcome = c.map TurnOutcome.ofConclusion := by
    rw [← snd_closed (t₁, c), ← hclosed]
  refine ⟨s₀, s, t, outcome, outcome.map a.told, hcreated, hsubmitted, hfit, hrun, hask,
    fun text => ?_, by simp, by rw [hconclusion, houtcome], fun e he => ?_⟩
  · cases outcome with
    | none => simp
    | some o => cases o <;> simp [told]
  · rw [hconclusion] at he
    dsimp only at he
    subst he
    have hturn : t = (t₁.fail e).1 := congrArg Prod.fst hclosed
    have hcause : Cause a t e := by
      rw [hturn]
      exact (conclusion_cause hreachable hfit hconclusion).fail
    refine ⟨hcause, fun hfresh => ?_, _, congrArg (Option.map a.told) houtcome, retold hcause⟩
    exact hcause.expected hlow (hrefused hfresh)

/-- An answer that the caller has is the answer of a turn. -/
theorem answer_is_of_turn :
    let a := replaying [.ok (.finalAnswer "It is 42." none)]
    a.settings.systemPrompt = none ∧ Text.isBlank "What is it?" = false ∧
      (a.ask ⟨"s"⟩ "What is it?" 0 (0, 7)).2 = some (.ok "It is 42.") ∧
      ∃ s t, s.canBegin = true ∧
        a.runTurn s ⟨0, .absent⟩ (0, 7) = (t, some (.finalAnswer "It is 42.")) := by
  intro a
  have hquestion : Text.isBlank "What is it?" = false := by decide
  obtain ⟨s₀, s, t, outcome, answer, -, -, hfit, hrun, hask, hanswer, -⟩ :=
    ask_reports a ⟨"s"⟩ "What is it?" 0 (0, 7) (fun p hp => by cases hp) hquestion
  have hgot : (a.ask ⟨"s"⟩ "What is it?" 0 (0, 7)).2 = some (.ok "It is 42.") := by
    decide +kernel
  refine ⟨rfl, hquestion, hgot, s, t, hfit, ?_⟩
  rw [hask] at hgot
  rw [hrun, (hanswer "It is 42.").mp hgot]

/-- A backend that was asked too often says that there is no use in asking again. The
caller is told the opposite, in other words. -/
theorem fatal_failure_retold :
    let a := replaying [.error ⟨.rateLimited, false, "fatal"⟩]
    let s := (Session.new ⟨"s"⟩).performAll [.append (.userText ⟨"q", by decide⟩)]
    submit (Session.new ⟨"s"⟩) "q" = .ok s ∧ a.createSession ⟨"s"⟩ = .ok (Session.new ⟨"s"⟩) ∧
      (a.conclusion s ⟨0, .absent⟩ (0, 7)).2 =
        some (.error (.provider ⟨.rateLimited, false, "fatal"⟩)) ∧
      (a.ask ⟨"s"⟩ "q" 0 (0, 7)).2 = some (.error (.provider
        ⟨.rateLimited, true, "provider error (rate_limited): fatal"⟩)) := by
  exact ⟨rfl, rfl, by decide +kernel, by decide +kernel⟩

end Agent

end AgentLoop
