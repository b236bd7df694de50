/-
AgentLoop.Proofs.Turn.Rerun — a failed turn is run again.

* `runTurn_failed`, `session_after_failure` — what a turn that fails leaves of
  its session
* `Reruns`, `Rerun` — a turn that runs the calls it finds pending, each one
  once, and then asks the backend
* `runTurn_rerun` — every turn that can begin is one, unless it is cancelled
* `canBegin_after_failure_iff` — a turn can begin behind one that failed exactly
  if that left a call pending or appended nothing
* `rerun_of_failed_turn` — both together
* `refused_behind_results` — a turn that failed when its calls had all been
  answered is refused

A failed turn has appended calls and results only. If all its calls have
results, the last message is a result, so the session does not count as one
whose user waits for a reply, although none was given.
-/
import AgentLoop.Proofs.Turn.Budget
import AgentLoop.Proofs.Turn.Recording

namespace AgentLoop

namespace Agent

variable {σ : Type} {a b : Agent σ} {t t' : Turn σ}

/-! ## What a failed turn leaves -/

/-- An answer that is not taken leaves the session as it was. -/
theorem session_of_finish_errored {text : Option String} {kind : TurnErrorKind}
    {message : String} (h : (t.finish text).2 = .errored kind message) :
    (t.finish text).1.session = t.session.markFailed := by
  cases text with
  | none => cases h
  | some text =>
    unfold Turn.finish at h ⊢
    cases hmessage : Message.assistant text with
    | error e =>
      dsimp only
      rw [hmessage]
      rfl
    | ok m =>
      simp only [hmessage, Turn.record] at h ⊢
      cases happend : t.session.appendAll [m] with
      | error e => rfl
      | ok s =>
        rw [happend] at h
        cases h

/-- If a turn of the session `s` failed, tokens were counted, calls and results
were appended, and then the session was marked as failed. -/
def Failed (s : Session) (e : Ended σ) : Prop :=
  ∀ kind message, e.2 = some (.errored kind message) →
    ∃ s', s.Exchanged s' ∧ e.1.session = s'.markFailed

theorem failed_fail {s : Session} (h : s.Exchanged t.session) (e : AgentError) :
    Failed s (ended (t.fail e)) :=
  fun _ _ _ => ⟨t.session, h, rfl⟩

theorem Exit.leaves {left : Nat} {s : Session} {e : Ended σ} (h : Exit a left t e)
    (hs : s.Exchanged t.session) : Failed s e := by
  cases h with
  | cancelled raised => exact failed_fail hs _
  | exhausted low => exact failed_fail hs _
  | unanswered low queried => rintro kind message ⟨⟩
  | failed low queried => exact failed_fail (hs.trans (query_exchanged queried)) _
  | @finished left _ t₁ text low queried =>
    intro kind message hend
    exact ⟨t₁.session, hs.trans (query_exchanged queried),
      session_of_finish_errored (Option.some.inj hend)⟩
  | stuck low queried executed => rintro kind message ⟨⟩
  | abandoned low queried executed =>
    exact failed_fail ((hs.trans (query_exchanged queried)).trans (execute_exchanged executed)) _

theorem loop_failed {left : Nat} {s : Session} (hquiet : t.session.Quiet)
    (hs : s.Exchanged t.session) : Failed s (a.loop left t) := by
  refine loop_rule (P := fun _ t' => s.Exchanged t'.session) (Q := Failed s) ?_ ?_ hquiet hs
  · intro left t' e hs' _ hexit
    exact hexit.leaves hs'
  · intro left t' t₁ calls t₂ hs' hcycle
    exact (hs'.trans (query_exchanged hcycle.queried)).trans (execute_exchanged hcycle.executed)

theorem runTurn_failed (a : Agent σ) {s : Session} (h : s.Reachable) (c : Clock) (w : σ)
    (hfit : s.canBegin = true) : Failed s.resume.2 (a.runTurn s c w) := by
  have hstart : s.resume.2.Exchanged (opening s c w).session := .refl
  have hbegun := runTurn_begun a h c w
  generalize a.runTurn s c w = e at hbegun
  cases hbegun with
  | rejected unfit =>
    rw [hfit] at unfit
    cases unfit
  | cancelled fit pending raised => exact failed_fail hstart _
  | stuck fit pending low executed => rintro kind message ⟨⟩
  | abandoned fit pending low executed => exact failed_fail (execute_exchanged executed) _
  | resumed fit pending low executed =>
    exact loop_failed ((execute_ran executed).quiet (waits_pendingRequests h pending))
      (execute_exchanged executed)
  | asked fit none quiet => exact loop_failed quiet hstart

/-- The session behind a turn that failed. -/
theorem session_after_failure (a : Agent σ) {s : Session} (h : s.Reachable) (c : Clock) (w : σ)
    (hfit : s.canBegin = true) {kind : TurnErrorKind} {message : String}
    (hend : a.runTurn s c w = (t, some (.errored kind message))) :
    t.session.Reachable ∧ t.session.status = .failed ∧
      ∃ ms, t.session.history = s.history ++ ms ∧
        ∀ m ∈ ms, m.issues?.isSome ∨ m.answers?.isSome := by
  have hfailed := runTurn_failed a h c w hfit kind message
  rw [hend] at hfailed
  obtain ⟨s', hexchanged, hsession⟩ := hfailed rfl
  obtain ⟨ms, hlog, hms⟩ := hexchanged.history
  rw [Session.history_resume] at hlog
  rw [hsession]
  exact ⟨(hexchanged.reachable h.resume).perform .markFailed, rfl, ms, hlog, hms⟩

/-- A turn can begin behind one that failed exactly if that left a call
pending or appended nothing. -/
theorem canBegin_after_failure_iff (a : Agent σ) {s : Session} (h : s.Reachable) (c : Clock)
    (w : σ) (hfit : s.canBegin = true) {kind : TurnErrorKind} {message : String}
    (hend : a.runTurn s c w = (t, some (.errored kind message))) :
    t.session.canBegin = true ↔
      Log.openCalls t.session.history ≠ [] ∨ t.session.history = s.history := by
  obtain ⟨hreachable, hstatus, ms, hlog, hms⟩ := session_after_failure a h c w hfit hend
  rw [Session.canBegin_iff hreachable, hstatus, ne_eq,
    Session.pending_eq_zero_iff hreachable.consistent]
  by_cases hopen : Log.openCalls t.session.history = []
  · -- nothing is pending, so it depends on who spoke last
    have hspoke : t.session.userSpokeLast = true ↔ t.session.history = s.history := by
      constructor
      · intro hspoke
        by_cases hne : ms = []
        · rw [hlog, hne, List.append_nil]
        · rw [Session.userSpokeLast_of_exchange hlog hne hms] at hspoke
          cases hspoke
      · intro hsame
        have hbefore := (Session.canBegin_iff h).mp hfit
        rw [ne_eq, Session.pending_eq_zero_iff h.consistent, ← hsame] at hbefore
        rcases hbefore with hpending | ⟨-, hspoke⟩
        · exact absurd hopen hpending
        · rw [Session.userSpokeLast, hsame]
          exact hspoke
    simp [hopen, hspoke]
  · simp [hopen]

/-! ## Asking again -/

/-- A question begins with a request. -/
theorem query_asks {r : StepResult Verdict} (low : t.clock.isRaised = false)
    (h : a.query t = (t', r)) :
    ∃ os, t'.trace = t.trace ++ .published (.stateChanged t.session.id .querying) ::
      .asked (a.view t.session) a.tools.describeAll :: os := by
  unfold query at h
  dsimp only at h
  cases hrequest : a.request a.settings.retry.backoff (a.view (t.enter .querying).session)
    a.tools.describeAll a.settings.retry.maxRetries 0 (t.enter .querying) with | mk t₁ r₁
  rw [hrequest] at h
  obtain ⟨es, hheard⟩ := request_heard (t := t.enter .querying) low hrequest
  obtain ⟨os, hasked⟩ := hheard.asks
  have hrest : ∃ os', t'.trace = t₁.trace ++ os' := by
    cases r₁ with
    | never =>
      cases h
      exact ⟨[], by simp⟩
    | failed e =>
      cases h
      exact ⟨[], by simp⟩
    | next reply =>
      obtain ⟨os', hsettled⟩ := acceptReply_cases h
      obtain ⟨os', htrace, -⟩ := hsettled.logs
      exact ⟨os', htrace⟩
  obtain ⟨os', hrest⟩ := hrest
  refine ⟨os ++ os', ?_⟩
  rw [hrest, hasked, Turn.trace_enter]
  simp

/-- The loop begins with a question, unless the turn is cancelled or no
question is left. -/
theorem loop_asks {left : Nat} (hquiet : t.session.Quiet) (hleft : 0 < left)
    (hlive : (a.loop left t).2 ≠ some (.ofError .cancelled)) :
    t.clock.isRaised = false ∧ ∃ os, (a.loop left t).1.trace = t.trace ++
      .published (.stateChanged t.session.id .querying) ::
        .asked (a.view t.session) a.tools.describeAll :: os := by
  obtain ⟨left, rfl⟩ : ∃ n, left = n + 1 := ⟨left - 1, by omega⟩
  rw [loop] at hlive ⊢
  split at hlive
  · exact absurd rfl hlive
  · rename_i hlow
    have hlow := Bool.eq_false_iff.mpr hlow
    refine ⟨hlow, ?_⟩
    rw [hlow, if_neg Bool.false_ne_true]
    cases hquery : a.query t with | mk t₁ r₁
    obtain ⟨os, hasked⟩ := query_asks hlow hquery
    have hextend : ∀ t₂ : Turn σ, t₁.Logs t₂ → ∃ os', t₂.trace = t.trace ++
        .published (.stateChanged t.session.id .querying) ::
          .asked (a.view t.session) a.tools.describeAll :: os' := by
      rintro t₂ ⟨os', htrace, -⟩
      exact ⟨os ++ os', by rw [htrace, hasked]; simp⟩
    cases r₁ with
    | never => exact hextend _ (.refl t₁)
    | failed e => exact hextend _ ((Turn.Logs.refl t₁).fail e)
    | next verdict =>
      cases verdict with
      | finish text => exact hextend _ ((logs_along a).finish t₁ text)
      | execute calls =>
        dsimp only
        cases hexecute : a.execute calls t₁ with | mk t₂ r₂
        have hlogs := execute_logs hexecute
        cases r₂ with
        | never => exact hextend _ hlogs
        | failed e => exact hextend _ (hlogs.fail e)
        | next _ =>
          have hcycle : Cycle a t t₁ calls t₂ := ⟨hquiet, hlow, hquery, hexecute⟩
          exact hextend _ (hlogs.trans ((logs_along a).loop hcycle.quiet_end))

/-- What a turn does with the calls that it finds pending: nothing if there
are none; otherwise it runs them, each one once and all to their end, and
records their results in the order of the calls. -/
inductive Reruns (id : SessionId) :
    (calls : List ToolCallRequest) → (results : List Message) → List Occurrence → Prop
  | none : Reruns id [] [] []
  | batch {calls : List ToolCallRequest} {runs : List BatchRun}
      {results : List ToolCallResult} (nonempty : calls ≠ [])
      (whole : Batch.Whole calls runs results false) :
      Reruns id calls (results.map ToolCallResult.toMessage)
        (batchStart id calls ++ batchEnd id runs results)

theorem Reruns.recordedIn_eq {id : SessionId} {calls : List ToolCallRequest}
    {results : List Message} {done : List Occurrence} (h : Reruns id calls results done) :
    recordedIn done = results := by
  cases h with
  | none => rfl
  | batch nonempty whole =>
    rw [recordedIn_append, recordedIn_batchStart, recordedIn_batchEnd, List.nil_append]

/-- A turn of a session in which just these calls are pending: they are run
again, and then the backend is asked with the results before it. -/
structure Rerun (b : Agent σ) (s : Session) (calls : List ToolCallRequest) (t : Turn σ)
    (results : List Message) (done rest : List Occurrence) (asking : Session) : Prop where
  reruns : Reruns s.id calls results done
  shown : asking.history = s.history ++ results
  trace : t.trace = .published (.stateChanged s.id .idle) ::
    (done ++ .published (.stateChanged s.id .querying) ::
      .asked (b.view asking) b.tools.describeAll :: rest)
  history : t.session.history = s.history ++ results ++ recordedIn rest

/-- A turn that can begin and is not cancelled runs the calls that are
pending and asks, if it may ask at all and its tools end. -/
theorem runTurn_rerun (b : Agent σ) {s : Session} (h : s.Reachable) (c : Clock) (w : σ)
    (hfit : s.canBegin = true) (hbudget : 0 < b.settings.maxIterations)
    (hends : b.tools.Ends b.settings.toolTimeoutMs)
    (hlive : (b.runTurn s c w).2 ≠ some (.ofError .cancelled)) :
    ∃ results done rest asking,
      Rerun b s (pendingRequests s.resume.2) (b.runTurn s c w).1 results done rest asking := by
  -- the log follows from the trace, so only the trace is to be found in each case
  suffices htrace : ∃ results done rest asking,
      Reruns s.id (pendingRequests s.resume.2) results done ∧
      asking.history = s.history ++ results ∧
      (b.runTurn s c w).1.trace = .published (.stateChanged s.id .idle) ::
        (done ++ .published (.stateChanged s.id .querying) ::
          .asked (b.view asking) b.tools.describeAll :: rest) by
    obtain ⟨results, done, rest, asking, hreruns, hshown, htrace⟩ := htrace
    refine ⟨results, done, rest, asking, hreruns, hshown, htrace, ?_⟩
    have hrecorded : recordedIn (b.runTurn s c w).1.trace = results ++ recordedIn rest := by
      rw [htrace, ← hreruns.recordedIn_eq]
      simp [recordedIn, Occurrence.messages]
    rw [runTurn_logs b h c w, hrecorded, List.append_assoc]
  have hbegun := runTurn_begun b h c w
  generalize b.runTurn s c w = e at hbegun hlive
  cases hbegun with
  | rejected unfit =>
    rw [hfit] at unfit
    cases unfit
  | cancelled fit pending raised => exact absurd rfl hlive
  | stuck fit pending low executed =>
    cases execute_ran executed with
    | never runs first stuck low marks => exact absurd hends stuck
  | abandoned fit pending low executed =>
    obtain ⟨rfl, -⟩ := (execute_ran executed).cancelled_of_failed
      (waits_pendingRequests h pending)
    exact absurd rfl hlive
  | @resumed t₁ fit pending low executed =>
    have hran := execute_ran executed
    have hquiet := hran.quiet (waits_pendingRequests h pending)
    obtain ⟨hlow, rest, hasked⟩ := loop_asks hquiet hbudget hlive
    have hid : t₁.session.id = s.id :=
      (execute_exchanged executed).id.trans Session.id_resume
    cases hran with
    | recorded runs results whole recorded marked =>
      rw [hlow] at whole
      refine ⟨results.map ToolCallResult.toMessage, _, rest, t₁.session,
        .batch pending whole, ?_, ?_⟩
      · rw [Session.history_of_appendAll recorded, session_opening, Session.history_resume]
      · rw [hasked, Turn.trace_of_marked marked, trace_opening, hid, session_opening,
          Session.id_resume]
        simp
  | asked fit none quiet =>
    obtain ⟨-, rest, hasked⟩ := loop_asks quiet hbudget hlive
    rw [none]
    refine ⟨[], [], rest, s.resume.2, .none, ?_, ?_⟩
    · rw [Session.history_resume, List.append_nil]
    · rw [hasked, trace_opening, session_opening, Session.id_resume]
      rfl

/-! ## Behind a failed turn -/

/-- A failed turn is run again if it left calls pending or appended nothing:
the calls are run, each one once, and the backend is asked. If it appended
calls and all of them have their results, the next turn is refused for want
of a message of the user, and the session stays as it is. -/
theorem rerun_of_failed_turn (a b : Agent σ) {s : Session} (c c' : Clock) (w w' : σ)
    (h : s.Reachable) (hfit : s.canBegin = true) {kind : TurnErrorKind} {message : String}
    (hend : a.runTurn s c w = (t, some (.errored kind message))) :
    let calls := (Log.openCalls t.session.history).filterMap requestOf?
    let e := b.runTurn t.session c' w'
    (calls ≠ [] ∨ t.session.history = s.history → 0 < b.settings.maxIterations →
        b.tools.Ends b.settings.toolTimeoutMs → e.2 ≠ some (.ofError .cancelled) →
        ∃ results done rest asking, Rerun b t.session calls e.1 results done rest asking) ∧
      (calls = [] → t.session.history ≠ s.history →
        e.2 = some (.ofError (noUserMessage t.session.resume.2)) ∧ e.1.session = t.session ∧
        e.1.trace = [.published (.stateChanged t.session.id .idle),
          .published (.stateChanged t.session.id .errored),
          .published (.turnFinished t.session.id
            (.ofError (noUserMessage t.session.resume.2)))]) := by
  intro calls e
  obtain ⟨hreachable, -⟩ := session_after_failure a h c w hfit hend
  have hiff := canBegin_after_failure_iff a h c w hfit hend
  have hcalls : calls = pendingRequests t.session.resume.2 := by
    rw [pendingRequests, Session.pendingToolCalls_resume hreachable]
  have hnone : calls = [] ↔ Log.openCalls t.session.history = [] := by
    rw [hcalls]
    exact pendingRequests_eq_nil_iff hreachable
  constructor
  · intro hleft hbudget hends hlive
    have hagain : t.session.canBegin = true :=
      hiff.mpr (hleft.imp_left fun hne hopen => hne (hnone.mpr hopen))
    rw [hcalls]
    exact runTurn_rerun b hreachable c' w' hagain hbudget hends hlive
  · intro hempty hgrown
    have hunfit : t.session.canBegin = false := by
      rw [← Bool.not_eq_true, hiff, not_or, Classical.not_not]
      exact ⟨hnone.mp hempty, hgrown⟩
    obtain ⟨hsession, -, -, htrace⟩ := rejected_is_noop t.session c' w'
    have he : e = ended (reject t.session.resume.1 (opening t.session c' w')) :=
      runTurn_of_unfit b hreachable c' w' hunfit
    rw [he]
    exact ⟨rfl, hsession, htrace⟩

/-- A turn that was cancelled before it ran the call that was pending, and
the turn behind it. -/
theorem cancelled_call_run_again :
    let a := replaying [.ok (.finalAnswer "fine" none)]
    let e := a.runTurn halfAnswered ⟨0, .raised⟩ (0, 7)
    let e' := a.runTurn e.1.session ⟨0, .absent⟩ (0, 7)
    let calls := (Log.openCalls e.1.session.history).filterMap requestOf?
    e.2 = some (.ofError .cancelled) ∧ e'.2 = some (.finalAnswer "fine") ∧
      calls.map (fun r => (r.callId, r.toolName)) = [(.numbered 1, "look")] ∧
      ∃ results done rest asking, Rerun a e.1.session calls e'.1 results done rest asking := by
  intro a e e' calls
  have hend : e.2 = some (.ofError .cancelled) := by decide +kernel
  have hagain : e'.2 = some (.finalAnswer "fine") := by decide +kernel
  have hcalls : calls.map (fun r => (r.callId, r.toolName)) = [(.numbered 1, "look")] := by
    decide +kernel
  obtain ⟨hrerun, -⟩ := rerun_of_failed_turn a a ⟨0, .raised⟩ ⟨0, .absent⟩ (0, 7) (0, 7)
    reachable_halfAnswered (by decide +kernel) (Prod.ext rfl hend)
  refine ⟨hend, hagain, hcalls,
    hrerun (Or.inl fun hnone => ?_) (by decide) (replaying_ends _ _) ?_⟩
  · rw [show calls = [] from hnone] at hcalls
    cases hcalls
  · rw [show (a.runTurn e.1.session ⟨0, .absent⟩ (0, 7)).2 = _ from hagain]
    simp [TurnOutcome.ofError]

/-- A session in which the user has asked. -/
def justAsked : Session :=
  (Session.new ⟨"s"⟩).performAll [.append (.userText ⟨"why", by decide⟩)]

/-- A backend that asks for a call, fails for good when it has the result,
and would have an answer then. -/
def failingBetween : Agent (Nat × Nat) :=
  replaying [.ok (.toolCallBatch [⟨.numbered 1, "look", .null⟩] false none),
    .error ⟨.execution, false, "lost"⟩, .ok (.finalAnswer "fine" none)]

/-- A turn that fails behind the result of its call: the next one is refused
and asks nothing, although the user has no reply. -/
theorem refused_behind_results :
    let e := failingBetween.runTurn justAsked ⟨0, .absent⟩ (0, 7)
    let e' := failingBetween.runTurn e.1.session e.1.clock e.1.world
    justAsked.Reachable ∧ justAsked.canBegin = true ∧
      e.2 = some (.errored (.provider .execution) "provider error (execution): lost") ∧
      Log.openCalls e.1.session.history = [] ∧ 0 < failingBetween.settings.maxIterations ∧
      failingBetween.tools.Ends failingBetween.settings.toolTimeoutMs ∧
      e'.2 = some (.errored .invariantViolation
        "Invariant violation: session s has no unanswered user message (status Active)") ∧
      ¬ ∃ results done rest asking,
        Rerun failingBetween e.1.session [] e'.1 results done rest asking := by
  intro e e'
  have hunasked : e'.1.trace.all (fun o => !o.isAsk) = true := by decide +kernel
  refine ⟨(Session.Reachable.new _).performAll _, by decide +kernel, by decide +kernel,
    by decide +kernel, by decide, replaying_ends _ _, by decide +kernel, ?_⟩
  rintro ⟨results, done, rest, asking, hrerun⟩
  rw [hrerun.trace] at hunasked
  simp [Occurrence.isAsk] at hunasked

end Agent

end AgentLoop
