/-
AgentLoop.Proofs.Turn.Cancellation — a turn heeds the signal.

* `question`, `verdictOf` — a question up to its answer, and the outcome
  that an answer makes of a turn if it ends it
* `Aftermath` — all that can occur once the signal is raised
* `RaiserDecides` — an answer ends the turn, and the backend raised the signal in
  the moment in which it gave it
* `Lively`, `Doomed` — a turn in which the signal is not raised, and one
  that can only be cancelled
* `query_cut`, `execute_cut` — how a raise meets a question and a batch
* `Heeds` — when the signal is raised in a turn, and what holds of the turn before
  the raise and afterwards
* `cancellation_safety` — it holds of every turn that can begin

The signal is looked up before each step, so a raise is met by the step in
which it happens. What that step still does, and what closes the turn, is
therefore the whole aftermath, and there is one list for each moment at
which the raise can happen.
-/
import AgentLoop.Proofs.Turn.Budget
import AgentLoop.Proofs.Turn.Recording
import AgentLoop.Proofs.Turn.Timing

namespace AgentLoop

/-! ## What can follow a raise -/

/-- A question up to its answer: the failures after which it was repeated,
and the request that was sent last. -/
def question (id : SessionId) (view : List Message) (specs : List ToolSpec)
    (es : List ProviderError) : List Occurrence :=
  .published (.stateChanged id .querying) ::
    (retrySteps id view specs 0 es ++ [.asked view specs])

/-- The outcome that an answer makes of a turn. A batch with calls makes
none, since the turn goes on with it. -/
def verdictOf : ProviderResult → Option TurnOutcome
  | .error e => some (.ofError (.provider e))
  | .ok (.finalAnswer text _) =>
    if Text.isBlank text then some (.ofError (.provider (.malformed "final answer is empty")))
    else some (.finalAnswer text)
  | .ok (.toolCallBatch [] true _) => some (.finalAnswer "")
  | .ok (.toolCallBatch [] false _) =>
    some (.ofError (.provider (.malformed "tool call batch is empty")))
  | .ok (.toolCallBatch (_ :: _) _ _) => none

theorem length_retrySteps (id : SessionId) (view : List Message) (specs : List ToolSpec)
    (retry : Nat) (es : List ProviderError) :
    (retrySteps id view specs retry es).length = 3 * es.length := by
  induction es generalizing retry with
  | nil => rfl
  | cons e rest ih =>
    simp only [retrySteps, List.length_cons, ih]
    omega

/-- What occurred since the last question began tells how often it was
repeated. -/
theorem question_inj {id : SessionId} {view view' : List Message} {specs : List ToolSpec}
    {es es' : List ProviderError} {os os' : List Occurrence}
    (h : os ++ question id view specs es = os' ++ question id view' specs es') :
    es.length = es'.length := by
  have hsince : ∀ (os : List Occurrence) (view : List Message) (es : List ProviderError),
      (os ++ question id view specs es).reverse.takeWhile (fun o => !o.isQuerying) =
        (retrySteps id view specs 0 es ++ [Occurrence.asked view specs]).reverse := by
    intro os view es
    have hnone : ∀ o ∈ (retrySteps id view specs 0 es ++ [Occurrence.asked view specs]).reverse,
        (!o.isQuerying) = true := by
      intro o ho
      rw [List.mem_reverse, List.mem_append] at ho
      rcases ho with ho | ho
      · have hcount := countP_isQuerying_retrySteps id view specs 0 es
        simpa using List.countP_eq_zero.mp hcount o ho
      · rw [List.mem_singleton.mp ho]
        rfl
    rw [question, List.reverse_append, List.reverse_cons, List.append_assoc,
      List.takeWhile_append_of_pos hnone]
    simp [Occurrence.isQuerying]
  have hlength := congrArg List.length ((hsince os view es).symm.trans
    ((congrArg (fun l => l.reverse.takeWhile fun o => !o.isQuerying) h).trans
      (hsince os' view' es')))
  simp only [List.length_reverse, List.length_append, length_retrySteps,
    List.length_singleton] at hlength
  omega

/-- The events that close a turn. -/
def closing (id : SessionId) (o : TurnOutcome) : List Occurrence :=
  [.published (.stateChanged id (if o.isFinalAnswer then .done else .errored)),
   .published (.turnFinished id o)]

/-- All that can occur once the signal is raised, by the moment at which it
is raised: `before` is what occurred until then, `after` is what occurs from
then on, and the last argument is the outcome.

It is raised before the turn begins; while the backend is asked or before a
question is repeated; by the backend when it answers with a failure after
which the question would be repeated, or with a batch of calls, or with
anything that decides the question; while a batch is run that is then given
up; or by a batch when it is complete. -/
inductive Aftermath (a : Agent σ) (id : SessionId) :
    (before after : List Occurrence) → TurnOutcome → Prop
  | atOnce : Aftermath a id [] (.published (.stateChanged id .idle) ::
      closing id (.ofError .cancelled)) (.ofError .cancelled)
  | asking (os : List Occurrence) (view : List Message) (es : List ProviderError) :
      Aftermath a id (os ++ question id view a.tools.describeAll es)
        (closing id (.ofError .cancelled)) (.ofError .cancelled)
  | pausing (os : List Occurrence) (view : List Message) (es : List ProviderError)
      (repeated : es ≠ []) :
      Aftermath a id (os ++ .published (.stateChanged id .querying) ::
          retrySteps id view a.tools.describeAll 0 es)
        (closing id (.ofError .cancelled)) (.ofError .cancelled)
  | unrepeated (os : List Occurrence) (view : List Message) (es : List ProviderError)
      (e : ProviderError) (passing : e.retryable = true)
      (left : es.length < a.settings.retry.maxRetries) :
      Aftermath a id (os ++ question id view a.tools.describeAll es)
        (.answered (.error e) :: .published (.providerRetry id (es.length + 1) e) ::
          closing id (.ofError .cancelled)) (.ofError .cancelled)
  | discarded (os : List Occurrence) (view : List Message) (es : List ProviderError)
      (requested : List ToolCallRequest) (done : Bool) (u : Option TokenUsage)
      (nonempty : requested ≠ []) :
      Aftermath a id (os ++ question id view a.tools.describeAll es)
        (.answered (.ok (.toolCallBatch requested done u)) :: closing id (.ofError .cancelled))
        (.ofError .cancelled)
  | decided (os : List Occurrence) (q : Inquiry) (o : TurnOutcome) (said : List Occurrence)
      (within : q.Within a.settings.retry.maxRetries) (verdict : verdictOf q.answer = some o)
      (saying : said = [] ∨ ∃ text : NonBlank, o = .finalAnswer text.text ∧
        said = [.recorded [.assistantText text]]) :
      Aftermath a id (os ++ question id q.view a.tools.describeAll q.retried)
        (.answered q.answer :: (said ++ closing id o)) o
  | abandoned (os : List Occurrence) (calls : List ToolCallRequest) (runs : List BatchRun)
      (first : runs.map (·.request) <+: calls) :
      Aftermath a id (os ++ batchStart id calls)
        (.started runs :: closing id (.ofError .cancelled)) (.ofError .cancelled)
  | complete (os : List Occurrence) (calls : List ToolCallRequest) (runs : List BatchRun)
      (results : List ToolCallResult) (whole : Batch.Whole calls runs results true) :
      Aftermath a id (os ++ batchStart id calls)
        (batchEnd id runs results ++ closing id (.ofError .cancelled)) (.ofError .cancelled)

/-- The answer decided its question and made this outcome of the turn, and the
backend raised the signal in the very moment in which it gave it. -/
def RaiserDecides (a : Agent σ) (id : SessionId) (before after : List Occurrence)
    (o : TurnOutcome) : Prop :=
  ∃ os, ∃ q : Inquiry, ∃ rest w, q.Within a.settings.retry.maxRetries ∧
    verdictOf q.answer = some o ∧
    before = os ++ question id q.view a.tools.describeAll q.retried ∧
    after = .answered q.answer :: rest ∧
    (a.provider.complete q.view a.tools.describeAll w).RaisesWith q.answer

namespace Aftermath

variable {σ : Type} {a : Agent σ} {id : SessionId} {before after : List Occurrence}
  {o : TurnOutcome}

/-- Once the signal is raised no request is sent. -/
theorem not_asks (h : Aftermath a id before after o) : ∀ x ∈ after, x.isAsk = false := by
  intro x hx
  cases h with
  | decided os q o said within verdict saying =>
    rcases saying with rfl | ⟨text, -, rfl⟩
    · simp only [closing, List.nil_append, List.mem_cons, List.not_mem_nil, or_false] at hx
      rcases hx with rfl | rfl | rfl <;> rfl
    · simp only [closing, List.cons_append, List.nil_append, List.mem_cons, List.not_mem_nil,
        or_false] at hx
      rcases hx with rfl | rfl | rfl | rfl <;> rfl
  | complete os calls runs results whole =>
    simp only [batchEnd, batchFinish, closing, List.cons_append, List.mem_cons,
      List.mem_append, List.mem_map, List.not_mem_nil, or_false] at hx
    rcases hx with rfl | (⟨r, -, rfl⟩ | rfl) | rfl | rfl <;> rfl
  | _ =>
    simp only [closing, List.mem_cons, List.not_mem_nil, or_false] at hx
    rcases hx with rfl | rfl | rfl | rfl <;> rfl

theorem recordedIn_closing (id : SessionId) (o : TurnOutcome) : recordedIn (closing id o) = [] :=
  rfl

/-- What is recorded once the signal is raised: nothing, or the answer, or
all results of a batch that was complete before the raise. -/
theorem recorded (h : Aftermath a id before after o) :
    recordedIn after = [] ∨
      (∃ text : NonBlank, o = .finalAnswer text.text ∧
        recordedIn after = [.assistantText text]) ∨
      ∃ os calls runs results, before = os ++ batchStart id calls ∧
        Batch.Whole calls runs results true ∧
        recordedIn after = results.map ToolCallResult.toMessage := by
  cases h with
  | decided os q o said within verdict saying =>
    rcases saying with rfl | ⟨text, hanswer, rfl⟩
    · exact Or.inl rfl
    · exact Or.inr (Or.inl ⟨text, hanswer, rfl⟩)
  | complete os calls runs results whole =>
    refine Or.inr (Or.inr ⟨os, calls, runs, results, rfl, whole, ?_⟩)
    rw [recordedIn_append, recordedIn_batchEnd, recordedIn_closing, List.append_nil]
  | _ => exact Or.inl rfl

theorem no_call (h : Aftermath a id before after o) :
    ∀ m ∈ recordedIn after, m.issues? = none := by
  intro m hm
  rcases h.recorded with hnone | ⟨text, -, htext⟩ | ⟨os, calls, runs, results, -, -, hresults⟩
  · rw [hnone] at hm
    cases hm
  · rw [htext, List.mem_singleton] at hm
    rw [hm]
    rfl
  · rw [hresults] at hm
    obtain ⟨r, -, rfl⟩ := List.mem_map.mp hm
    rfl

theorem all_results (h : Aftermath a id before after o)
    (hresult : ∃ m ∈ recordedIn after, m.answers?.isSome) :
    ∃ os calls runs results, before = os ++ batchStart id calls ∧
      Batch.Whole calls runs results true ∧
      recordedIn after = results.map ToolCallResult.toMessage := by
  obtain ⟨m, hm, hanswers⟩ := hresult
  rcases h.recorded with hnone | ⟨text, -, htext⟩ | hwhole
  · rw [hnone] at hm
    cases hm
  · rw [htext, List.mem_singleton] at hm
    rw [hm] at hanswers
    cases hanswers
  · exact hwhole

/-- An aftermath ends with the cancellation of the turn, unless the answer
in which the signal was raised decides the outcome. The signal was raised by the
backend then, as only a backend raises it in the moment of an answer. -/
theorem cancelled_or_decided (h : Aftermath a id before after o)
    (hraiser : ∀ os view specs result rest, before = os ++ [.asked view specs] →
      after = .answered result :: rest →
      ∃ w, (a.provider.complete view specs w).RaisesWith result) :
    (o = .ofError .cancelled ∧ ∀ o', ¬ RaiserDecides a id before after o') ∨
      RaiserDecides a id before after o := by
  cases h with
  | decided os q o said within verdict saying =>
    obtain ⟨w, hraises⟩ := hraiser (os ++ .published (.stateChanged id .querying) ::
      retrySteps id q.view a.tools.describeAll 0 q.retried) q.view a.tools.describeAll
      q.answer _ (by simp [question]) rfl
    exact Or.inr ⟨os, q, _, w, within, verdict, rfl, rfl, hraises⟩
  | atOnce =>
    refine Or.inl ⟨rfl, ?_⟩
    rintro o' ⟨os, q, rest, w, -, -, hbefore, -⟩
    simp [question] at hbefore
  | unrepeated os view es e passing left =>
    refine Or.inl ⟨rfl, ?_⟩
    rintro o' ⟨os', q, rest, w, hwithin, -, hbefore, hafter, -⟩
    -- the question under way is the same, so its repetitions are as many
    have hrepeats := question_inj hbefore
    rw [List.cons.injEq, Occurrence.answered.injEq] at hafter
    have hspent := hwithin.decided e hafter.1.symm passing
    omega
  | discarded os view es requested done u nonempty =>
    refine Or.inl ⟨rfl, ?_⟩
    rintro o' ⟨os', q, rest, w, -, hverdict, -, hafter, -⟩
    rw [List.cons.injEq, Occurrence.answered.injEq] at hafter
    rw [← hafter.1] at hverdict
    cases requested with
    | nil => exact nonempty rfl
    | cons call others => cases hverdict
  | _ =>
    refine Or.inl ⟨rfl, ?_⟩
    rintro o' ⟨os', q, rest, w, -, -, -, hafter, -⟩
    simp [closing, batchEnd] at hafter

end Aftermath

/-! ## A turn under the signal -/

namespace Agent

variable {σ : Type}

/-- Why a turn ends, if it does with a step that comes out so. -/
def outcomeOf : StepResult Verdict → Option TurnOutcome
  | .failed e => some (.ofError e)
  | .next (.finish text) => some (.finalAnswer (text.getD ""))
  | .next (.execute _) => none
  | .never => none

/-- In a turn of this session the signal is not raised. -/
structure Lively (id : SessionId) (t : Turn σ) : Prop where
  low : t.clock.isRaised = false
  session : t.session.id = id
  marked : ∃ os, t.marked = mark false os

/-- A turn of this session can only be cancelled now. -/
structure Doomed (a : Agent σ) (id : SessionId) (t : Turn σ) : Prop where
  raised : t.clock.isRaised = true
  session : t.session.id = id
  marked : ∃ before after, t.marked = mark false before ++ mark true after ∧
    Aftermath a id before (after ++ closing id (.ofError .cancelled)) (.ofError .cancelled)

/-- The signal was raised by an answer that ends the turn with this
outcome. -/
structure Overtaken (a : Agent σ) (id : SessionId) (o : TurnOutcome) (t : Turn σ) : Prop where
  raised : t.clock.isRaised = true
  session : t.session.id = id
  marked : ∃ os, ∃ q : Inquiry, q.Within a.settings.retry.maxRetries ∧ verdictOf q.answer = some o ∧
    t.marked = mark false (os ++ question id q.view a.tools.describeAll q.retried) ++
      mark true [.answered q.answer]

variable {a : Agent σ} {t t' : Turn σ} {id : SessionId}

theorem unraised_append {os os' : List Occurrence} (h : t.marked = mark false os)
    (h' : t'.marked = t.marked ++ mark false os') : ∃ os, t'.marked = mark false os :=
  ⟨os ++ os', by rw [h', h, mark_append]⟩

/-! ### A question -/

theorem assignId_marks {seen : List CallId} {call call' : ToolCallRequest}
    (h : a.assignId seen call t = (t', call')) :
    ∃ os, t.Marks (mark t.clock.isRaised os) t' ∧ t'.clock = t.clock := by
  unfold assignId at h
  split at h
  · cases h
    exact ⟨[.assigned _ true], ⟨rfl, Turn.marked_note _ _⟩, rfl⟩
  · cases h
    exact ⟨[.assigned call.callId false], ⟨rfl, Turn.marked_note _ _⟩, rfl⟩

theorem prepareCalls_marks {seen : List CallId} {requested : List ToolCallRequest}
    {r : Except MessageError (List ToolCallRequest × List Message)}
    (h : a.prepareCalls seen requested t = (t', r)) :
    ∃ os, t.Marks (mark t.clock.isRaised os) t' ∧ t'.clock = t.clock := by
  induction requested generalizing seen t t' r with
  | nil =>
    cases h
    exact ⟨[], .refl t, rfl⟩
  | cons call rest ih =>
    rw [prepareCalls] at h
    cases hassign : a.assignId seen call t with | mk t₁ call₁
    obtain ⟨os, hmarks, hclock⟩ := assignId_marks hassign
    rw [hassign] at h
    dsimp only at h
    split at h
    · cases h
      exact ⟨os, hmarks, hclock⟩
    · cases hrest : a.prepareCalls (call₁.callId :: seen) rest t₁ with | mk t₂ r₂
      obtain ⟨os', hmarks', hclock'⟩ := ih hrest
      rw [hrest] at h
      have hboth : t.Marks (mark t.clock.isRaised (os ++ os')) t₂ := by
        rw [hclock] at hmarks'
        rw [mark_append]
        exact hmarks.trans hmarks'
      cases r₂ <;> cases h <;> exact ⟨os ++ os', hboth, hclock'.trans hclock⟩

theorem recordCalls_low {requested : List ToolCallRequest} {r : StepResult Verdict}
    (low : t.clock.isRaised = false) (h : a.recordCalls requested t = (t', r)) :
    t'.clock.isRaised = false ∧ (∃ os, t'.marked = t.marked ++ mark false os) ∧
      r ≠ .failed .cancelled := by
  unfold recordCalls at h
  rw [low, if_neg Bool.false_ne_true] at h
  cases hprepare : a.prepareCalls [] requested t with | mk t₁ r₁
  obtain ⟨os, hmarks, hclock⟩ := prepareCalls_marks hprepare
  rw [low] at hmarks
  have hlow : t₁.clock.isRaised = false := by rw [hclock, low]
  rw [hprepare] at h
  cases r₁ with
  | error e =>
    cases h
    exact ⟨hlow, ⟨os, hmarks.marked⟩, by simp⟩
  | ok prepared =>
    dsimp only at h
    unfold Turn.record at h
    cases happend : t₁.session.appendAll prepared.2 with
    | error e =>
      rw [happend] at h
      cases h
      refine ⟨hlow, ⟨os ++ [.refused e], ?_⟩, by simp [AppendError.toAgentError]⟩
      rw [Turn.marked_note, hlow, hmarks.marked, mark_append, List.append_assoc]
    | ok s =>
      rw [happend] at h
      cases h
      refine ⟨hlow, ⟨os ++ [.recorded prepared.2], ?_⟩, by simp⟩
      rw [Turn.marked_note, Turn.marked_with_session, hmarks.marked, mark_append,
        List.append_assoc]
      show _ ++ (_ ++ mark t₁.clock.isRaised _) = _
      rw [hlow]

/-- A reply that is taken in while the signal is not raised. -/
theorem acceptReply_low {reply : ProviderReply} {r : StepResult Verdict}
    (low : t.clock.isRaised = false) (h : a.acceptReply reply t = (t', r)) :
    t'.clock.isRaised = false ∧ (∃ os, t'.marked = t.marked ++ mark false os) ∧
      r ≠ .failed .cancelled := by
  have hcount : ∀ u, (t.count u).clock.isRaised = false ∧
      ∃ os, (t.count u).marked = t.marked ++ mark false os := by
    intro u
    exact ⟨by rw [Turn.clock_count, low], [], by simp⟩
  cases reply with
  | finalAnswer text u =>
    simp only [acceptReply, ProviderReply.usage?] at h
    split at h <;> cases h <;> exact ⟨(hcount u).1, (hcount u).2, by simp⟩
  | toolCallBatch requested done u =>
    cases requested with
    | nil => cases done <;> cases h <;> exact ⟨(hcount u).1, (hcount u).2, by simp⟩
    | cons call rest =>
      have hrecord : a.recordCalls (call :: rest) (t.count u) = (t', r) := h
      rw [← Turn.marked_count t u]
      exact recordCalls_low (hcount u).1 hrecord

/-- A reply that is taken in when the signal is raised decides the turn,
unless it is a batch with calls. -/
theorem acceptReply_raised {reply : ProviderReply} {r : StepResult Verdict}
    (raised : t.clock.isRaised = true) (h : a.acceptReply reply t = (t', r)) :
    t'.clock = t.clock ∧ t'.marked = t.marked ∧
      ((∃ o, verdictOf (.ok reply) = some o ∧ outcomeOf r = some o) ∨
        r = .failed .cancelled ∧ ∃ requested done u,
          reply = .toolCallBatch requested done u ∧ requested ≠ []) := by
  cases reply with
  | finalAnswer text u =>
    simp only [acceptReply, ProviderReply.usage?] at h
    split at h
    · rename_i hblank
      cases h
      refine ⟨Turn.clock_count t u, Turn.marked_count t u, Or.inl ⟨_, ?_, rfl⟩⟩
      rw [verdictOf, if_pos hblank]
    · rename_i hsaid
      cases h
      refine ⟨Turn.clock_count t u, Turn.marked_count t u, Or.inl ⟨_, ?_, rfl⟩⟩
      rw [verdictOf, if_neg hsaid]
      rfl
  | toolCallBatch requested done u =>
    cases requested with
    | nil =>
      cases done <;> cases h <;>
        exact ⟨Turn.clock_count t u, Turn.marked_count t u, Or.inl ⟨_, rfl, rfl⟩⟩
    | cons call rest =>
      have hcount : (t.count u).clock.isRaised = true := by
        rw [Turn.clock_count, raised]
      have hrecord : a.recordCalls (call :: rest) (t.count u) = (t', r) := h
      rw [recordCalls, if_pos hcount] at hrecord
      cases hrecord
      exact ⟨Turn.clock_count t u, Turn.marked_count t u,
        Or.inr ⟨rfl, _, done, u, rfl, by simp⟩⟩

/-- How a raise meets a question: not at all, or so that the turn is
cancelled, or in an answer that ends the turn. -/
theorem query_cut {r : StepResult Verdict} (h : a.query t = (t', r))
    (lively : Lively id t) :
    Lively id t' ∧ r ≠ .failed .cancelled ∨
      Doomed a id t' ∧ r = .failed .cancelled ∨
      ∃ o, Overtaken a id o t' ∧ outcomeOf r = some o := by
  obtain ⟨low, hid, before, hmarked⟩ := lively
  have hsession : t'.session.id = id := by
    rw [(query_exchanged h).id, hid]
  unfold query at h
  dsimp only at h
  have henter : (t.enter .querying).marked =
      mark false (before ++ [.published (.stateChanged id .querying)]) := by
    rw [Turn.marked_enter, low, hid, hmarked, mark_append]
  generalize ht₀ : t.enter .querying = t₀ at h henter
  have hlow₀ : t₀.clock.isRaised = false := by rw [← ht₀, Turn.clock_enter, low]
  have hid₀ : t₀.session.id = id := by rw [← ht₀, Turn.session_enter, hid]
  generalize a.view t₀.session = view at h
  cases hrequest : a.request a.settings.retry.backoff view a.tools.describeAll
    a.settings.retry.maxRetries 0 t₀ with | mk t₁ r₁
  rw [hrequest] at h
  obtain ⟨es, hheard⟩ := request_heard hlow₀ hrequest
  have hasked : ∀ es, before ++ [.published (.stateChanged id .querying)] ++
      (retrySteps id view a.tools.describeAll 0 es ++ [.asked view a.tools.describeAll]) =
      before ++ question id view a.tools.describeAll es := by
    intro es
    simp [question]
  cases hheard with
  | never repeats low₁ marks =>
    cases h
    exact Or.inl ⟨⟨low₁, hsession, unraised_append henter marks.marked⟩, by simp⟩
  | @cut es os repeats short raised marks =>
    cases h
    refine Or.inr (Or.inl ⟨⟨raised, hsession, ?_⟩, rfl⟩)
    rcases short with ⟨rfl, hrepeated⟩ | rfl
    · refine ⟨_, [], ?_, .pausing before view es hrepeated⟩
      rw [marks.marked, henter, hid₀, ← mark_append]
      simp
    · refine ⟨_, [], ?_, .asking before view es⟩
      rw [marks.marked, henter, hid₀, ← mark_append, hasked]
      simp
  | unrepeated es e repeats passing raised marks =>
    cases h
    refine Or.inr (Or.inl ⟨⟨raised, hsession, ?_⟩, rfl⟩)
    refine ⟨_, [.answered (.error e), .published (.providerRetry id (es.length + 1) e)], ?_,
      .unrepeated before view es e passing repeats⟩
    rw [marks.marked, henter, hid₀, ← List.append_assoc, ← mark_append, hasked, Nat.zero_add]
  | @decided es answer repeats passing final marks =>
    have hwithin : (⟨view, es, answer⟩ : Inquiry).Within a.settings.retry.maxRetries :=
      ⟨repeats, passing, final⟩
    have hanswered := marks.marked
    rw [henter, hid₀, ← List.append_assoc, ← mark_append, hasked] at hanswered
    cases hsignal : t₁.clock.isRaised with
    | false =>
      rw [hsignal, ← mark_append] at hanswered
      cases answer with
      | error e =>
        cases h
        exact Or.inl ⟨⟨hsignal, hsession, _, hanswered⟩, by simp⟩
      | ok reply =>
        obtain ⟨hlow, ⟨os, hmarks⟩, hne⟩ := acceptReply_low hsignal h
        exact Or.inl ⟨⟨hlow, hsession, unraised_append hanswered hmarks⟩, hne⟩
    | true =>
      rw [hsignal] at hanswered
      cases answer with
      | error e =>
        cases h
        exact Or.inr (Or.inr ⟨_, ⟨hsignal, hsession, before, _, hwithin, rfl, hanswered⟩, rfl⟩)
      | ok reply =>
        obtain ⟨hclock, hmarks, hcase⟩ := acceptReply_raised hsignal h
        have hraised : t'.clock.isRaised = true := by rw [hclock, hsignal]
        rw [← hmarks] at hanswered
        rcases hcase with ⟨o, hverdict, houtcome⟩ | ⟨rfl, requested, done, u, rfl, hne⟩
        · exact Or.inr (Or.inr
            ⟨o, ⟨hraised, hsession, before, _, hwithin, hverdict, hanswered⟩, houtcome⟩)
        · exact Or.inr (Or.inl ⟨⟨hraised, hsession, _, [.answered _], hanswered,
            .discarded before view es requested done u hne⟩, rfl⟩)

/-! ### A batch -/

/-- How a raise meets a batch: not at all, or so that the turn is cancelled,
at once or behind the batch. -/
theorem execute_cut {calls : List ToolCallRequest} {r : StepResult Unit}
    (h : a.execute calls t = (t', r)) (lively : Lively id t)
    (hwaits : t.session.Waits (calls.map (·.callId))) :
    Lively id t' ∧ (∀ e, r ≠ .failed e) ∨
      Doomed a id t' ∧ (r = .failed .cancelled ∨ r = .next ()) := by
  obtain ⟨low, hid, before, hmarked⟩ := lively
  have hsession : t'.session.id = id := by
    rw [(execute_exchanged h).id, hid]
  cases execute_ran h with
  | never runs first stuck low₁ marks =>
    have hmarks := marks.marked
    rw [low, ← mark_append] at hmarks
    exact Or.inl ⟨⟨low₁, hsession, unraised_append hmarked hmarks⟩, by simp⟩
  | cancelled runs first raised marks =>
    refine Or.inr ⟨⟨raised, hsession, _, [.started runs], ?_,
      .abandoned before calls runs first⟩, Or.inl rfl⟩
    rw [marks.marked, hmarked, low, hid, mark_append, List.append_assoc]
  | refused runs results e whole refused marks =>
    exact absurd refused (refuses_no_results hwaits whole e)
  | recorded runs results whole recorded marked =>
    cases hsignal : t'.clock.isRaised with
    | false =>
      rw [low, hsignal, ← mark_append] at marked
      exact Or.inl ⟨⟨hsignal, hsession, unraised_append hmarked marked⟩, by simp⟩
    | true =>
      rw [hsignal] at whole
      refine Or.inr ⟨⟨hsignal, hsession, _, _, ?_, .complete before calls runs results whole⟩,
        Or.inr rfl⟩
      rw [marked, hmarked, low, hid, hsignal, mark_append, List.append_assoc]

/-! ### The end of a turn -/

/-- How the signal stands at the end of a turn: it is not raised and the turn
was not cancelled, or it is raised and there is an aftermath. -/
inductive Settling (a : Agent σ) (id : SessionId) (e : Ended σ) : Prop
  | low (low : e.1.clock.isRaised = false) (marked : ∃ os, e.1.marked = mark false os)
      (alive : ∀ message, e.2 ≠ some (.errored .cancelled message))
  | raised (raised : e.1.clock.isRaised = true) (o : TurnOutcome) (ended : e.2 = some o)
      (marked : ∃ before after, e.1.marked = mark false before ++ mark true after ∧
        Aftermath a id before after o)
      (failed : o.isFinalAnswer = false → e.1.session.status = .failed)

theorem marked_fail (t : Turn σ) (e : AgentError) :
    (t.fail e).1.marked =
      t.marked ++ mark t.clock.isRaised (closing t.session.id (.ofError e)) := by
  simp [Turn.fail, closing, mark, TurnOutcome.isFinalAnswer, TurnOutcome.ofError,
    Session.markFailed]

theorem marked_complete (t : Turn σ) (text : String) :
    (t.complete text).1.marked =
      t.marked ++ mark t.clock.isRaised (closing t.session.id (.finalAnswer text)) := by
  simp [Turn.complete, closing, mark, TurnOutcome.isFinalAnswer]

theorem turnKind_ne_cancelled {e : AgentError} (h : e ≠ .cancelled) :
    e.turnKind ≠ .cancelled := by
  cases e <;> simp_all [AgentError.turnKind]

theorem Lively.fail {e : AgentError} (h : Lively id t) (hne : e ≠ .cancelled) :
    Settling a id (ended (t.fail e)) := by
  obtain ⟨low, hid, os, hmarked⟩ := h
  have hclosed := marked_fail t e
  rw [low] at hclosed
  refine .low low (unraised_append hmarked hclosed) ?_
  rintro message hend
  simp only [ended, Turn.snd_fail, TurnOutcome.ofError, Option.some.injEq,
    TurnOutcome.errored.injEq] at hend
  exact turnKind_ne_cancelled hne hend.1

theorem Doomed.fail (h : Doomed a id t) : Settling a id (ended (t.fail .cancelled)) := by
  obtain ⟨raised, hid, before, after, hmarked, haftermath⟩ := h
  refine .raised raised _ rfl ⟨before, _, ?_, haftermath⟩ fun _ => rfl
  rw [ended, marked_fail, hmarked, raised, hid, List.append_assoc, ← mark_append]

theorem Overtaken.fail {o : TurnOutcome} {e : AgentError} (h : Overtaken a id o t)
    (houtcome : outcomeOf (.failed e) = some o) : Settling a id (ended (t.fail e)) := by
  obtain ⟨raised, hid, os, q, hwithin, hverdict, hmarked⟩ := h
  cases houtcome
  refine .raised raised _ rfl ⟨_, _, ?_, .decided os q _ [] hwithin hverdict (Or.inl rfl)⟩
    fun _ => rfl
  rw [ended, marked_fail, hmarked, raised, hid, List.append_assoc, ← mark_append]
  rfl

theorem Lively.complete (h : Lively id t) (text : String) :
    Settling a id (ended (t.complete text)) := by
  obtain ⟨low, hid, os, hmarked⟩ := h
  have hclosed := marked_complete t text
  rw [low] at hclosed
  exact .low low (unraised_append hmarked hclosed) (by rintro message ⟨⟩)

theorem Lively.recorded {ms : List Message} {s : Session} (h : Lively id t)
    (ok : t.session.appendAll ms = .ok s) :
    Lively id (({ t with session := s } : Turn σ).note (.recorded ms)) := by
  obtain ⟨low, hid, os, hmarked⟩ := h
  have hnoted := Turn.marked_note ({ t with session := s } : Turn σ) (.recorded ms)
  rw [Turn.marked_with_session] at hnoted
  change _ = _ ++ mark t.clock.isRaised _ at hnoted
  rw [low] at hnoted
  exact ⟨low, (Session.id_of_appendAll ok).trans hid, unraised_append hmarked hnoted⟩

/-- The answer in which the signal was raised is recorded all the same. -/
theorem Overtaken.complete_some {text : NonBlank} {s : Session}
    (h : Overtaken a id (.finalAnswer text.text) t)
    (ok : t.session.appendAll [.assistantText text] = .ok s) :
    Settling a id (ended ((({ t with session := s } : Turn σ).note
      (.recorded [.assistantText text])).complete text.text)) := by
  obtain ⟨raised, hid, os, q, hwithin, hverdict, hmarked⟩ := h
  have hsaid : s.id = id := (Session.id_of_appendAll ok).trans hid
  refine .raised raised _ rfl ⟨_, _, ?_,
    .decided os q _ [.recorded [.assistantText text]] hwithin hverdict (Or.inr ⟨text, rfl, rfl⟩)⟩
    (by rintro ⟨⟩)
  rw [ended, marked_complete, Turn.marked_note, Turn.marked_with_session, hmarked]
  show _ ++ mark t.clock.isRaised _ ++ mark t.clock.isRaised (closing s.id _) = _
  rw [raised, hsaid, List.append_assoc, List.append_assoc, ← mark_append, ← mark_append]
  rfl

theorem Overtaken.complete_none (h : Overtaken a id (.finalAnswer "") t) :
    Settling a id (ended (t.complete "")) := by
  obtain ⟨raised, hid, os, q, hwithin, hverdict, hmarked⟩ := h
  refine .raised raised _ rfl ⟨_, _, ?_, .decided os q _ [] hwithin hverdict (Or.inl rfl)⟩
    (by rintro ⟨⟩)
  rw [ended, marked_complete, hmarked, raised, hid, List.append_assoc, ← mark_append]
  rfl

/-- A turn that ends with an answer. -/
theorem settling_of_finish {text : Option String} (hquiet : t.session.Quiet)
    (h : a.query t = (t', .next (.finish text)))
    (hstate : Lively id t' ∨ Overtaken a id (.finalAnswer (text.getD "")) t') :
    Settling a id (ended (t'.finish text)) := by
  obtain ⟨q, hfinished⟩ := (query_cases h).finished
  cases text with
  | none =>
    rcases hstate with lively | overtaken
    · exact lively.complete ""
    · exact overtaken.complete_none
  | some text =>
    obtain ⟨s, ok, hfinish⟩ := finish_some (hfinished.quiet hquiet) hfinished.said
    rw [hfinish]
    rcases hstate with lively | overtaken
    · exact (lively.recorded ok).complete text
    · exact @Overtaken.complete_some _ a t' id ⟨text, hfinished.said⟩ s overtaken ok

theorem Exit.settling {left : Nat} {e : Ended σ} (h : Exit a left t e)
    (hquiet : t.session.Quiet) (hstate : Lively id t ∨ Doomed a id t) : Settling a id e := by
  have hlively : t.clock.isRaised = false → Lively id t := by
    intro hlow
    rcases hstate with lively | doomed
    · exact lively
    · rw [doomed.raised] at hlow
      cases hlow
  cases h with
  | cancelled raised =>
    rcases hstate with lively | doomed
    · rw [lively.low] at raised
      cases raised
    · exact doomed.fail
  | exhausted low => exact (hlively low).fail (by simp)
  | unanswered low queried =>
    rcases query_cut queried (hlively low) with ⟨lively, -⟩ | ⟨-, hr⟩ | ⟨o, -, houtcome⟩
    · exact .low lively.low lively.marked (by simp)
    · cases hr
    · cases houtcome
  | failed low queried =>
    rcases query_cut queried (hlively low) with ⟨lively, hne⟩ | ⟨doomed, hr⟩ |
      ⟨o, overtaken, houtcome⟩
    · exact lively.fail fun he => hne (by rw [he])
    · cases hr
      exact doomed.fail
    · exact overtaken.fail houtcome
  | finished low queried =>
    rcases query_cut queried (hlively low) with ⟨lively, -⟩ | ⟨-, hr⟩ |
      ⟨o, overtaken, houtcome⟩
    · exact settling_of_finish hquiet queried (Or.inl lively)
    · cases hr
    · cases houtcome
      exact settling_of_finish hquiet queried (Or.inr overtaken)
  | stuck low queried executed =>
    rcases query_cut queried (hlively low) with ⟨lively, -⟩ | ⟨-, hr⟩ | ⟨o, -, houtcome⟩
    · rcases execute_cut (a := a) executed lively (waits_of_query hquiet queried) with
        ⟨lively, -⟩ | ⟨-, hr | hr⟩
      · exact .low lively.low lively.marked (by simp)
      · cases hr
      · cases hr
    · cases hr
    · cases houtcome
  | abandoned low queried executed =>
    rcases query_cut queried (hlively low) with ⟨lively, -⟩ | ⟨-, hr⟩ | ⟨o, -, houtcome⟩
    · rcases execute_cut (a := a) executed lively (waits_of_query hquiet queried) with
        ⟨-, hne⟩ | ⟨doomed, hr | hr⟩
      · exact absurd rfl (hne _)
      · cases hr
        exact doomed.fail
      · cases hr
    · cases hr
    · cases houtcome

theorem Cycle.lively_or_doomed {t₁ : Turn σ} {calls : List ToolCallRequest}
    (h : Cycle a t t₁ calls t') (hstate : Lively id t ∨ Doomed a id t) :
    Lively id t' ∨ Doomed a id t' := by
  rcases hstate with lively | doomed
  · rcases query_cut h.queried lively with ⟨lively, -⟩ | ⟨-, hr⟩ | ⟨o, -, houtcome⟩
    · exact (execute_cut h.executed lively h.waits).imp And.left And.left
    · cases hr
    · cases houtcome
  · have hlow := h.low
    rw [doomed.raised] at hlow
    cases hlow

theorem loop_settling {left : Nat} (hquiet : t.session.Quiet)
    (hstate : Lively id t ∨ Doomed a id t) : Settling a id (a.loop left t) :=
  loop_rule (P := fun _ t => Lively id t ∨ Doomed a id t) (Q := Settling a id)
    (fun _ _ _ hstate hquiet hexit => hexit.settling hquiet hstate)
    (fun _ _ _ _ _ hstate hcycle => hcycle.lively_or_doomed hstate) hquiet hstate

/-! ## A whole turn -/

theorem marked_opening (s : Session) (c : Clock) (w : σ) :
    (opening s c w).marked = mark c.isRaised [.published (.stateChanged s.id .idle)] := rfl

theorem lively_opening (s : Session) {c : Clock} (w : σ) (low : c.isRaised = false) :
    Lively s.id (opening s c w) := by
  refine ⟨low, Session.id_resume, [.published (.stateChanged s.id .idle)], ?_⟩
  rw [marked_opening, low]

theorem doomed_opening (a : Agent σ) (s : Session) {c : Clock} (w : σ)
    (raised : c.isRaised = true) : Doomed a s.id (opening s c w) := by
  refine ⟨raised, Session.id_resume, [], [.published (.stateChanged s.id .idle)], ?_, .atOnce⟩
  rw [marked_opening, raised]
  rfl

theorem runTurn_settling (a : Agent σ) {s : Session} (c : Clock) (w : σ) (h : s.Reachable)
    (hfit : s.canBegin = true) : Settling a s.id (a.runTurn s c w) := by
  have hbegun := runTurn_begun a h c w
  generalize a.runTurn s c w = e at hbegun
  cases hbegun with
  | rejected unfit =>
    rw [hfit] at unfit
    cases unfit
  | cancelled fit pending raised => exact (doomed_opening a s w raised).fail
  | stuck fit pending low executed =>
    rcases execute_cut (a := a) executed (lively_opening s w low)
      (waits_pendingRequests h pending) with ⟨lively, -⟩ | ⟨-, hr | hr⟩
    · exact .low lively.low lively.marked (by simp)
    · cases hr
    · cases hr
  | abandoned fit pending low executed =>
    rcases execute_cut (a := a) executed (lively_opening s w low)
      (waits_pendingRequests h pending) with ⟨-, hne⟩ | ⟨doomed, hr | hr⟩
    · exact absurd rfl (hne _)
    · cases hr
      exact doomed.fail
    · cases hr
  | resumed fit pending low executed =>
    have hwaits := waits_pendingRequests h pending
    refine loop_settling ((execute_ran executed).quiet hwaits) ?_
    exact (execute_cut executed (lively_opening s w low) hwaits).imp And.left And.left
  | asked fit none quiet =>
    refine loop_settling quiet ?_
    cases hsignal : c.isRaised with
    | false => exact Or.inl (lively_opening s w hsignal)
    | true => exact Or.inr (doomed_opening a s w hsignal)

/-- What holds of a turn under the signal that begins at a clock; `before` is what
occurred until the signal was raised, `after` is what occurred from then on.

The signal is raised when it is due or when a backend or a tool raises it, and at no
other time: the turn is a course in time, which ends no later than the signal is
due, and from the raise on no time passes.

If the signal is raised the turn ends, and what it still did is an aftermath
of the moment of the raise. It was cancelled, unless the answer in which the
backend raised the signal decided the outcome. From the raise on
no request was sent and no call was recorded, and results only if they are
all results of a batch that was complete by then. -/
structure Heeds (a : Agent σ) (s : Session) (c : Clock) (e : Ended σ)
    (before after : List Occurrence) : Prop where
  timed : Timed a c e.1.timeline e.1.clock
  in_time : ∀ due, c.signal = .lowered (some due) → e.1.clock.now ≤ max c.now due
  still : ∀ p ∈ e.1.timeline, p.1.isRaised = true → e.1.clock = p.1
  marked : e.1.marked = mark false before ++ mark true after
  history : e.1.session.history = s.history ++ recordedIn before ++ recordedIn after
  unraised : e.1.clock.isRaised = false →
    after = [] ∧ ∀ message, e.2 ≠ some (.errored .cancelled message)
  raised : e.1.clock.isRaised = true → ∃ o, e.2 = some o ∧ Aftermath a s.id before after o ∧
    (RaiserDecides a s.id before after o ∨ o = .ofError .cancelled ∧
      e.1.session.status = .failed ∧ ∀ o', ¬ RaiserDecides a s.id before after o')
  no_request : ∀ o ∈ after, o.isAsk = false
  no_call : ∀ m ∈ recordedIn after, m.issues? = none
  all_results : (∃ m ∈ recordedIn after, m.answers?.isSome) →
    ∃ os calls runs results, before = os ++ batchStart s.id calls ∧
      Batch.Whole calls runs results true ∧
      recordedIn after = results.map ToolCallResult.toMessage

/-- An agent whose backend takes some milliseconds for its answer. -/
def answeringAfter (ms : Nat) (answer : ProviderResult) : Agent (Nat × Nat) :=
  { replaying [] with
    provider := { name := "slow", complete := fun _ _ w => .wait w ms (.done w answer) } }

/-- An answer that would come after the signal is due does not come. -/
example :
    let e := (answeringAfter 1000 (.ok (.finalAnswer "late" none))).runTurn halfAnswered
      ⟨0, .lowered (some 10)⟩ (0, 7)
    e.2 = some (.ofError .cancelled) ∧ e.1.clock = ⟨10, .raised⟩ := by
  decide +kernel

/-- An agent whose backend raises the signal in the moment in which it
answers. -/
def raising (answer : ProviderResult) : Agent (Nat × Nat) :=
  { replaying [] with
    provider := { name := "raise", complete := fun _ _ w => .raise (.done w answer) } }

end Agent

end AgentLoop
