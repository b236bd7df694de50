/-
AgentLoop.Proofs.Turn.Phases — the events that a turn publishes.

* `eventsOf`, `statesOf`, `outcomesOf` — events of a trace, and of these the
  states that are entered and the outcomes that are told
* `LoopState.Moves` — the steps from state to state
* `Phase` — a stay in one of the two states in which a turn works, with the
  events of that stay
* `query_walk`, `execute_walk` — each step adds the events of one phase

A phase says all there is to say of a stay in a state: the numbers of the
repetitions and the pairing of the events of a batch are read off it. A
question that is cut short and one that is answered are the same to it,
while a batch that is cut short has no results.
-/
import Mathlib.Data.List.Chain
import AgentLoop.Proofs.Turn.Loop
import AgentLoop.Proofs.Turn.Rejection

namespace AgentLoop

/-! ## Events -/

/-- The events of a trace. -/
def eventsOf (os : List Occurrence) : List AgentEvent :=
  os.filterMap fun
    | .published e => some e
    | _ => none

/-- The states that are entered. -/
def statesOf (es : List AgentEvent) : List LoopState :=
  es.filterMap fun
    | .stateChanged _ state => some state
    | _ => none

/-- The outcomes that are told. -/
def outcomesOf (es : List AgentEvent) : List TurnOutcome :=
  es.filterMap fun
    | .turnFinished _ o => some o
    | _ => none

/-- The batches whose calls were recorded. -/
def recordedBatches (os : List Occurrence) : List (List ToolCallRequest) :=
  os.filterMap fun
    | .recorded ms =>
      if ms.filterMap Agent.requestOf? = [] then none else some (ms.filterMap Agent.requestOf?)
    | _ => none

@[simp] theorem eventsOf_append (os os' : List Occurrence) :
    eventsOf (os ++ os') = eventsOf os ++ eventsOf os' := List.filterMap_append

@[simp] theorem statesOf_append (es es' : List AgentEvent) :
    statesOf (es ++ es') = statesOf es ++ statesOf es' := List.filterMap_append

@[simp] theorem outcomesOf_append (es es' : List AgentEvent) :
    outcomesOf (es ++ es') = outcomesOf es ++ outcomesOf es' := List.filterMap_append

@[simp] theorem recordedBatches_append (os os' : List Occurrence) :
    recordedBatches (os ++ os') = recordedBatches os ++ recordedBatches os' :=
  List.filterMap_append

/-- The steps from state to state. A turn that begins goes on to run tools
only if calls are pending. -/
inductive LoopState.Moves (pending : Prop) : LoopState → LoopState → Prop
  | ask : Moves pending .idle .querying
  | resume (open_calls : pending) : Moves pending .idle .executingTools
  | reject : Moves pending .idle .errored
  | call : Moves pending .querying .executingTools
  | answer : Moves pending .querying .done
  | fail : Moves pending .querying .errored
  | report : Moves pending .executingTools .querying
  | abandon : Moves pending .executingTools .errored

/-! ## Phases -/

/-- A stay in a state in which a turn works: a question, with the failures
after which it was repeated, or a batch, with its results if it has any. -/
inductive Phase where
  | asking (retried : List ProviderError)
  | running (calls : List ToolCallRequest) (results : Option (List ToolCallResult))

namespace Phase

/-- The state of a phase. -/
def state : Phase → LoopState
  | .asking _ => .querying
  | .running .. => .executingTools

/-- The calls of a phase. -/
def calls? : Phase → Option (List ToolCallRequest)
  | .asking _ => none
  | .running calls _ => some calls

/-- The repetitions of a question are numbered from one on. -/
def retryEvents (id : SessionId) (es : List ProviderError) (first : Nat) : List AgentEvent :=
  (es.zipIdx first).map fun p => .providerRetry id p.2 p.1

/-- The events of a phase. -/
def events (id : SessionId) : Phase → List AgentEvent
  | .asking retried => .stateChanged id .querying :: retryEvents id retried 1
  | .running calls results =>
    .stateChanged id .executingTools ::
      (calls.map (fun c => .toolCallStarted id c.callId c.toolName) ++
        (results.getD []).map fun r => .toolCallFinished id r.callId r.status)

/-- A phase that came to its end: a question that was repeated within its
budget, or a batch with one result for each call, in the order of the
calls. -/
def Complete (budget : Nat) : Phase → Prop
  | .asking retried => retried.length ≤ budget
  | .running _ none => False
  | .running calls (some results) => results.map (·.callId) = calls.map (·.callId)

@[simp] theorem statesOf_events (id : SessionId) (p : Phase) :
    statesOf (p.events id) = [p.state] := by
  cases p with
  | asking retried =>
    have hnone : statesOf (retryEvents id retried 1) = [] := by
      simp [statesOf, retryEvents, List.filterMap_map]
    show _ :: statesOf (retryEvents id retried 1) = _
    rw [hnone]
    rfl
  | running calls results =>
    simp [statesOf, events, state, List.filterMap_append, List.filterMap_map]

@[simp] theorem outcomesOf_events (id : SessionId) (p : Phase) :
    outcomesOf (p.events id) = [] := by
  cases p with
  | asking retried =>
    simp [outcomesOf, events, retryEvents, List.filterMap_map]
  | running calls results =>
    simp [outcomesOf, events, List.filterMap_append, List.filterMap_map]

end Phase

/-- The events that close a turn, unless it never ends. -/
def closingEvents (id : SessionId) : Option TurnOutcome → List AgentEvent
  | none => []
  | some o =>
    [.stateChanged id (if o.isFinalAnswer then .done else .errored), .turnFinished id o]

/-! ## What each step publishes -/

theorem eventsOf_retrySteps (id : SessionId) (view : List Message) (specs : List ToolSpec)
    (retry : Nat) (es : List ProviderError) :
    eventsOf (retrySteps id view specs retry es) = Phase.retryEvents id es (retry + 1) := by
  induction es generalizing retry with
  | nil => rfl
  | cons e rest ih =>
    show .providerRetry id (retry + 1) e :: eventsOf (retrySteps id view specs (retry + 1) rest) = _
    rw [ih]
    rfl

theorem recordedBatches_eq_nil {os : List Occurrence}
    (h : ∀ o ∈ os, ∀ ms, o = .recorded ms → ms.filterMap Agent.requestOf? = []) :
    recordedBatches os = [] := by
  rw [recordedBatches, List.filterMap_eq_nil_iff]
  intro o ho
  cases o with
  | recorded ms => simp [h _ ho ms rfl]
  | _ => rfl

theorem recordedBatches_recorded {ms : List Message} {calls : List ToolCallRequest}
    (h : ms.filterMap Agent.requestOf? = calls) :
    recordedBatches [.recorded ms] = if calls = [] then [] else [calls] := by
  subst h
  rw [recordedBatches, List.filterMap_cons]
  dsimp only
  split
  · rename_i hnone
    split at hnone
    · rename_i hnil
      rw [if_pos hnil]
      rfl
    · cases hnone
  · rename_i calls hsome
    split at hsome
    · cases hsome
    · rename_i hne
      cases hsome
      rw [if_neg hne]
      rfl

theorem recordedBatches_of_dialogue {os : List Occurrence}
    (h : ∀ o ∈ os, o.isDialogue = true) : recordedBatches os = [] := by
  apply recordedBatches_eq_nil
  rintro o ho ms rfl
  have hdialogue := h _ ho
  cases hdialogue

theorem requestOf?_toMessage (results : List ToolCallResult) :
    (results.map ToolCallResult.toMessage).filterMap Agent.requestOf? = [] := by
  rw [List.filterMap_map]
  exact List.filterMap_eq_nil_iff.mpr fun _ _ => rfl

namespace Turn

variable {σ : Type} {t t' : Turn σ}

theorem events_eq (t : Turn σ) : t.events = eventsOf t.trace := rfl

theorem events_of_trace {os : List Occurrence} (h : t'.trace = t.trace ++ os) :
    t'.events = t.events ++ eventsOf os := by
  rw [events_eq, h, eventsOf_append, ← events_eq]

end Turn

namespace Agent

variable {σ : Type} {a : Agent σ} {t t' : Turn σ}

theorem Heard.walk {view : List Message} {specs : List ToolSpec} {left retry : Nat}
    {es : List ProviderError} {r : StepResult ProviderReply}
    (h : Heard view specs left retry t t' es r) :
    t'.events = t.events ++ Phase.retryEvents t.session.id es (retry + 1) ∧
      recordedBatches t'.trace = recordedBatches t.trace ∧ es.length ≤ left := by
  have hsteps : ∀ es, recordedBatches (retrySteps t.session.id view specs retry es) = [] :=
    fun es => recordedBatches_of_dialogue isDialogue_retrySteps
  cases h with
  | decided answer repeats passing final marks =>
    have htrace := marks.trace
    rw [List.map_append, map_snd_mark, map_snd_mark] at htrace
    refine ⟨?_, ?_, repeats⟩
    · rw [Turn.events_of_trace htrace, eventsOf_append, eventsOf_append, eventsOf_retrySteps]
      simp [eventsOf]
    · rw [htrace]
      simp only [recordedBatches_append, hsteps]
      simp [recordedBatches]
  | unrepeated es e repeats passing raised marks =>
    have htrace := marks.trace
    rw [List.map_append, map_snd_mark, map_snd_mark] at htrace
    refine ⟨?_, ?_, by simpa [Nat.succ_le_iff] using repeats⟩
    · rw [Turn.events_of_trace htrace, eventsOf_append, eventsOf_append, eventsOf_retrySteps]
      have hnumber : retry + es.length + 1 = retry + 1 + es.length := by omega
      simp [eventsOf, Phase.retryEvents, List.zipIdx_append, hnumber]
    · rw [htrace]
      simp only [recordedBatches_append, hsteps]
      simp [recordedBatches]
  | cut os repeats short raised marks =>
    have htrace := marks.trace
    rw [map_snd_mark] at htrace
    have hos : eventsOf os = [] ∧ recordedBatches os = [] := by
      rcases short with ⟨rfl, -⟩ | rfl
      · exact ⟨rfl, rfl⟩
      · exact ⟨rfl, rfl⟩
    refine ⟨?_, ?_, repeats⟩
    · rw [Turn.events_of_trace htrace, eventsOf_append, eventsOf_retrySteps, hos.1,
        List.append_nil]
    · rw [htrace, recordedBatches_append, recordedBatches_append, hsteps, hos.2, List.append_nil,
        List.append_nil]
  | never repeats low marks =>
    have htrace := marks.trace
    rw [map_snd_mark] at htrace
    refine ⟨?_, ?_, repeats⟩
    · rw [Turn.events_of_trace htrace, eventsOf_append, eventsOf_retrySteps]
      simp [eventsOf]
    · rw [htrace]
      simp only [recordedBatches_append, hsteps]
      simp [recordedBatches]

/-- The batch that a step asks for. -/
def batchesOf : StepResult Verdict → List (List ToolCallRequest)
  | .next (.execute calls) => [calls]
  | _ => []

/-- The messages of a prepared batch are its calls. -/
theorem requests_prepareCalls {seen : List CallId} {requested calls : List ToolCallRequest}
    {messages : List Message}
    (h : a.prepareCalls seen requested t = (t', .ok (calls, messages))) :
    messages.filterMap requestOf? = calls ∧ calls.length = requested.length := by
  induction requested generalizing seen t t' calls messages with
  | nil =>
    cases h
    exact ⟨rfl, rfl⟩
  | cons call rest ih =>
    rw [prepareCalls] at h
    cases hassign : a.assignId seen call t with | mk t₁ call₁
    rw [hassign] at h
    dsimp only at h
    split at h
    · cases h
    · rename_i m hcall
      cases hrest : a.prepareCalls (call₁.callId :: seen) rest t₁ with | mk t₂ r₂
      rw [hrest] at h
      cases r₂ with
      | error e => cases h
      | ok prepared =>
        cases h
        obtain ⟨hrequests, hlength⟩ := ih hrest
        obtain ⟨hsaid, rfl⟩ := Message.call_ok_iff.mp hcall
        refine ⟨?_, by simpa using hlength⟩
        rw [List.filterMap_cons]
        simp only [requestOf?, hrequests]

theorem recordCalls_walk {requested : List ToolCallRequest} {r : StepResult Verdict}
    (hne : requested ≠ []) (h : a.recordCalls requested t = (t', r)) :
    t'.events = t.events ∧
      recordedBatches t'.trace = recordedBatches t.trace ++ batchesOf r := by
  unfold recordCalls at h
  split at h
  · cases h
    exact ⟨rfl, (List.append_nil _).symm⟩
  · cases hprepare : a.prepareCalls [] requested t with | mk t₁ r₁
    obtain ⟨os, hpass, -, hos, -⟩ := prepareCalls_cases hprepare
    have hevents : eventsOf os = [] := by
      rw [eventsOf, List.filterMap_eq_nil_iff]
      intro o ho
      have hassignment := hos o ho
      cases o <;> first | rfl | cases hassignment
    have hbatches : recordedBatches os = [] := by
      apply recordedBatches_eq_nil
      rintro o ho ms rfl
      have hassignment := hos _ ho
      cases hassignment
    rw [hprepare] at h
    cases r₁ with
    | error e =>
      cases h
      refine ⟨?_, ?_⟩
      · rw [Turn.events_of_trace hpass.trace, hevents, List.append_nil]
      · rw [hpass.trace, recordedBatches_append, hbatches]
        rfl
    | ok prepared =>
      obtain ⟨calls, messages⟩ := prepared
      obtain ⟨hrequests, hlength⟩ := requests_prepareCalls hprepare
      have hcalls : calls ≠ [] := by
        rintro rfl
        exact hne (List.length_eq_zero_iff.mp hlength.symm)
      dsimp only at h
      unfold Turn.record at h
      cases happend : t₁.session.appendAll messages with
      | error e =>
        rw [happend] at h
        cases h
        have htrace := (hpass.note (.refused e)).trace
        refine ⟨?_, ?_⟩
        · rw [Turn.events_of_trace htrace, eventsOf_append, hevents]
          exact List.append_nil _
        · rw [htrace, recordedBatches_append, recordedBatches_append, hbatches]
          rfl
      | ok s =>
        rw [happend] at h
        cases h
        have htrace : (({ t₁ with session := s } : Turn σ).note (.recorded messages)).trace =
            t.trace ++ (os ++ [.recorded messages]) := by
          rw [Turn.trace_note, Turn.trace_with_session, hpass.trace, List.append_assoc]
        refine ⟨?_, ?_⟩
        · rw [Turn.events_of_trace htrace, eventsOf_append, hevents]
          exact List.append_nil _
        · rw [htrace, recordedBatches_append, recordedBatches_append, hbatches]
          rw [recordedBatches_recorded hrequests, if_neg hcalls]
          rfl

theorem acceptReply_walk {reply : ProviderReply} {r : StepResult Verdict}
    (h : a.acceptReply reply t = (t', r)) :
    t'.events = t.events ∧
      recordedBatches t'.trace = recordedBatches t.trace ++ batchesOf r := by
  have hcount : ∀ u, (t.count u).events = t.events ∧
      recordedBatches (t.count u).trace = recordedBatches t.trace ++ [] := by
    intro u
    rw [Turn.events_eq, Turn.trace_count, List.append_nil]
    exact ⟨rfl, rfl⟩
  cases reply with
  | finalAnswer text u =>
    simp only [acceptReply, ProviderReply.usage?] at h
    split at h <;> cases h <;> exact hcount u
  | toolCallBatch requested done u =>
    cases requested with
    | nil => cases done <;> cases h <;> exact hcount u
    | cons call rest =>
      have hrecord : a.recordCalls (call :: rest) (t.count u) = (t', r) := h
      obtain ⟨hevents, hbatches⟩ := recordCalls_walk (by simp) hrecord
      rw [(hcount u).1] at hevents
      rw [(hcount u).2, List.append_nil] at hbatches
      exact ⟨hevents, hbatches⟩

/-- A question is one phase, and what it asks for is recorded. -/
theorem query_walk {r : StepResult Verdict} (low : t.clock.isRaised = false)
    (h : a.query t = (t', r)) :
    ∃ es, es.length ≤ a.settings.retry.maxRetries ∧
      t'.events = t.events ++ (Phase.asking es).events t.session.id ∧
      recordedBatches t'.trace = recordedBatches t.trace ++ batchesOf r := by
  unfold query at h
  dsimp only at h
  cases hrequest : a.request a.settings.retry.backoff (a.view (t.enter .querying).session)
    a.tools.describeAll a.settings.retry.maxRetries 0 (t.enter .querying) with | mk t₁ r₁
  rw [hrequest] at h
  have hlow : (t.enter .querying).clock.isRaised = false := low
  obtain ⟨es, hheard⟩ := request_heard hlow hrequest
  obtain ⟨hevents, hbatches, hle⟩ := hheard.walk
  have hasked : t₁.events = t.events ++ (Phase.asking es).events t.session.id := by
    rw [hevents, Turn.events_of_trace (Turn.trace_enter t .querying), List.append_assoc]
    rfl
  have hsame : recordedBatches t₁.trace = recordedBatches t.trace := by
    rw [hbatches, Turn.trace_enter, recordedBatches_append]
    exact List.append_nil _
  refine ⟨es, hle, ?_⟩
  cases r₁ with
  | never =>
    cases h
    exact ⟨hasked, hsame.trans (List.append_nil _).symm⟩
  | failed e =>
    cases h
    exact ⟨hasked, hsame.trans (List.append_nil _).symm⟩
  | next reply =>
    obtain ⟨hevents, hbatches⟩ := acceptReply_walk h
    exact ⟨hevents.trans hasked, by rw [hbatches, hsame]⟩

theorem eventsOf_batchStart (id : SessionId) (calls : List ToolCallRequest) :
    eventsOf (batchStart id calls) = (Phase.running calls none).events id := by
  simp [eventsOf, batchStart, Phase.events, List.filterMap_map]

theorem eventsOf_batchFinish (id : SessionId) (results : List ToolCallResult) :
    eventsOf (batchFinish id results) =
      results.map fun r => .toolCallFinished id r.callId r.status := by
  simp [eventsOf, batchFinish, List.filterMap_map]

/-- A batch is one phase, with its results exactly if it came to its end. -/
theorem execute_walk {calls : List ToolCallRequest} {r : StepResult Unit}
    (hwaits : t.session.Waits (calls.map (·.callId))) (h : a.execute calls t = (t', r)) :
    ∃ results, t'.events = t.events ++ (Phase.running calls results).events t.session.id ∧
      recordedBatches t'.trace = recordedBatches t.trace ∧
      (results = none ∧ (r = .never ∨ r = .failed .cancelled) ∨
        r = .next () ∧ (Phase.running calls results).Complete a.settings.retry.maxRetries) := by
  have hstart : recordedBatches (batchStart t.session.id calls) = [] := by
    apply recordedBatches_eq_nil
    rintro o ho ms rfl
    simp [batchStart] at ho
  have hcut : ∀ {b b' : Bool} {runs : List BatchRun},
      t.Marks (mark b (batchStart t.session.id calls) ++ mark b' [.started runs]) t' →
      t'.events = t.events ++ (Phase.running calls none).events t.session.id ∧
        recordedBatches t'.trace = recordedBatches t.trace := by
    intro b b' runs marks
    have htrace := marks.trace
    rw [List.map_append, map_snd_mark, map_snd_mark] at htrace
    refine ⟨?_, ?_⟩
    · rw [Turn.events_of_trace htrace, eventsOf_append, eventsOf_batchStart]
      exact congrArg _ (List.append_nil _)
    · rw [htrace, recordedBatches_append, recordedBatches_append, hstart]
      exact List.append_nil _
  cases execute_ran h with
  | never runs first stuck low marks =>
    obtain ⟨hevents, hbatches⟩ := hcut marks
    exact ⟨none, hevents, hbatches, Or.inl ⟨rfl, Or.inl rfl⟩⟩
  | cancelled runs first raised marks =>
    obtain ⟨hevents, hbatches⟩ := hcut marks
    exact ⟨none, hevents, hbatches, Or.inl ⟨rfl, Or.inr rfl⟩⟩
  | refused runs results e whole refused marks =>
    exact absurd refused (refuses_no_results hwaits whole e)
  | recorded runs results whole recorded marked =>
    have htrace := Turn.trace_of_marked marked
    rw [List.map_append, map_snd_mark, map_snd_mark] at htrace
    refine ⟨some results, ?_, ?_, Or.inr ⟨rfl, whole.callIds⟩⟩
    · rw [Turn.events_of_trace htrace, eventsOf_append, eventsOf_batchStart]
      show _ ++ (_ ++ eventsOf (batchFinish t.session.id results ++ [.recorded _])) = _
      rw [eventsOf_append, eventsOf_batchFinish]
      simp [Phase.events, eventsOf]
    · have hfinish : recordedBatches (batchFinish t.session.id results) = [] := by
        apply recordedBatches_eq_nil
        rintro o ho ms rfl
        simp [batchFinish] at ho
      rw [htrace, recordedBatches_append, recordedBatches_append, hstart]
      show _ ++ ([] ++ recordedBatches (batchFinish t.session.id results ++ [.recorded _])) = _
      rw [recordedBatches_append, hfinish, recordedBatches_recorded (requestOf?_toMessage results)]
      exact List.append_nil _

end Agent

end AgentLoop
