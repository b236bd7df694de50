/-
AgentLoop.Proofs.Turn.Protocol — the state machine that a turn shows to the
outside.

* `Walk` — what was published up to a point of a turn
* `Walk.query`, `Walk.execute` — a step extends the walk by one phase
* `Follows` — what holds of the events of a whole turn
* `Walk.follows` — a walk that is closed
* `published_state_machine` — the events of every turn, be it turned down,
  cut short, or one that never ends

What a turn publishes is `idle`, one phase after another, and the two events
that close it. The induction over the loop has a list of phases to extend
and nothing else; whether a step from state to state is allowed depends on
the last phase only.
-/
import AgentLoop.Proofs.Turn.Phases

namespace AgentLoop

namespace Phase

theorem statesOf_flatMap (id : SessionId) (phases : List Phase) :
    statesOf (phases.flatMap (events id)) = phases.map state := by
  induction phases with
  | nil => rfl
  | cons p rest ih =>
    rw [List.flatMap_cons, statesOf_append, statesOf_events, ih]
    rfl

theorem outcomesOf_flatMap (id : SessionId) (phases : List Phase) :
    outcomesOf (phases.flatMap (events id)) = [] := by
  induction phases with
  | nil => rfl
  | cons p rest ih => rw [List.flatMap_cons, outcomesOf_append, outcomesOf_events, ih]; rfl

theorem state_ne_done (p : Phase) : p.state ≠ .done := by
  cases p <;> simp [state]

end Phase

namespace Agent

variable {σ : Type} {a : Agent σ} {s : Session} {t t' : Turn σ}

/-! ## Up to a point of a turn -/

/-- What a turn of the session `s` published so far: `idle` and the events of
some phases. `state` is the state it is in, and `ahead` are the batches that
were recorded but are not run yet. -/
structure Walk (s : Session) (t : Turn σ) (phases : List Phase)
    (ahead : List (List ToolCallRequest)) (state : LoopState) : Prop where
  id : t.session.id = s.id
  events : t.events = .stateChanged s.id .idle :: phases.flatMap (Phase.events s.id)
  moves : List.IsChain (LoopState.Moves (s.pending ≠ 0)) (.idle :: phases.map Phase.state)
  last : (.idle :: phases.map Phase.state).getLast? = some state
  resumed : ∀ calls results rest, phases = .running calls results :: rest →
    calls = pendingRequests s.resume.2
  batches : phases.tail.filterMap Phase.calls? ++ ahead = recordedBatches t.trace

namespace Walk

variable {phases : List Phase} {ahead ahead' : List (List ToolCallRequest)}
  {state : LoopState}

theorem opening (s : Session) (c : Clock) (w : σ) :
    Walk s (opening s c w) [] [] .idle where
  id := Session.id_resume
  events := rfl
  moves := List.isChain_singleton _
  last := rfl
  resumed := by simp
  batches := rfl

/-- A walk is extended by a phase. -/
theorem extend {p : Phase} (h : Walk s t phases ahead state) (hid : t'.session.id = t.session.id)
    (hevents : t'.events = t.events ++ p.events t.session.id)
    (hmove : LoopState.Moves (s.pending ≠ 0) state p.state)
    (hresumed : phases = [] → ∀ calls results, p = .running calls results →
      calls = pendingRequests s.resume.2)
    (hbatches : (phases ++ [p]).tail.filterMap Phase.calls? ++ ahead' =
      recordedBatches t'.trace) : Walk s t' (phases ++ [p]) ahead' p.state where
  id := hid.trans h.id
  events := by
    rw [hevents, h.events, h.id, List.flatMap_append, List.flatMap_singleton]
    rfl
  moves := by
    rw [List.map_append, ← List.cons_append]
    refine List.isChain_append.mpr ⟨h.moves, List.isChain_singleton _, ?_⟩
    intro x hx y hy
    rw [h.last, Option.mem_some_iff] at hx
    rw [List.map_singleton, List.head?_singleton, Option.mem_some_iff] at hy
    rw [← hx, ← hy]
    exact hmove
  last := by
    rw [List.map_append, ← List.cons_append, List.map_singleton, List.getLast?_concat]
  resumed := by
    intro calls results rest heq
    cases phases with
    | nil =>
      rw [List.nil_append, List.cons.injEq] at heq
      exact hresumed rfl calls results heq.1
    | cons first others =>
      rw [List.cons_append, List.cons.injEq] at heq
      exact h.resumed calls results others (by rw [heq.1])
  batches := hbatches

theorem query {r : StepResult Verdict} (h : Walk s t phases [] state)
    (hstate : state = .idle ∨ state = .executingTools) (low : t.clock.isRaised = false)
    (hquery : a.query t = (t', r)) :
    ∃ es, es.length ≤ a.settings.retry.maxRetries ∧
      Walk s t' (phases ++ [.asking es]) (batchesOf r) .querying := by
  obtain ⟨es, hle, hevents, hbatches⟩ := query_walk low hquery
  refine ⟨es, hle, h.extend (query_exchanged hquery).id hevents ?_ (by rintro - calls results ⟨⟩) ?_⟩
  · rcases hstate with rfl | rfl
    · exact .ask
    · exact .report
  · rw [hbatches, ← h.batches, List.append_nil]
    cases phases with
    | nil => rfl
    | cons first others => simp [Phase.calls?]

theorem execute {calls : List ToolCallRequest} {r : StepResult Unit}
    (h : Walk s t phases [calls] .querying) (hphases : phases ≠ [])
    (hwaits : t.session.Waits (calls.map (·.callId))) (hexecute : a.execute calls t = (t', r)) :
    ∃ results, Walk s t' (phases ++ [.running calls results]) [] .executingTools ∧
      (results = none ∧ (r = .never ∨ r = .failed .cancelled) ∨
        r = .next () ∧ (Phase.running calls results).Complete a.settings.retry.maxRetries) := by
  obtain ⟨results, hevents, hbatches, hcase⟩ := execute_walk hwaits hexecute
  refine ⟨results, h.extend (execute_exchanged hexecute).id hevents .call
    (fun hnil => absurd hnil hphases) ?_, hcase⟩
  rw [hbatches, ← h.batches]
  cases phases with
  | nil => exact absurd rfl hphases
  | cons first others => simp [Phase.calls?]

/-- The calls that were pending are the first phase. -/
theorem resume {r : StepResult Unit} (h : Walk s t [] [] .idle) (hopen : s.pending ≠ 0)
    (hwaits : t.session.Waits ((pendingRequests s.resume.2).map (·.callId)))
    (hexecute : a.execute (pendingRequests s.resume.2) t = (t', r)) :
    ∃ results, Walk s t' [.running (pendingRequests s.resume.2) results] [] .executingTools ∧
      (results = none ∧ (r = .never ∨ r = .failed .cancelled) ∨ r = .next () ∧
        (Phase.running (pendingRequests s.resume.2) results).Complete
          a.settings.retry.maxRetries) := by
  obtain ⟨results, hevents, hbatches, hcase⟩ := execute_walk hwaits hexecute
  refine ⟨results, h.extend (execute_exchanged hexecute).id hevents (.resume hopen) ?_ ?_, hcase⟩
  · rintro - calls results' heq
    cases heq
    rfl
  · rw [hbatches, ← h.batches]
    rfl

end Walk

/-! ## A whole turn -/

/-- What holds of the events of a turn of the session `s`.

They are `idle`, the events of some phases, and the two events that close the
turn: the state `done` or `errored` and the outcome, unless the turn never
ends. Only allowed steps lead from state to state. The calls of the first
phase, if it is a batch, are those that were pending; those of every other
batch are the calls that were recorded for it. Every phase came to its end,
except that a turn which is cancelled or never ends may leave the results of
its last batch out. A turn is `done` exactly if it has an answer, and then
its session is completed. Without one the session has failed, unless the turn
was turned down and left it as it was. -/
structure Follows (a : Agent σ) (s : Session) (e : Ended σ) (phases : List Phase) : Prop where
  events : e.1.events = .stateChanged s.id .idle ::
    (phases.flatMap (Phase.events s.id) ++ closingEvents s.id e.2)
  moves : List.IsChain (LoopState.Moves (s.pending ≠ 0)) (statesOf e.1.events)
  resumed : ∀ calls results rest, phases = .running calls results :: rest →
    calls = pendingRequests s.resume.2
  batches : phases.tail.filterMap Phase.calls? = recordedBatches e.1.trace
  complete : ∃ done cut, phases = done ++ cut ∧
    (∀ p ∈ done, p.Complete a.settings.retry.maxRetries) ∧
    (cut = [] ∨ (∃ calls, cut = [.running calls none]) ∧
      ∀ o, e.2 = some o → o = .ofError .cancelled)
  last_state : ∀ o, e.2 = some o → (statesOf e.1.events).getLast? =
    some (if o.isFinalAnswer then .done else .errored)
  last_event : ∀ o, e.2 = some o → e.1.events.getLast? = some (.turnFinished s.id o)
  told_once : outcomesOf e.1.events = e.2.toList
  done_iff : .done ∈ statesOf e.1.events ↔ ∃ text, e.2 = some (.finalAnswer text)
  completed : ∀ text, e.2 = some (.finalAnswer text) → e.1.session.status = .completed
  failed : ∀ kind message, e.2 = some (.errored kind message) →
    e.1.session.status = .failed ∨ s.canBegin = false ∧ e.1.session = s

/-- How the session stands at the end of a turn. -/
structure Ends (s : Session) (e : Ended σ) : Prop where
  completed : ∀ text, e.2 = some (.finalAnswer text) → e.1.session.status = .completed
  failed : ∀ kind message, e.2 = some (.errored kind message) →
    e.1.session.status = .failed ∨ s.canBegin = false ∧ e.1.session = s

/-- A walk that is closed. -/
theorem Walk.follows {phases done cut : List Phase} {state : LoopState} {e : Ended σ}
    (h : Walk s t phases [] state)
    (hmove : ∀ o, e.2 = some o → LoopState.Moves (s.pending ≠ 0) state
      (if o.isFinalAnswer then .done else .errored))
    (hevents : e.1.events = t.events ++ closingEvents s.id e.2)
    (hbatches : recordedBatches e.1.trace = recordedBatches t.trace)
    (hphases : phases = done ++ cut)
    (hdone : ∀ p ∈ done, p.Complete a.settings.retry.maxRetries)
    (hcut : cut = [] ∨ (∃ calls, cut = [.running calls none]) ∧
      ∀ o, e.2 = some o → o = .ofError .cancelled)
    (hends : Ends s e) : Follows a s e phases := by
  have hstates : statesOf e.1.events =
      .idle :: phases.map Phase.state ++ statesOf (closingEvents s.id e.2) := by
    rw [hevents, h.events, statesOf_append]
    show .idle :: statesOf (phases.flatMap _) ++ _ = _
    rw [Phase.statesOf_flatMap]
  refine {
    events := by rw [hevents, h.events]; rfl
    moves := ?_
    resumed := h.resumed
    batches := by rw [hbatches, ← h.batches, List.append_nil]
    complete := ⟨done, cut, hphases, hdone, hcut⟩
    last_state := ?_
    last_event := ?_
    told_once := ?_
    done_iff := ?_
    completed := hends.completed
    failed := hends.failed }
  · rw [hstates]
    cases hend : e.2 with
    | none =>
      show List.IsChain _ (_ ++ [])
      rw [List.append_nil]
      exact h.moves
    | some o =>
      refine List.isChain_append.mpr ⟨h.moves, List.isChain_singleton _, ?_⟩
      intro x hx y hy
      rw [h.last, Option.mem_some_iff] at hx
      rw [← hx, ← Option.mem_some_iff.mp hy]
      exact hmove o hend
  · intro o hend
    rw [hstates, hend]
    exact List.getLast?_concat
  · intro o hend
    rw [hevents, hend, List.getLast?_append]
    rfl
  · rw [hevents, h.events, outcomesOf_append]
    show outcomesOf (phases.flatMap _) ++ _ = _
    rw [Phase.outcomesOf_flatMap]
    cases e.2 <;> rfl
  · rw [hstates]
    have hphase : LoopState.done ∉ LoopState.idle :: phases.map Phase.state := by
      simp [Phase.state_ne_done]
    cases hend : e.2 with
    | none => simpa [closingEvents, statesOf] using hphase
    | some o =>
      rw [List.mem_append, or_iff_right hphase]
      cases o <;> simp [closingEvents, statesOf, TurnOutcome.isFinalAnswer]

/-! ## How a turn is closed -/

theorem closed_fail (t : Turn σ) (err : AgentError) :
    (t.fail err).1.events = t.events ++ closingEvents t.session.id (some (.ofError err)) ∧
      recordedBatches (t.fail err).1.trace = recordedBatches t.trace := by
  have htrace := Turn.trace_fail t err
  refine ⟨Turn.events_of_trace htrace, ?_⟩
  rw [htrace, recordedBatches_append]
  exact List.append_nil _

theorem closed_complete (t : Turn σ) (text : String) :
    (t.complete text).1.events =
        t.events ++ closingEvents t.session.id (some (.finalAnswer text)) ∧
      recordedBatches (t.complete text).1.trace = recordedBatches t.trace := by
  have htrace := Turn.trace_complete t text
  rw [Session.id_markCompleted] at htrace
  refine ⟨Turn.events_of_trace htrace, ?_⟩
  rw [htrace, recordedBatches_append]
  exact List.append_nil _

theorem ends_never (s : Session) (t : Turn σ) : Ends s (t, none) :=
  ⟨by rintro text ⟨⟩, by rintro kind message ⟨⟩⟩

theorem ends_fail (s : Session) (t : Turn σ) (err : AgentError) : Ends s (ended (t.fail err)) :=
  ⟨by rintro text ⟨⟩, fun _ _ _ => Or.inl rfl⟩

theorem ends_complete (s : Session) {t : Turn σ} (hactive : t.session.status = .active)
    (text : String) : Ends s (ended (t.complete text)) := by
  refine ⟨fun _ _ => ?_, by rintro kind message ⟨⟩⟩
  show t.session.markCompleted.status = .completed
  rw [Session.markCompleted, if_pos hactive]

/-- A quiet session stays active when an answer is recorded in it. -/
theorem active_of_answer {s' : Session} {text : NonBlank} (hquiet : s.Quiet)
    (ok : s.appendAll [.assistantText text] = .ok s') : s'.status = .active := by
  have hpending := hquiet.reachable.consistent.quiet (Or.inl hquiet.active)
  obtain ⟨-, ledger, hledger, rfl⟩ := Session.appendAll_ok_iff.mp ok
  simp only [CallLedger.acceptAll, CallLedger.accept] at hledger
  split at hledger
  · cases hledger
  · rename_i l hl
    cases hledger
    split at hl
    · cases hl
    · cases hl
      simp only [Session.pending] at hpending
      simp [Session.extended, Session.statusAfter, hpending, hquiet.active]

namespace Walk

variable {phases done cut : List Phase} {state : LoopState}

/-- A turn that ends without an answer. -/
theorem fail {err : AgentError} (h : Walk s t phases [] state)
    (hstate : state = .idle ∨ state = .querying ∨ state = .executingTools)
    (hphases : phases = done ++ cut)
    (hdone : ∀ p ∈ done, p.Complete a.settings.retry.maxRetries)
    (hcut : cut = [] ∨ (∃ calls, cut = [.running calls none]) ∧ err = .cancelled) :
    Follows a s (ended (t.fail err)) phases := by
  obtain ⟨hevents, hbatches⟩ := closed_fail t err
  rw [h.id] at hevents
  refine h.follows ?_ hevents hbatches hphases hdone ?_ (ends_fail s t err)
  · rintro o ⟨⟩
    rcases hstate with rfl | rfl | rfl
    · exact .reject
    · exact .fail
    · exact .abandon
  · refine hcut.imp (fun hnone => hnone) (And.imp_right ?_)
    rintro rfl o ⟨⟩
    rfl

/-- A turn that never ends. -/
theorem never (h : Walk s t phases [] state) (hphases : phases = done ++ cut)
    (hdone : ∀ p ∈ done, p.Complete a.settings.retry.maxRetries)
    (hcut : cut = [] ∨ ∃ calls, cut = [.running calls none]) :
    Follows a s (t, none) phases :=
  h.follows (by rintro o ⟨⟩) (List.append_nil _).symm rfl hphases hdone
    (hcut.imp (fun hnone => hnone) fun hcalls => ⟨hcalls, by rintro o ⟨⟩⟩) (ends_never s t)

/-- A turn that ends with an answer. -/
theorem finish {q : Inquiry} {text : Option String} {t₀ : Turn σ}
    (h : Walk s t phases [] .querying) (hdone : ∀ p ∈ phases, p.Complete a.settings.retry.maxRetries)
    (hfinished : Finished a t₀ q text t) (hquiet : t.session.Quiet) :
    Follows a s (ended (t.finish text)) phases := by
  have hmove : ∀ (text : String) o, some (TurnOutcome.finalAnswer text) = some o →
      LoopState.Moves (s.pending ≠ 0) .querying (if o.isFinalAnswer then .done else .errored) := by
    rintro text o ⟨⟩
    exact .answer
  cases text with
  | none =>
    obtain ⟨hevents, hbatches⟩ := closed_complete t ""
    rw [h.id] at hevents
    exact h.follows (hmove "") hevents hbatches (List.append_nil _).symm hdone (Or.inl rfl)
      (ends_complete s hquiet.active "")
  | some text =>
    obtain ⟨s', ok, hfinish⟩ := finish_some hquiet hfinished.said
    rw [hfinish]
    generalize hsaid : Message.assistantText ⟨text, hfinished.said⟩ = said at ok
    obtain ⟨hevents, hbatches⟩ :=
      closed_complete (({ t with session := s' } : Turn σ).note (.recorded [said])) text
    have hid : s'.id = s.id := (Session.id_of_appendAll ok).trans h.id
    have hnoted : (({ t with session := s' } : Turn σ).note (.recorded [said])).trace =
        t.trace ++ [.recorded [said]] := Turn.trace_note _ _
    have hsilent : eventsOf [.recorded [said]] = [] ∧ recordedBatches [.recorded [said]] = [] := by
      subst hsaid
      exact ⟨rfl, rfl⟩
    rw [Turn.events_of_trace hnoted, hsilent.1, List.append_nil] at hevents
    rw [hnoted, recordedBatches_append, hsilent.2, List.append_nil] at hbatches
    rw [show (({ t with session := s' } : Turn σ).note (.recorded [said])).session.id = s.id
      from hid] at hevents
    refine h.follows (hmove text) hevents hbatches (List.append_nil _).symm hdone (Or.inl rfl)
      (ends_complete s ?_ text)
    subst hsaid
    exact active_of_answer hquiet ok

end Walk

/-! ## The loop -/

/-- A turn at the start of a cycle: every phase came to its end. -/
def Walked (a : Agent σ) (s : Session) (t : Turn σ) : Prop :=
  ∃ phases state, Walk s t phases [] state ∧ (state = .idle ∨ state = .executingTools) ∧
    ∀ p ∈ phases, p.Complete a.settings.retry.maxRetries

theorem complete_concat {phases : List Phase} {last : Phase} {budget : Nat}
    (h : ∀ p ∈ phases, p.Complete budget) (hlast : last.Complete budget) :
    ∀ p ∈ phases ++ [last], p.Complete budget := by
  intro x hx
  rcases List.mem_append.mp hx with hx | hx
  · exact h x hx
  · rw [List.mem_singleton.mp hx]
    exact hlast

theorem Cycle.walked {t₁ : Turn σ} {calls : List ToolCallRequest} (h : Cycle a t t₁ calls t')
    (hwalked : Walked a s t) : Walked a s t' := by
  obtain ⟨phases, state, hwalk, hstate, hcomplete⟩ := hwalked
  obtain ⟨es, hle, hasked⟩ := hwalk.query hstate h.low h.queried
  obtain ⟨results, hran, hcase⟩ := hasked.execute (by simp) h.waits h.executed
  refine ⟨_, _, hran, Or.inr rfl, ?_⟩
  have hquestion : ∀ p ∈ phases ++ [.asking es], p.Complete a.settings.retry.maxRetries :=
    complete_concat hcomplete hle
  rcases hcase with ⟨-, hr | hr⟩ | ⟨-, hbatch⟩
  · cases hr
  · cases hr
  · exact complete_concat hquestion hbatch

theorem Exit.follows {left : Nat} {e : Ended σ} (h : Exit a left t e)
    (hquiet : t.session.Quiet) (hwalked : Walked a s t) : ∃ phases, Follows a s e phases := by
  obtain ⟨phases, state, hwalk, hstate, hcomplete⟩ := hwalked
  have hworking : state = .idle ∨ state = .querying ∨ state = .executingTools :=
    hstate.imp id Or.inr
  have hasking : ∀ {es : List ProviderError}, es.length ≤ a.settings.retry.maxRetries →
      ∀ p ∈ phases ++ [.asking es], p.Complete a.settings.retry.maxRetries :=
    fun hle => complete_concat hcomplete (show Phase.Complete _ (.asking _) from hle)
  cases h with
  | cancelled raised =>
    exact ⟨_, hwalk.fail hworking (List.append_nil _).symm hcomplete (Or.inl rfl)⟩
  | exhausted low =>
    exact ⟨_, hwalk.fail hworking (List.append_nil _).symm hcomplete (Or.inl rfl)⟩
  | unanswered low queried =>
    obtain ⟨es, hle, hasked⟩ := hwalk.query hstate low queried
    exact ⟨_, hasked.never (List.append_nil _).symm (hasking hle) (Or.inl rfl)⟩
  | failed low queried =>
    obtain ⟨es, hle, hasked⟩ := hwalk.query hstate low queried
    exact ⟨_, hasked.fail (Or.inr (Or.inl rfl)) (List.append_nil _).symm (hasking hle)
      (Or.inl rfl)⟩
  | finished low queried =>
    obtain ⟨es, hle, hasked⟩ := hwalk.query hstate low queried
    obtain ⟨q, hfinished⟩ := (query_cases queried).finished
    exact ⟨_, hasked.finish (hasking hle) hfinished (hfinished.quiet hquiet)⟩
  | stuck low queried executed =>
    obtain ⟨es, hle, hasked⟩ := hwalk.query hstate low queried
    obtain ⟨results, hran, hcase⟩ :=
      hasked.execute (by simp) (waits_of_query hquiet queried) executed
    rcases hcase with ⟨rfl, -⟩ | ⟨hr, -⟩
    · exact ⟨_, hran.never rfl (hasking hle) (Or.inr ⟨_, rfl⟩)⟩
    · cases hr
  | abandoned low queried executed =>
    obtain ⟨es, hle, hasked⟩ := hwalk.query hstate low queried
    obtain ⟨results, hran, hcase⟩ :=
      hasked.execute (by simp) (waits_of_query hquiet queried) executed
    rcases hcase with ⟨rfl, hr | hr⟩ | ⟨hr, -⟩
    · cases hr
    · cases hr
      exact ⟨_, hran.fail (Or.inr (Or.inr rfl)) rfl (hasking hle) (Or.inr ⟨⟨_, rfl⟩, rfl⟩)⟩
    · cases hr

theorem loop_follows {left : Nat} (hquiet : t.session.Quiet) (hwalked : Walked a s t) :
    ∃ phases, Follows a s (a.loop left t) phases :=
  loop_rule (P := fun _ t => Walked a s t) (Q := fun e => ∃ phases, Follows a s e phases)
    (fun _ _ _ hwalked hquiet hexit => hexit.follows hquiet hwalked)
    (fun _ _ _ _ _ hwalked hcycle => hcycle.walked hwalked) hquiet hwalked

/-- A turn that is turned down. -/
theorem follows_of_rejected {s : Session} (c : Clock) (w : σ) (hunfit : s.canBegin = false) :
    Follows a s (ended (reject s.resume.1 (opening s c w))) [] := by
  obtain ⟨hsession, -, -, htrace⟩ := rejected_is_noop s c w
  have hopening : (opening s c w).trace = [.published (.stateChanged s.id .idle)] := rfl
  have hgrows : (reject s.resume.1 (opening s c w)).1.trace = (opening s c w).trace ++
      [.published (.stateChanged s.id .errored),
        .published (.turnFinished s.id (.ofError (noUserMessage s.resume.2)))] := by
    rw [htrace, hopening]
    rfl
  refine (Walk.opening s c w).follows ?_ (Turn.events_of_trace hgrows) ?_
    (List.append_nil []).symm (by simp) (Or.inl rfl) ⟨by rintro text ⟨⟩, fun _ _ _ => Or.inr ⟨hunfit, hsession⟩⟩
  · rintro o ⟨⟩
    exact .reject
  · rw [ended, hgrows, recordedBatches_append]
    exact List.append_nil _

/-- The events of every turn of a reachable session are those of a walk
through the states of the loop. -/
theorem published_state_machine (a : Agent σ) {s : Session} (h : s.Reachable) (c : Clock)
    (w : σ) : ∃ phases, Follows a s (a.runTurn s c w) phases := by
  have hopening := Walk.opening s c w
  have hbegun := runTurn_begun a h c w
  have hopen : pendingRequests s.resume.2 ≠ [] → s.pending ≠ 0 := by
    intro hpending hzero
    exact hpending ((pendingRequests_eq_nil_iff h).mpr
      ((Session.pending_eq_zero_iff h.consistent).mp hzero))
  generalize a.runTurn s c w = e at hbegun
  cases hbegun with
  | rejected unfit => exact ⟨[], follows_of_rejected c w unfit⟩
  | cancelled fit pending raised =>
    exact ⟨_, hopening.fail (Or.inl rfl) (List.append_nil []).symm (by simp) (Or.inl rfl)⟩
  | stuck fit pending low executed =>
    obtain ⟨results, hran, hcase⟩ := hopening.resume (hopen pending)
      (waits_pendingRequests h pending) executed
    rcases hcase with ⟨rfl, -⟩ | ⟨hr, -⟩
    · exact ⟨_, hran.never (List.nil_append _).symm (by simp) (Or.inr ⟨_, rfl⟩)⟩
    · cases hr
  | abandoned fit pending low executed =>
    obtain ⟨results, hran, hcase⟩ := hopening.resume (hopen pending)
      (waits_pendingRequests h pending) executed
    rcases hcase with ⟨rfl, hr | hr⟩ | ⟨hr, -⟩
    · cases hr
    · cases hr
      exact ⟨_, hran.fail (Or.inr (Or.inr rfl)) (List.nil_append _).symm (by simp)
        (Or.inr ⟨⟨_, rfl⟩, rfl⟩)⟩
    · cases hr
  | resumed fit pending low executed =>
    have hwaits := waits_pendingRequests h pending
    obtain ⟨results, hran, hcase⟩ := hopening.resume (hopen pending) hwaits executed
    refine loop_follows ((execute_ran executed).quiet hwaits) ⟨_, _, hran, Or.inr rfl, ?_⟩
    rcases hcase with ⟨-, hr | hr⟩ | ⟨-, hbatch⟩
    · cases hr
    · cases hr
    · simpa using hbatch
  | asked fit none quiet =>
    exact loop_follows quiet ⟨_, _, hopening, Or.inl rfl, by simp⟩

/-- A turn that first runs a call that was pending, then a batch, and then
has its answer after one repetition. -/
theorem phases_of_resumed_turn :
    let a := replaying [reusingBatch, .error (.unavailable "busy"), .ok (.finalAnswer "fine" none)]
    let e := a.runTurn halfAnswered ⟨0, .absent⟩ (0, 7)
    e.2 = some (.finalAnswer "fine") ∧ ∃ phases, Follows a halfAnswered e phases ∧
      phases.map Phase.state = [.executingTools, .querying, .executingTools, .querying] := by
  intro a e
  have hend : e.2 = some (.finalAnswer "fine") := by decide +kernel
  have hstates : statesOf e.1.events =
      [.idle, .executingTools, .querying, .executingTools, .querying, .done] := by
    decide +kernel
  obtain ⟨phases, hfollows⟩ := published_state_machine a reachable_halfAnswered ⟨0, .absent⟩ (0, 7)
  refine ⟨hend, phases, hfollows, ?_⟩
  have hphases := congrArg statesOf hfollows.events
  rw [show a.runTurn halfAnswered ⟨0, .absent⟩ (0, 7) = e from rfl, hstates, hend] at hphases
  change _ = .idle :: statesOf (_ ++ _) at hphases
  rw [statesOf_append, Phase.statesOf_flatMap] at hphases
  change _ :: ([_, _, _, _] ++ [_]) = _ :: (_ ++ [_]) at hphases
  rw [List.cons.injEq] at hphases
  exact (List.append_inj_left' hphases.2 rfl).symm

end Agent

end AgentLoop
