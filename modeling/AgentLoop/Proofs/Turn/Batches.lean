/-
AgentLoop.Proofs.Turn.Batches — all that occurs while a batch is run.

* `batchStart`, `batchFinish` — the events of a batch, before its runs and
  behind them
* `Agent.Ran`, `Agent.execute_ran` — the whole record of a batch at each of
  its exits, with the signal
* `refuses_no_results` — a session that waits for the calls takes the results
* `Ran.quiet`, `Ran.cancelled_of_failed` — what this does to such a session

Between the two groups of events the runs of the batch are noted, all of
them if it comes to its end and the first ones otherwise. What is noted
behind the wait carries the signal as it stands then.
-/
import AgentLoop.Proofs.Session.Standing
import AgentLoop.Proofs.Tool.Completion
import AgentLoop.Proofs.Turn.Executing
import AgentLoop.Proofs.Turn.Signal

namespace AgentLoop

/-- What is published when a batch begins. -/
def batchStart (id : SessionId) (calls : List ToolCallRequest) : List Occurrence :=
  .published (.stateChanged id .executingTools) ::
    calls.map fun c => .published (.toolCallStarted id c.callId c.toolName)

/-- What is published when all results of a batch are there. -/
def batchFinish (id : SessionId) (results : List ToolCallResult) : List Occurrence :=
  results.map fun r => .published (.toolCallFinished id r.callId r.status)

/-- What becomes of a batch that was run to its end, up to the recording of
its results. -/
def batchEnd (id : SessionId) (runs : List BatchRun) (results : List ToolCallResult) :
    List Occurrence :=
  .started runs :: (batchFinish id results ++ [.recorded (results.map ToolCallResult.toMessage)])

namespace Turn

variable {σ : Type} {t t' : Turn σ}

/-- A list of events is published one after the other. -/
theorem Marks.foldl_publish {β : Type} {ms : List (Bool × Occurrence)}
    (event : SessionId → β → AgentEvent) (h : t.Marks ms t') (bs : List β) :
    let last := bs.foldl (fun t b => t.publish (event t.session.id b)) t'
    t.Marks (ms ++ mark t'.clock.isRaised
        (bs.map fun b => .published (event t.session.id b))) last ∧
      last.clock = t'.clock := by
  induction bs generalizing t' ms with
  | nil => simpa using h
  | cons b rest ih =>
    have hnoted := h.note (.published (event t'.session.id b))
    rw [h.session] at hnoted
    obtain ⟨hmarks, hclock⟩ := ih hnoted
    rw [List.foldl_cons, h.session]
    refine ⟨?_, hclock⟩
    simpa [mark, publish] using hmarks

end Turn

namespace Agent

variable {σ : Type} {a : Agent σ} {t t' : Turn σ}

/-- All that running a batch can come to, with all that occurs. -/
inductive Ran (a : Agent σ) (calls : List ToolCallRequest) (t t' : Turn σ) :
    StepResult Unit → Prop
  | never (runs : List BatchRun) (first : runs.map (·.request) <+: calls)
      (stuck : ¬ a.tools.Ends a.settings.toolTimeoutMs) (low : t'.clock.isRaised = false)
      (marks : t.Marks (mark t.clock.isRaised (batchStart t.session.id calls) ++
        mark false [.started runs]) t') :
      Ran a calls t t' .never
  | cancelled (runs : List BatchRun) (first : runs.map (·.request) <+: calls)
      (raised : t'.clock.isRaised = true)
      (marks : t.Marks (mark t.clock.isRaised (batchStart t.session.id calls) ++
        mark true [.started runs]) t') :
      Ran a calls t t' (.failed .cancelled)
  | refused (runs : List BatchRun) (results : List ToolCallResult) (e : AppendError)
      (whole : Batch.Whole calls runs results t'.clock.isRaised)
      (refused : t.session.appendAll (results.map ToolCallResult.toMessage) = .error e)
      (marks : t.Marks (mark t.clock.isRaised (batchStart t.session.id calls) ++
        mark t'.clock.isRaised
          (.started runs :: (batchFinish t.session.id results ++ [.refused e]))) t') :
      Ran a calls t t' (.failed e.toAgentError)
  | recorded (runs : List BatchRun) (results : List ToolCallResult)
      (whole : Batch.Whole calls runs results t'.clock.isRaised)
      (recorded : t.session.appendAll (results.map ToolCallResult.toMessage) = .ok t'.session)
      (marked : t'.marked = t.marked ++ (mark t.clock.isRaised (batchStart t.session.id calls) ++
        mark t'.clock.isRaised (batchEnd t.session.id runs results))) :
      Ran a calls t t' (.next ())

theorem execute_ran {calls : List ToolCallRequest} {r : StepResult Unit}
    (h : a.execute calls t = (t', r)) : Ran a calls t t' r := by
  unfold execute at h
  dsimp only at h
  have henter : t.Marks _ (t.enter .executingTools) := (Turn.Marks.refl t).note
    (.published (.stateChanged t.session.id .executingTools))
  have hstart := (henter.foldl_publish
    (fun id (c : ToolCallRequest) => .toolCallStarted id c.callId c.toolName) calls).1
  have hevents : [] ++ mark t.clock.isRaised
      [.published (.stateChanged t.session.id .executingTools)] ++
      mark (t.enter .executingTools).clock.isRaised
        (calls.map fun c => .published (.toolCallStarted t.session.id c.callId c.toolName)) =
      mark t.clock.isRaised (batchStart t.session.id calls) := rfl
  rw [hevents] at hstart
  generalize calls.foldl _ _ = t₁ at h hstart
  split at h
  · rename_i clock world runs hnever
    cases h
    have hlow := Batch.not_raised_of_never hnever
    have hmarks := (hstart.after clock world).note (.started runs)
    rw [Turn.clock_after, hlow] at hmarks
    refine .never runs (Batch.follow_prefix (Or.inr hnever)) (fun hends => ?_) hlow hmarks
    exact Batch.follow_ne_never (fun call _ => a.tools.invoke_ends hends call) _ _ _ _ _ hnever
  · rename_i clock world runs hcut
    cases h
    have hraised := Batch.follow_interrupted hcut
    have hmarks := (hstart.after clock world).note (.started runs)
    rw [Turn.clock_after, hraised] at hmarks
    exact .cancelled runs (Batch.follow_prefix (Or.inl hcut)) hraised hmarks
  · rename_i clock world runs results hready
    have hwhole := Batch.follow_whole (fun _ _ _ _ => a.tools.callId_of_invoke) hready
    obtain ⟨hfinish, hclock₂⟩ := ((hstart.after clock world).note (.started runs)).foldl_publish
      (fun id (r : ToolCallResult) => .toolCallFinished id r.callId r.status) results
    generalize results.foldl _ _ = t₂ at h hfinish hclock₂
    rw [Turn.clock_note, Turn.clock_after] at hclock₂ hfinish
    unfold Turn.record at h
    rw [hfinish.session] at h
    cases happend : t.session.appendAll (results.map ToolCallResult.toMessage) with
    | error e =>
      rw [happend] at h
      cases h
      have hmarks := hfinish.note (.refused e)
      rw [hclock₂] at hmarks
      refine .refused runs results e ?_ happend ?_
      · rw [Turn.clock_note, hclock₂]
        exact hwhole
      · rw [Turn.clock_note, hclock₂]
        simpa [mark, batchFinish] using hmarks
    | ok s =>
      rw [happend] at h
      cases h
      refine .recorded runs results ?_ happend ?_
      · show Batch.Whole calls runs results t₂.clock.isRaised
        rw [hclock₂]
        exact hwhole
      · rw [Turn.marked_note, Turn.marked_with_session, hfinish.marked]
        show _ ++ mark t₂.clock.isRaised _ = _ ++ (_ ++ mark t₂.clock.isRaised _)
        rw [hclock₂]
        simp [mark, batchEnd, batchFinish]

/-- A session that waits for the calls of a batch takes their results. -/
theorem refuses_no_results {s : Session} {calls : List ToolCallRequest} {runs : List BatchRun}
    {results : List ToolCallResult} {raised : Bool} (hwaits : s.Waits (calls.map (·.callId)))
    (whole : Batch.Whole calls runs results raised) (e : AppendError) :
    s.appendAll (results.map ToolCallResult.toMessage) ≠ .error e := by
  obtain ⟨s', ok, -⟩ := hwaits.records_results (isSome_answers?_toMessage results)
    ((answered_toMessage results).trans whole.callIds)
  rw [ok]
  rintro ⟨⟩

namespace Ran

variable {calls : List ToolCallRequest}

/-- A session that waits for the calls of a batch takes their results, so
only the signal makes the batch fail. -/
theorem cancelled_of_failed {e : AgentError} (h : Ran a calls t t' (.failed e))
    (hwaits : t.session.Waits (calls.map (·.callId))) :
    e = .cancelled ∧ t'.clock.isRaised = true ∧ ∃ runs, runs.map (·.request) <+: calls ∧
      t.Marks (mark t.clock.isRaised (batchStart t.session.id calls) ++
        mark true [.started runs]) t' := by
  cases h with
  | cancelled runs first raised marks => exact ⟨rfl, raised, runs, first, marks⟩
  | refused runs results e whole refused marks =>
    exact absurd refused (refuses_no_results hwaits whole e)

theorem quiet {r : Unit} (h : Ran a calls t t' (.next r))
    (hwaits : t.session.Waits (calls.map (·.callId))) : t'.session.Quiet := by
  cases h with
  | recorded runs results whole recorded marked =>
    exact hwaits.quiet (isSome_answers?_toMessage results)
      ((answered_toMessage results).trans whole.callIds) recorded

end Ran

end Agent

end AgentLoop
