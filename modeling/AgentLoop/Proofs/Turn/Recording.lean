/-
AgentLoop.Proofs.Turn.Recording — the log and the record of a turn.

* `recordedIn` — the messages that were recorded in a stretch of a turn
* `Turn.Logs` — a stretch in which the log grows by just these
* `runTurn_logs` — every turn is such a stretch

Everything that is said of the groups that a turn records is thereby said
of the log: a step that does not note what it records could not be shown to
be such a stretch.
-/
import AgentLoop.Proofs.Turn.Loop
import AgentLoop.Proofs.Turn.Rejection

namespace AgentLoop

/-- The messages that an occurrence adds to the log. -/
def Occurrence.messages : Occurrence → List Message
  | .recorded ms => ms
  | _ => []

/-- The messages that were recorded, in their order. -/
def recordedIn (os : List Occurrence) : List Message := os.flatMap Occurrence.messages

@[simp] theorem recordedIn_append (os os' : List Occurrence) :
    recordedIn (os ++ os') = recordedIn os ++ recordedIn os' := List.flatMap_append

theorem recordedIn_eq_nil {os : List Occurrence} (h : ∀ o ∈ os, o.messages = []) :
    recordedIn os = [] := List.flatMap_eq_nil_iff.mpr h

namespace Occurrence

variable {o : Occurrence}

theorem messages_of_dialogue (h : o.isDialogue = true) : o.messages = [] := by
  cases o <;> first | rfl | cases h

theorem messages_of_assignment (h : o.isAssignment = true) : o.messages = [] := by
  cases o <;> first | rfl | cases h

end Occurrence

theorem recordedIn_batchStart (id : SessionId) (calls : List ToolCallRequest) :
    recordedIn (batchStart id calls) = [] := by
  apply recordedIn_eq_nil
  intro o ho
  rcases List.mem_cons.mp ho with rfl | ho
  · rfl
  · obtain ⟨c, -, rfl⟩ := List.mem_map.mp ho
    rfl

theorem recordedIn_batchFinish (id : SessionId) (results : List ToolCallResult) :
    recordedIn (batchFinish id results) = [] := by
  apply recordedIn_eq_nil
  intro o ho
  obtain ⟨r, -, rfl⟩ := List.mem_map.mp ho
  rfl

theorem recordedIn_batchEnd (id : SessionId) (runs : List BatchRun)
    (results : List ToolCallResult) :
    recordedIn (batchEnd id runs results) = results.map ToolCallResult.toMessage := by
  show recordedIn (batchFinish id results ++ [.recorded _]) = _
  rw [recordedIn_append, recordedIn_batchFinish]
  exact List.append_nil _

namespace Turn

variable {σ : Type} {t t' t'' : Turn σ}

/-- From `t` to `t'` the log grows by just the messages that are noted as
recorded. -/
def Logs (t t' : Turn σ) : Prop :=
  ∃ os, t'.trace = t.trace ++ os ∧
    t'.session.history = t.session.history ++ recordedIn os

namespace Logs

theorem refl (t : Turn σ) : t.Logs t := ⟨[], by simp, by simp [recordedIn]⟩

theorem trans (h : t.Logs t') (h' : t'.Logs t'') : t.Logs t'' := by
  obtain ⟨os, htrace, hlog⟩ := h
  obtain ⟨os', htrace', hlog'⟩ := h'
  refine ⟨os ++ os', ?_, ?_⟩
  · rw [htrace', htrace, List.append_assoc]
  · rw [hlog', hlog, recordedIn_append, List.append_assoc]

theorem of_passes {os : List Occurrence} (h : t.Passes os t')
    (hos : ∀ o ∈ os, o.messages = []) : t.Logs t' := by
  refine ⟨os, h.trace, ?_⟩
  rw [h.session, recordedIn_eq_nil hos, List.append_nil]

theorem fail (h : t.Logs t') (e : AgentError) : t.Logs (t'.fail e).1 := by
  refine h.trans ⟨_, trace_fail t' e, ?_⟩
  rw [session_fail, Session.history_markFailed]
  exact (List.append_nil _).symm

theorem complete (h : t.Logs t') (text : String) : t.Logs (t'.complete text).1 := by
  refine h.trans ⟨_, trace_complete t' text, ?_⟩
  rw [session_complete, Session.history_markCompleted]
  exact (List.append_nil _).symm

theorem count (h : t.Logs t') (u : Option TokenUsage) : t.Logs (t'.count u) := by
  refine h.trans ⟨[], by simp, ?_⟩
  cases u <;> exact (List.append_nil _).symm

/-- A group of messages is recorded, or refused. -/
theorem record {ms : List Message} {e : Option AppendError} (h : t.record ms = (t', e)) :
    t.Logs t' := by
  unfold Turn.record at h
  cases happend : t.session.appendAll ms with
  | error e =>
    rw [happend] at h
    cases h
    exact ⟨[.refused e], trace_note t _, (List.append_nil _).symm⟩
  | ok s =>
    rw [happend] at h
    cases h
    refine ⟨[.recorded ms], trace_note _ _, ?_⟩
    show s.history = _ ++ (ms ++ [])
    rw [Session.history_of_appendAll happend, List.append_nil]

end Logs

end Turn

namespace Agent

variable {σ : Type} {a : Agent σ} {t t' : Turn σ}

theorem Settled.logs {answer : ProviderResult} {os : List Occurrence} {r : StepResult Verdict}
    (h : Settled a t answer os t' r) : t.Logs t' := by
  have hcount := (Turn.Logs.refl t).count
  cases h with
  | failure e => exact .refl t
  | answer text u said => exact hcount u
  | blank text u unsaid => exact hcount u
  | done u => exact hcount u
  | empty u => exact hcount u
  | cancelled done u nonempty stopped => exact hcount u
  | unnamed done u e unnamed assigns passes =>
    exact (hcount u).trans
      (.of_passes passes fun o ho => Occurrence.messages_of_assignment (assigns o ho))
  | refused done u e nonempty assigns prepared refused passes =>
    refine (hcount u).trans (.of_passes passes ?_)
    intro o ho
    rcases List.mem_append.mp ho with ho | ho
    · exact Occurrence.messages_of_assignment (assigns o ho)
    · rw [List.mem_singleton.mp ho]
      rfl
  | @recorded requested done u os _ calls messages nonempty assigns prepared recorded trace =>
    refine ⟨_, trace, ?_⟩
    have hassigned : recordedIn os = [] := recordedIn_eq_nil fun o ho =>
      Occurrence.messages_of_assignment (assigns o ho)
    rw [Session.history_of_appendAll recorded, Turn.history_count, recordedIn_append, hassigned]
    simp [recordedIn, Occurrence.messages]

theorem query_logs {r : StepResult Verdict} (h : a.query t = (t', r)) : t.Logs t' := by
  cases query_cases h with
  | never es stuck passes =>
    exact .of_passes passes fun o ho =>
      Occurrence.messages_of_dialogue (isDialogue_undecided (Or.inr rfl) o ho)
  | cancelled es os short stopped passes =>
    exact .of_passes passes fun o ho =>
      Occurrence.messages_of_dialogue (isDialogue_undecided short o ho)
  | settled q os view within passes settled =>
    have hasked := Turn.Logs.of_passes passes fun o ho =>
      Occurrence.messages_of_dialogue (q.isDialogue_occurrences _ _ o ho)
    exact hasked.trans settled.logs

theorem execute_logs {calls : List ToolCallRequest} {r : StepResult Unit}
    (h : a.execute calls t = (t', r)) : t.Logs t' := by
  have hstart := recordedIn_batchStart t.session.id calls
  cases execute_ran h with
  | never runs first stuck low marks =>
    refine ⟨_, marks.trace, ?_⟩
    rw [marks.session, List.map_append, map_snd_mark, map_snd_mark, recordedIn_append, hstart]
    exact (List.append_nil _).symm
  | cancelled runs first raised marks =>
    refine ⟨_, marks.trace, ?_⟩
    rw [marks.session, List.map_append, map_snd_mark, map_snd_mark, recordedIn_append, hstart]
    exact (List.append_nil _).symm
  | refused runs results e whole refused marks =>
    refine ⟨_, marks.trace, ?_⟩
    have hfinish := recordedIn_batchFinish t.session.id results
    rw [marks.session, List.map_append, map_snd_mark, map_snd_mark, recordedIn_append, hstart]
    show _ = _ ++ ([] ++ recordedIn (batchFinish t.session.id results ++ [.refused e]))
    rw [recordedIn_append, hfinish]
    exact (List.append_nil _).symm
  | recorded runs results whole recorded marked =>
    refine ⟨batchStart t.session.id calls ++ batchEnd t.session.id runs results, ?_, ?_⟩
    · rw [Turn.trace_of_marked marked, List.map_append, map_snd_mark, map_snd_mark]
    · rw [Session.history_of_appendAll recorded, recordedIn_append, hstart, recordedIn_batchEnd,
        List.nil_append]

theorem logs_along (a : Agent σ) : Along a Turn.Logs where
  refl := Turn.Logs.refl
  trans := Turn.Logs.trans
  fail t e := (Turn.Logs.refl t).fail e
  complete t text := (Turn.Logs.refl t).complete text
  reply _ h := Turn.Logs.record h
  query _ _ h := query_logs h
  execute _ h := execute_logs h

/-- The log of a session grows in a turn by just the messages that the turn
records. -/
theorem runTurn_logs (a : Agent σ) {s : Session} (h : s.Reachable) (c : Clock) (w : σ) :
    (a.runTurn s c w).1.session.history =
      s.history ++ recordedIn (a.runTurn s c w).1.trace := by
  have hopening : (opening s c w).session.history = s.history := by
    rw [session_opening, Session.history_resume]
  have hreject : (opening s c w).Logs (reject s.resume.1 (opening s c w)).1 := by
    obtain ⟨hsession, -, -, htrace⟩ := rejected_is_noop s c w
    refine ⟨[.published (.stateChanged s.id .errored), .published (.turnFinished s.id _)],
      htrace, ?_⟩
    rw [hsession, hopening]
    exact (List.append_nil _).symm
  have hlogs := (logs_along a).runTurn h c w hreject
  obtain ⟨os, htrace, hlog⟩ := hlogs
  rw [hlog, htrace, hopening, trace_opening]
  rfl

end Agent

end AgentLoop
