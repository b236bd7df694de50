/-
AgentLoop.Proofs.Turn.LogShape — what a turn leaves in the log.

* `answeredBatches` — the batches that the backend asked for
* `LogTail` — what follows the last block, by the outcome of the turn
* `Agent.Tailed`, `Agent.Stop.tailed` — the stop of the loop adds a tail
  and nothing else
* `turn_log_shape` — the log grows by the results of the calls that were
  pending, by a block for each batch in its order, and by a tail

No assumption on fresh identifiers is needed: a batch whose identifiers
clash is refused as a whole, and the log ends before it.
-/
import AgentLoop.Proofs.Turn.Course

namespace AgentLoop

/-- The batches that the backend asked for, those without calls left out,
in their order. -/
def answeredBatches (os : List Occurrence) : List (List ToolCallRequest) :=
  os.filterMap fun
    | .answered (.ok (.toolCallBatch (call :: rest) _ _)) => some (call :: rest)
    | _ => none

/-- What follows the last block of a turn: the answer, or nothing, or, if
the turn was cancelled while tools were run, the calls of the batch that
was abandoned. The list holds what was requested in that batch. -/
inductive LogTail : TurnOutcome → List (List ToolCallRequest) → List Message → Prop
  | answer (text : NonBlank) : LogTail (.finalAnswer text.text) [] [.assistantText text]
  | done : LogTail (.finalAnswer "") [] []
  | failed (kind : TurnErrorKind) (message : String) :
      LogTail (.errored kind message) [] []
  | abandoned (message : String) {requested : List ToolCallRequest} {calls : List Message}
      (nonempty : requested ≠ [])
      (asks : calls.map Message.asks? =
        requested.map fun r => some (r.toolName, r.arguments)) :
      LogTail (.errored .cancelled message) [requested] calls

/-! ## Batches in a trace -/

@[simp] theorem answeredBatches_append (os os' : List Occurrence) :
    answeredBatches (os ++ os') = answeredBatches os ++ answeredBatches os' := by
  simp [answeredBatches]

theorem answeredBatches_eq_nil {os : List Occurrence}
    (h : ∀ o ∈ os, o.isDialogue = false) : answeredBatches os = [] := by
  rw [answeredBatches, List.filterMap_eq_nil_iff]
  intro o ho
  have hother := h o ho
  cases o with
  | answered result => cases hother
  | _ => rfl

theorem answeredBatches_retrySteps (id : SessionId) (view : List Message)
    (specs : List ToolSpec) (retry : Nat) (es : List ProviderError) :
    answeredBatches (retrySteps id view specs retry es) = [] := by
  induction es generalizing retry with
  | nil => rfl
  | cons e rest ih => exact ih (retry + 1)

/-- Of a question only the answer that decided it can be a batch. -/
theorem answeredBatches_occurrences (q : Inquiry) (id : SessionId) (specs : List ToolSpec) :
    answeredBatches (q.occurrences id specs) = answeredBatches [.answered q.answer] := by
  have hretried := answeredBatches_retrySteps id q.view specs 0 q.retried
  show answeredBatches (retrySteps id q.view specs 0 q.retried ++ _) = _
  rw [answeredBatches_append, hretried]
  rfl

theorem answeredBatches_answered {requested : List ToolCallRequest} {done : Bool}
    {u : Option TokenUsage} (h : requested ≠ []) :
    answeredBatches [.answered (.ok (.toolCallBatch requested done u))] = [requested] := by
  cases requested with
  | nil => exact absurd rfl h
  | cons call rest => rfl

namespace Agent

variable {σ : Type} {a : Agent σ} {t t' : Turn σ}

theorem Rounds.batches {rs : List (Inquiry × Block)} (h : Rounds a t rs t') :
    answeredBatches t'.trace =
      answeredBatches t.trace ++ rs.map (·.2.requested) := by
  induction h with
  | nil t => simp
  | @cons t t₁ t₂ q b rs first rest ih =>
    obtain ⟨os, htrace, hos⟩ := first.trace_split
    obtain ⟨done, u, hanswer⟩ := first.answer
    rw [ih, htrace, answeredBatches_append, answeredBatches_append,
      answeredBatches_occurrences, hanswer,
      answeredBatches_answered first.wellFormed.nonempty, answeredBatches_eq_nil hos,
      List.append_nil, List.append_assoc]
    rfl

theorem Opened.batches {s : Session} {c : Clock} {w : σ} {r0 : List Message}
    (h : Opened s (opening s c w) r0 t) : answeredBatches t.trace = [] := by
  obtain ⟨os, htrace, hos⟩ := h.trace
  have hnone := answeredBatches_eq_nil fun o ho =>
    Occurrence.not_dialogue_of_toolWork (hos o ho)
  rw [htrace, trace_opening, answeredBatches_append, hnone]
  rfl

/-! ## The tail -/

/-- An answer that ends a turn is no batch of calls. -/
theorem Finished.batches {q : Inquiry} {text : Option String}
    (h : Finished a t q text t') : answeredBatches t'.trace = answeredBatches t.trace := by
  rw [h.trace, answeredBatches_append, answeredBatches_occurrences]
  rcases h.answer with ⟨answer, u, -, -, hanswer⟩ | ⟨u, -, hanswer⟩
  · rw [hanswer]
    exact List.append_nil _
  · rw [hanswer]
    exact List.append_nil _

/-- From `t` to the end of the turn a tail is added to the log and nothing
else. If that is an abandoned batch, it is the first one that was asked for
on the way; if it is an answer, no batch was. -/
structure Tailed (t : Turn σ) (o : TurnOutcome) (extra : List (List ToolCallRequest))
    (tail : List Message) (t' : Turn σ) : Prop where
  history : t'.session.history = t.session.history ++ tail
  shape : LogTail o extra tail
  batches : answeredBatches t.trace ++ extra <+: answeredBatches t'.trace
  answered : ∀ text, o = .finalAnswer text →
    answeredBatches t'.trace = answeredBatches t.trace

/-- A turn that fails without recording anything more. -/
theorem tailed_fail {e : AgentError} (hlog : t'.session.history = t.session.history)
    (htrace : ∃ os, t'.trace = t.trace ++ os) :
    Tailed t (.ofError e) [] [] (t'.fail e).1 := by
  obtain ⟨os, htrace⟩ := htrace
  refine ⟨?_, .failed _ _, ?_, by rintro text ⟨⟩⟩
  · rw [Turn.session_fail, Session.history_markFailed, hlog, List.append_nil]
  · rw [Turn.trace_fail, htrace, answeredBatches_append, answeredBatches_append,
      List.append_nil, List.append_assoc]
    exact List.prefix_append _ _

/-- A turn that ends without an answer because the backend is done. -/
theorem Finished.tailed_none {q : Inquiry} (h : Finished a t q none t') :
    Tailed t (.finalAnswer "") [] [] (t'.complete "").1 := by
  have hsame : answeredBatches (t'.complete "").1.trace = answeredBatches t.trace := by
    rw [Turn.trace_complete, answeredBatches_append, h.batches]
    exact List.append_nil _
  refine ⟨?_, .done, ?_, fun _ _ => hsame⟩
  · rw [Turn.session_complete, Session.history_markCompleted, h.history, List.append_nil]
  · exact ⟨[], by rw [hsame, List.append_nil, List.append_nil]⟩

/-- A turn that ends with an answer, which is recorded. -/
theorem Finished.tailed_some {q : Inquiry} {text : String} {s : Session}
    (h : Finished a t q (some text) t')
    (ok : t'.session.appendAll [.assistantText ⟨text, h.said⟩] = .ok s) :
    Tailed t (.finalAnswer text) [] [.assistantText ⟨text, h.said⟩]
      ((({ t' with session := s } : Turn σ).note
        (.recorded [.assistantText ⟨text, h.said⟩])).complete text).1 := by
  have hsame : answeredBatches ((({ t' with session := s } : Turn σ).note
      (.recorded [.assistantText ⟨text, h.said⟩])).complete text).1.trace =
      answeredBatches t.trace := by
    rw [Turn.trace_complete, Turn.trace_note, answeredBatches_append, answeredBatches_append]
    show answeredBatches t'.trace ++ [] ++ [] = _
    rw [List.append_nil, List.append_nil, h.batches]
  refine ⟨?_, .answer ⟨text, h.said⟩, ?_, fun _ _ => hsame⟩
  · rw [Turn.session_complete, Session.history_markCompleted]
    show s.history = _
    rw [Session.history_of_appendAll ok, h.history]
  · exact ⟨[], by rw [hsame, List.append_nil, List.append_nil]⟩

/-- A turn that is cancelled while the calls of a batch are run. -/
theorem Issued.tailed {t₁ : Turn σ} {q : Inquiry} {requested calls : List ToolCallRequest}
    {messages : List Message} (h : Issued a t q requested calls messages t₁)
    (hworks : t₁.Works t') :
    Tailed t (.ofError .cancelled) [requested] messages (t'.fail .cancelled).1 := by
  obtain ⟨work, -, hpass⟩ := hworks
  obtain ⟨os, htrace, -⟩ := h.trace
  obtain ⟨done, u, hanswer⟩ := h.answer
  refine ⟨?_, .abandoned _ h.nonempty h.asks, ?_, by rintro text ⟨⟩⟩
  · rw [Turn.session_fail, Session.history_markFailed, hpass.session, h.history]
  · rw [Turn.trace_fail, hpass.trace, htrace]
    simp only [answeredBatches_append, answeredBatches_occurrences, hanswer,
      answeredBatches_answered h.nonempty]
    rw [← List.append_assoc, List.append_assoc, List.append_assoc]
    exact List.prefix_append _ _

/-- The stop of the loop adds a tail to the log and nothing else. -/
theorem Stop.tailed {left : Nat} {o : TurnOutcome} {e : Ended σ} (h : Stop a left t e)
    (hquiet : t.session.Quiet) (hend : e.2 = some o) :
    ∃ extra tail, Tailed t o extra tail e.1 := by
  cases h with
  | cancelled stopped =>
    cases hend
    exact ⟨[], [], tailed_fail rfl ⟨[], by simp⟩⟩
  | exhausted =>
    cases hend
    exact ⟨[], [], tailed_fail rfl ⟨[], by simp⟩⟩
  | unanswered queried => cases hend
  | failed queried =>
    obtain ⟨hlog, htrace⟩ := queried.history_of_failed
    cases hend
    exact ⟨[], [], tailed_fail hlog htrace⟩
  | @finished left _ t₁ text queried =>
    obtain ⟨q, hfinished⟩ := queried.finished
    cases text with
    | none =>
      cases hend
      exact ⟨[], [], hfinished.tailed_none⟩
    | some text =>
      obtain ⟨s, ok, hfinish⟩ := finish_some (hfinished.quiet hquiet) hfinished.said
      rw [ended, hfinish] at hend ⊢
      cases hend
      exact ⟨[], _, hfinished.tailed_some ok⟩
  | stuck queried executed => cases hend
  | @abandoned left _ t₁ t₂ calls e queried executed =>
    obtain ⟨q, requested, messages, hissued⟩ := queried.issued
    cases executed with
    | cancelled works stopped =>
      cases hend
      exact ⟨[requested], messages, hissued.tailed works⟩
    | refused results e each works refused =>
      obtain ⟨s, ok, -⟩ := (hissued.waits hquiet).records_results
        (isSome_answers?_toMessage results) ((answered_toMessage results).trans each)
      rw [ok] at refused
      cases refused

/-- What a turn leaves in the log, if it can begin and ends: the results of
the calls that were pending, in the order of these calls, then a block for
each batch that the backend asked for, in the order of the batches, then a
tail. Only a turn without an answer may leave a batch out, and it leaves
out none but those at the end. If the turn is cancelled while pending calls
are run, it leaves nothing. -/
theorem turn_log_shape (a : Agent σ) {s : Session} (c : Clock) (w : σ) (h : s.Reachable)
    (hbegin : s.canBegin = true) {t : Turn σ} {o : TurnOutcome}
    (hend : a.runTurn s c w = (t, some o)) :
    ∃ r0 blocks extra tail,
      t.session.history =
        s.history ++ r0 ++ blocks.flatMap Block.messages ++ tail ∧
      (r0.map Message.answers? = (Log.openCalls s.history).map Message.issues? ∨
        r0 = [] ∧ blocks = [] ∧ tail = [] ∧ ∃ message, o = .errored .cancelled message) ∧
      (∀ b ∈ blocks, b.WellFormed) ∧
      LogTail o extra tail ∧
      blocks.map (·.requested) ++ extra <+: answeredBatches t.trace ∧
      ∀ text, o = .finalAnswer text →
        answeredBatches t.trace = blocks.map (·.requested) := by
  have hcourse := runTurn_course a h c w
  rw [hend] at hcourse
  generalize hE : (t, some o) = E at hcourse
  cases hcourse with
  | rejected unfit =>
    rw [hbegin] at unfit
    cases unfit
  | interrupted fit pending works stopped =>
    obtain ⟨os, -, hpass⟩ := works
    cases hE
    refine ⟨[], [], [], [], ?_, Or.inr ⟨rfl, rfl, rfl, _, rfl⟩, by simp, .failed _ _,
      by simp, by rintro text ⟨⟩⟩
    rw [Turn.session_fail, Session.history_markFailed, hpass.session, session_opening,
      Session.history_resume]
    simp
  | stuck fit works tools => cases hE
  | @ran r0 t₁ t₂ rs left _ fit opened rounds length stop =>
    subst hE
    obtain ⟨extra, tail, htailed⟩ := stop.tailed (rounds.quiet opened.quiet) rfl
    have hrounds : answeredBatches t₂.trace = (rs.map (·.2)).map (·.requested) := by
      rw [rounds.batches, opened.batches, List.map_map]
      rfl
    have hbatches := htailed.batches
    have hanswered := htailed.answered
    rw [hrounds] at hbatches hanswered
    refine ⟨r0, rs.map (·.2), extra, tail, ?_, Or.inl opened.answers, ?_, htailed.shape,
      hbatches, hanswered⟩
    · rw [htailed.history, rounds.history, opened.history, List.flatMap_map]
    · intro b hb
      obtain ⟨r, hr, rfl⟩ := List.mem_map.mp hb
      exact rounds.wellFormed r hr

/-- A turn that first runs a call that was pending, then a batch, and then
has its answer. -/
theorem log_shape_of_resumed_batch :
    let e := (replaying [reusingBatch, .ok (.finalAnswer "fine" none)]).runTurn
      halfAnswered ⟨0, .absent⟩ (0, 7)
    e.2 = some (.finalAnswer "fine") ∧ e.1.session.history.length = 10 ∧
      ∃ (r0 : List Message) (blocks : List Block) (extra : List (List ToolCallRequest))
          (tail : List Message),
        e.1.session.history =
          halfAnswered.history ++ r0 ++ blocks.flatMap Block.messages ++ tail ∧
        r0.map Message.answers? = [some (.numbered 1)] ∧
        LogTail (.finalAnswer "fine") extra tail := by
  have hbegin : halfAnswered.canBegin = true := by decide +kernel
  have hend : ((replaying [reusingBatch, .ok (.finalAnswer "fine" none)]).runTurn
      halfAnswered ⟨0, .absent⟩ (0, 7)).2 = some (.finalAnswer "fine") := by
    decide +kernel
  obtain ⟨r0, blocks, extra, tail, hlog, hr0, -, htail, -⟩ :=
    turn_log_shape (replaying [reusingBatch, .ok (.finalAnswer "fine" none)])
      ⟨0, .absent⟩ (0, 7) reachable_halfAnswered hbegin (Prod.ext rfl hend)
  refine ⟨hend, by decide +kernel, r0, blocks, extra, tail, hlog, ?_, htail⟩
  rcases hr0 with hr0 | ⟨-, -, -, message, hcancelled⟩
  · have hopen : (Log.openCalls halfAnswered.history).map Message.issues? =
        [some (.numbered 1)] := by
      decide +kernel
    rw [hr0, hopen]
  · cases hcancelled

end Agent

end AgentLoop
