/-
AgentLoop.Proofs.Turn.Course — how a turn runs.

* `Block` — what one batch of calls leaves in the log
* `Issued`, `Round` — a question that was answered with a batch, up to the
  recording of its calls and up to that of their results
* `Rounds` — rounds one after the other, with what they add up to
* `Stop` — how the loop stops behind its rounds
* `loop_course` — the loop is some rounds and a stop
* `Course`, `runTurn_course` — a turn is turned down, or cut short while
  pending calls are run, or comes to the loop

A round leads from a quiet session to a quiet session, so what holds of
one round holds of them all by induction on the rounds.
-/
import AgentLoop.Proofs.Session.Standing
import AgentLoop.Proofs.Turn.Executing
import AgentLoop.Proofs.Turn.Settling

namespace AgentLoop

/-- What one batch of calls leaves in the log: the calls that were
requested, as they are recorded, and their results. -/
structure Block where
  requested : List ToolCallRequest
  calls : List Message
  results : List Message

/-- There is one call for each one that was requested, and one result for
each call, all of them in the same order. -/
structure Block.WellFormed (b : Block) : Prop where
  nonempty : b.requested ≠ []
  asks : b.calls.map Message.asks? =
    b.requested.map fun r => some (r.toolName, r.arguments)
  answers : b.results.map Message.answers? = b.calls.map Message.issues?

/-- The messages of a block. -/
def Block.messages (b : Block) : List Message := b.calls ++ b.results

theorem Occurrence.not_dialogue_of_assignment {o : Occurrence}
    (h : o.isAssignment = true) : o.isDialogue = false := by
  cases o <;> first | rfl | cases h

theorem Occurrence.not_dialogue_of_toolWork {o : Occurrence}
    (h : o.isToolWork = true) : o.isDialogue = false := by
  cases o with
  | published e =>
    cases e with
    | stateChanged id state => cases state <;> first | rfl | cases h
    | _ => first | rfl | cases h
  | _ => first | rfl | cases h

namespace Turn

variable {σ : Type}

@[simp] theorem history_count (t : Turn σ) (u : Option TokenUsage) :
    (t.count u).session.history = t.session.history := by
  cases u <;> rfl

@[simp] theorem id_count (t : Turn σ) (u : Option TokenUsage) :
    (t.count u).session.id = t.session.id := by
  cases u <;> rfl

theorem quiet_count {t : Turn σ} (h : t.session.Quiet) (u : Option TokenUsage) :
    (t.count u).session.Quiet := by
  cases u with
  | none => exact h
  | some u => exact h.recordUsage u

end Turn

namespace Agent

variable {σ : Type} {a : Agent σ} {t t' t'' : Turn σ}

/-! ## A round -/

/-- A question that was answered with a batch, and the batch's calls that
were recorded: what this does to session and trace. -/
structure Issued (a : Agent σ) (t : Turn σ) (q : Inquiry)
    (requested calls : List ToolCallRequest) (messages : List Message)
    (t' : Turn σ) : Prop where
  view : q.view = a.view t.session
  within : q.Within a.settings.retry.maxRetries
  answer : ∃ done u, q.answer = .ok (.toolCallBatch requested done u)
  nonempty : requested ≠ []
  named : ∀ r ∈ requested, Text.isBlank r.toolName = false
  asks : messages.map Message.asks? =
    requested.map fun r => some (r.toolName, r.arguments)
  issues : messages.map Message.issues? = calls.map fun c => some c.callId
  history : t'.session.history = t.session.history ++ messages
  id : t'.session.id = t.session.id
  waits : t.session.Quiet → t'.session.Waits (calls.map (·.callId))
  trace : ∃ os, t'.trace = t.trace ++
      (q.occurrences t.session.id a.tools.describeAll ++ (os ++ [.recorded messages])) ∧
    (∀ o ∈ os, o.isAssignment = true) ∧ assignedIds os = calls.map (·.callId)

theorem Queried.issued {calls : List ToolCallRequest}
    (h : Queried a t t' (.next (.execute calls))) :
    ∃ q requested messages, Issued a t q requested calls messages t' := by
  cases h with
  | @settled t₁ _ _ q os view within passes settled =>
    generalize hanswer : q.answer = answer at settled
    cases settled with
    | @recorded requested done u os _ _ messages nonempty assigns prepared recorded trace =>
      refine ⟨q, requested, messages, ?_⟩
      refine {
        view := view, within := within, answer := ⟨done, u, hanswer⟩
        nonempty := nonempty, named := prepared.named, asks := prepared.asks
        issues := prepared.issues, history := ?_, id := ?_, waits := ?_
        trace := ⟨os, ?_, assigns, prepared.assigned⟩ }
      · rw [Session.history_of_appendAll recorded, Turn.history_count, passes.session]
      · rw [Session.id_of_appendAll recorded, Turn.id_count, passes.session]
      · intro hquiet
        rw [← passes.session] at hquiet
        rw [← prepared.issued_eq]
        exact (Turn.quiet_count hquiet u).waits prepared.isSome_issues? recorded
      · rw [trace, passes.trace, List.append_assoc]

/-- A question that was answered with a batch, and the batch that was run
to its end: what this does to session and trace. -/
structure Round (a : Agent σ) (t : Turn σ) (q : Inquiry) (b : Block)
    (t' : Turn σ) : Prop where
  view : q.view = a.view t.session
  within : q.Within a.settings.retry.maxRetries
  answer : ∃ done u, q.answer = .ok (.toolCallBatch b.requested done u)
  wellFormed : b.WellFormed
  named : ∀ r ∈ b.requested, Text.isBlank r.toolName = false
  history : t'.session.history = t.session.history ++ b.messages
  id : t'.session.id = t.session.id
  quiet : t.session.Quiet → t'.session.Quiet
  trace : ∃ os os', t'.trace = t.trace ++
      (q.occurrences t.session.id a.tools.describeAll ++ (os ++ os')) ∧
    (∀ o ∈ os, o.isAssignment = true) ∧ (∀ o ∈ os', o.isToolWork = true) ∧
    assignedIds os = Log.issued b.messages

theorem Issued.round {t₁ : Turn σ} {q : Inquiry} {requested calls : List ToolCallRequest}
    {messages : List Message} (h : Issued a t q requested calls messages t₁)
    (hexecute : Executed a calls t₁ t' (.next ())) :
    ∃ b, Round a t q b t' := by
  cases hexecute with
  | @recorded t₂ s results each works recorded =>
    obtain ⟨work, hwork, hpass⟩ := works
    obtain ⟨os, htrace, hos, hassigned⟩ := h.trace
    refine ⟨⟨requested, messages, results.map ToolCallResult.toMessage⟩, ?_⟩
    refine {
      view := h.view, within := h.within, answer := h.answer, wellFormed := ?_
      named := h.named, history := ?_, id := ?_, quiet := ?_
      trace := ⟨os, [.recorded messages] ++ work ++
        [.recorded (results.map ToolCallResult.toMessage)], ?_, hos, ?_, ?_⟩ }
    · refine ⟨h.nonempty, h.asks, ?_⟩
      rw [answers?_toMessage, h.issues]
      have hsome := congrArg (List.map some) each
      simpa [Function.comp_def] using hsome
    · show s.history = _
      rw [Session.history_of_appendAll recorded, h.history, List.append_assoc]
      rfl
    · show s.id = _
      rw [Session.id_of_appendAll recorded, h.id]
    · intro hquiet
      exact (h.waits hquiet).quiet (isSome_answers?_toMessage results)
        ((answered_toMessage results).trans each) recorded
    · rw [Turn.trace_note, Turn.trace_with_session, hpass.trace, htrace]
      simp [List.append_assoc]
    · simpa [Occurrence.isToolWork, or_imp, forall_and] using hwork
    · have hnone : Log.issued (results.map ToolCallResult.toMessage) = [] := by
        simp [Log.issued, ToolCallResult.toMessage, Message.issues?]
      have hids : Log.issued messages = calls.map (·.callId) := by
        apply Log.issued_of_map
        rw [h.issues, List.map_map]
        rfl
      rw [Block.messages, Log.issued_append, hnone, List.append_nil, hids, hassigned]

/-- Behind its question, a round leaves nothing that belongs to a
question. -/
theorem Round.trace_split {q : Inquiry} {b : Block} (h : Round a t q b t') :
    ∃ os, t'.trace = t.trace ++ (q.occurrences t.session.id a.tools.describeAll ++ os) ∧
      ∀ o ∈ os, o.isDialogue = false := by
  obtain ⟨os, os', htrace, hos, hos', -⟩ := h.trace
  refine ⟨os ++ os', htrace, ?_⟩
  intro o ho
  rcases List.mem_append.mp ho with ho | ho
  · exact Occurrence.not_dialogue_of_assignment (hos o ho)
  · exact Occurrence.not_dialogue_of_toolWork (hos' o ho)

/-! ## Rounds -/

/-- Rounds one after the other. -/
inductive Rounds (a : Agent σ) : Turn σ → List (Inquiry × Block) → Turn σ → Prop
  | nil (t : Turn σ) : Rounds a t [] t
  | cons {t t₁ t₂ : Turn σ} {q : Inquiry} {b : Block} {rs : List (Inquiry × Block)}
      (first : Round a t q b t₁) (rest : Rounds a t₁ rs t₂) :
      Rounds a t ((q, b) :: rs) t₂

namespace Rounds

variable {rs : List (Inquiry × Block)}

theorem quiet (h : Rounds a t rs t') (hquiet : t.session.Quiet) : t'.session.Quiet := by
  induction h with
  | nil t => exact hquiet
  | cons first rest ih => exact ih (first.quiet hquiet)

theorem id (h : Rounds a t rs t') : t'.session.id = t.session.id := by
  induction h with
  | nil t => rfl
  | cons first rest ih => rw [ih, first.id]

theorem history (h : Rounds a t rs t') :
    t'.session.history = t.session.history ++ rs.flatMap fun r => r.2.messages := by
  induction h with
  | nil t => simp
  | cons first rest ih => rw [ih, first.history, List.flatMap_cons, List.append_assoc]

theorem wellFormed (h : Rounds a t rs t') : ∀ r ∈ rs, r.2.WellFormed := by
  induction h with
  | nil t => simp
  | cons first rest ih =>
    intro r hr
    rcases List.mem_cons.mp hr with rfl | hr
    · exact first.wellFormed
    · exact ih r hr

end Rounds

/-! ## Exits of a question -/

/-- A question that fails leaves the log alone. -/
theorem Queried.history_of_failed {e : AgentError} (h : Queried a t t' (.failed e)) :
    t'.session.history = t.session.history ∧ ∃ os, t'.trace = t.trace ++ os := by
  cases h with
  | cancelled es os short stopped passes =>
    rw [passes.session]
    exact ⟨rfl, _, passes.trace⟩
  | @settled t₁ _ _ q os view within passes settled =>
    have hcount : ∀ u, (t₁.count u).session.history = t.session.history := by
      intro u
      rw [Turn.history_count, passes.session]
    have htrace : ∀ u, (t₁.count u).trace = t.trace ++ _ := fun u =>
      (Turn.trace_count t₁ u).trans passes.trace
    generalize q.answer = answer at settled
    cases settled with
    | failure e => exact ⟨hcount none, _, passes.trace⟩
    | blank text u unsaid => exact ⟨hcount u, _, htrace u⟩
    | empty u => exact ⟨hcount u, _, htrace u⟩
    | cancelled done u nonempty stopped => exact ⟨hcount u, _, htrace u⟩
    | unnamed done u e unnamed assigns passes' =>
      rw [passes'.session, passes'.trace, htrace u]
      exact ⟨hcount u, _, List.append_assoc _ _ _⟩
    | refused done u e nonempty assigns prepared refused passes' =>
      rw [passes'.session, passes'.trace, htrace u]
      exact ⟨hcount u, _, List.append_assoc _ _ _⟩

/-- A question that ends the turn with an answer, or without one because the
backend is done: what this does to session and trace. -/
structure Finished (a : Agent σ) (t : Turn σ) (q : Inquiry) (text : Option String)
    (t' : Turn σ) : Prop where
  within : q.Within a.settings.retry.maxRetries
  answer : (∃ answer u, text = some answer ∧ Text.isBlank answer = false ∧
      q.answer = .ok (.finalAnswer answer u)) ∨
    ∃ u, text = none ∧ q.answer = .ok (.toolCallBatch [] true u)
  history : t'.session.history = t.session.history
  quiet : t.session.Quiet → t'.session.Quiet
  trace : t'.trace = t.trace ++ q.occurrences t.session.id a.tools.describeAll

theorem Queried.finished {text : Option String}
    (h : Queried a t t' (.next (.finish text))) : ∃ q, Finished a t q text t' := by
  cases h with
  | @settled t₁ _ _ q os view within passes settled =>
    have hquiet : ∀ u, t.session.Quiet → (t₁.count u).session.Quiet := by
      intro u hquiet
      rw [← passes.session] at hquiet
      exact Turn.quiet_count hquiet u
    have hhistory : ∀ u, (t₁.count u).session.history = t.session.history := by
      intro u
      rw [Turn.history_count, passes.session]
    refine ⟨q, ?_⟩
    generalize hanswer : q.answer = answer at settled
    cases settled with
    | answer answer u said =>
      exact ⟨within, Or.inl ⟨answer, u, rfl, said, hanswer⟩, hhistory u, hquiet u,
        (Turn.trace_count t₁ u).trans passes.trace⟩
    | done u =>
      exact ⟨within, Or.inr ⟨u, rfl, hanswer⟩, hhistory u, hquiet u,
        (Turn.trace_count t₁ u).trans passes.trace⟩

theorem Finished.said {q : Inquiry} {text : String} (h : Finished a t q (some text) t') :
    Text.isBlank text = false := by
  rcases h.answer with ⟨answer, u, htext, hsaid, -⟩ | ⟨u, htext, -⟩
  · cases htext
    exact hsaid
  · cases htext

/-- An answer is recorded in a quiet session. -/
theorem finish_some {text : String} (hquiet : t.session.Quiet)
    (hsaid : Text.isBlank text = false) :
    ∃ s, t.session.appendAll [.assistantText ⟨text, hsaid⟩] = .ok s ∧
      t.finish (some text) = (({ t with session := s } : Turn σ).note
        (.recorded [.assistantText ⟨text, hsaid⟩])).complete text := by
  obtain ⟨s, ok⟩ := hquiet.records_text (m := .assistantText ⟨text, hsaid⟩) rfl rfl
  refine ⟨s, ok, ?_⟩
  have hmessage : Message.assistant text = .ok (.assistantText ⟨text, hsaid⟩) :=
    NonBlank.map_ofText Message.assistantText hsaid
  simp only [Turn.finish, hmessage, Turn.record, ok]

/-! ## The stop -/

/-- How the loop stops with so many questions left. -/
inductive Stop (a : Agent σ) : (left : Nat) → Turn σ → Ended σ → Prop
  | cancelled {left : Nat} {t : Turn σ} (stopped : t.clock.isRaised = true) :
      Stop a left t (ended (t.fail .cancelled))
  | exhausted {t : Turn σ} :
      Stop a 0 t (ended (t.fail (.iterationLimitExceeded a.settings.maxIterations)))
  | unanswered {left : Nat} {t t₁ : Turn σ} (queried : Queried a t t₁ .never) :
      Stop a (left + 1) t (t₁, none)
  | failed {left : Nat} {t t₁ : Turn σ} {e : AgentError}
      (queried : Queried a t t₁ (.failed e)) :
      Stop a (left + 1) t (ended (t₁.fail e))
  | finished {left : Nat} {t t₁ : Turn σ} {text : Option String}
      (queried : Queried a t t₁ (.next (.finish text))) :
      Stop a (left + 1) t (ended (t₁.finish text))
  | stuck {left : Nat} {t t₁ t₂ : Turn σ} {calls : List ToolCallRequest}
      (queried : Queried a t t₁ (.next (.execute calls)))
      (executed : Executed a calls t₁ t₂ .never) :
      Stop a (left + 1) t (t₂, none)
  | abandoned {left : Nat} {t t₁ t₂ : Turn σ} {calls : List ToolCallRequest}
      {e : AgentError} (queried : Queried a t t₁ (.next (.execute calls)))
      (executed : Executed a calls t₁ t₂ (.failed e)) :
      Stop a (left + 1) t (ended (t₂.fail e))

/-- The loop is some rounds and a stop. -/
theorem loop_course (a : Agent σ) (n : Nat) (t : Turn σ) :
    ∃ rs left t₁, rs.length + left = n ∧ Rounds a t rs t₁ ∧
      Stop a left t₁ (a.loop n t) := by
  induction n generalizing t with
  | zero =>
    refine ⟨[], 0, t, rfl, .nil t, ?_⟩
    rw [loop]
    split
    · rename_i hraised
      exact .cancelled hraised
    · exact .exhausted
  | succ n ih =>
    rw [loop]
    split
    · rename_i hraised
      exact ⟨[], n + 1, t, by simp, .nil t, .cancelled hraised⟩
    · cases hquery : a.query t with | mk t₁ r₁
      have hqueried := query_cases hquery
      cases r₁ with
      | never => exact ⟨[], n + 1, t, by simp, .nil t, .unanswered hqueried⟩
      | failed e => exact ⟨[], n + 1, t, by simp, .nil t, .failed hqueried⟩
      | next verdict =>
        cases verdict with
        | finish text => exact ⟨[], n + 1, t, by simp, .nil t, .finished hqueried⟩
        | execute calls =>
          dsimp only
          cases hexecute : a.execute calls t₁ with | mk t₂ r₂
          have hexecuted := execute_cases hexecute
          cases r₂ with
          | never => exact ⟨[], n + 1, t, by simp, .nil t, .stuck hqueried hexecuted⟩
          | failed e => exact ⟨[], n + 1, t, by simp, .nil t, .abandoned hqueried hexecuted⟩
          | next _ =>
            obtain ⟨q, requested, messages, hissued⟩ := hqueried.issued
            obtain ⟨b, hround⟩ := hissued.round hexecuted
            obtain ⟨rs, left, t₃, hlength, hrounds, hstop⟩ := ih t₂
            refine ⟨(q, b) :: rs, left, t₃, ?_, .cons hround hrounds, hstop⟩
            rw [List.length_cons]
            omega

/-! ## A whole turn -/

theorem isSome_issues?_openCalls {log : List Message} :
    ∀ m ∈ Log.openCalls log, m.issues?.isSome := by
  intro m hm
  obtain ⟨-, id, hid, -⟩ := Log.mem_openCalls.mp hm
  rw [hid]
  rfl

/-- The beginning of a turn that goes on to the loop: the results `r0` of
the calls that were pending are recorded. -/
structure Opened (s : Session) (t : Turn σ) (r0 : List Message) (t' : Turn σ) : Prop where
  answers : r0.map Message.answers? = (Log.openCalls s.history).map Message.issues?
  history : t'.session.history = s.history ++ r0
  id : t'.session.id = s.id
  quiet : t'.session.Quiet
  trace : ∃ os, t'.trace = t.trace ++ os ∧ ∀ o ∈ os, o.isToolWork = true

theorem Opened.issued_results {s : Session} {r0 : List Message}
    (h : Opened s t r0 t') : Log.issued r0 = [] := by
  rw [Log.issued, List.filterMap_eq_nil_iff]
  intro m hm
  have hmem : m.answers? ∈ r0.map Message.answers? := List.mem_map_of_mem hm
  rw [h.answers] at hmem
  obtain ⟨call, hcall, hid⟩ := List.mem_map.mp hmem
  obtain ⟨id, hissues⟩ := Option.isSome_iff_exists.mp (isSome_issues?_openCalls call hcall)
  exact Message.issues?_of_answers? (hid.symm.trans hissues)

/-- How a turn of a reachable session runs: it is turned down, or cut
short or never ends while pending calls are run, or comes to the loop. -/
inductive Course (a : Agent σ) (s : Session) (t : Turn σ) : Ended σ → Prop
  | rejected (unfit : s.canBegin = false) :
      Course a s t (ended (reject s.resume.1 t))
  | interrupted {t₁ : Turn σ} (fit : s.canBegin = true)
      (pending : Log.openCalls s.history ≠ []) (works : t.Works t₁)
      (stopped : t₁.clock.isRaised = true) :
      Course a s t (ended (t₁.fail .cancelled))
  | stuck {t₁ : Turn σ} (fit : s.canBegin = true) (works : t.Works t₁)
      (tools : ¬ a.tools.Ends a.settings.toolTimeoutMs) :
      Course a s t (t₁, none)
  | ran {r0 : List Message} {t₁ t₂ : Turn σ} {rs : List (Inquiry × Block)} {left : Nat}
      {e : Ended σ} (fit : s.canBegin = true) (opened : Opened s t r0 t₁)
      (rounds : Rounds a t₁ rs t₂)
      (length : rs.length + left = a.settings.maxIterations) (stop : Stop a left t₂ e) :
      Course a s t e

theorem session_opening (s : Session) (c : Clock) (w : σ) :
    (opening s c w).session = s.resume.2 := rfl

theorem trace_opening (s : Session) (c : Clock) (w : σ) :
    (opening s c w).trace = [.published (.stateChanged s.id .idle)] := rfl

/-- Calls as requests again: one for each, in their order. -/
theorem callIds_requests {ms : List Message} (h : ∀ m ∈ ms, m.issues?.isSome) :
    (ms.filterMap requestOf?).map (fun r => some r.callId) = ms.map Message.issues? := by
  induction ms with
  | nil => rfl
  | cons m rest ih =>
    have hrest := ih fun m hm => h m (List.mem_cons_of_mem _ hm)
    have hfirst := h m (by simp)
    cases m with
    | toolCall id tool arguments =>
      show some id :: (rest.filterMap requestOf?).map (fun r => some r.callId) = _
      rw [hrest]
      rfl
    | _ => cases hfirst

theorem callIds_pendingRequests {s : Session} (h : s.Reachable) :
    (pendingRequests s.resume.2).map (fun r => some r.callId) =
      (Log.openCalls s.history).map Message.issues? := by
  rw [pendingRequests, Session.pendingToolCalls_resume h]
  exact callIds_requests isSome_issues?_openCalls

/-- A turn that finds nothing pending. -/
theorem runTurn_of_none (a : Agent σ) {s : Session} (h : s.Reachable) (c : Clock) (w : σ)
    (hnone : Log.openCalls s.history = []) :
    Course a s (opening s c w)
      (if s.resume.2.awaitsReply then a.loop a.settings.maxIterations (opening s c w)
        else ended (reject s.resume.1 (opening s c w))) := by
  have hpending : s.resume.2.pendingToolCalls = [] := by
    rw [Session.pendingToolCalls_resume h, hnone]
  split
  · rename_i hawaits
    have hquiet := Session.quiet_of_awaitsReply h hpending hawaits
    obtain ⟨rs, left, t, hlength, hrounds, hstop⟩ :=
      a.loop_course a.settings.maxIterations (opening s c w)
    have hopened : Opened s (opening s c w) [] (opening s c w) := {
      answers := by rw [hnone]; rfl
      history := by simp [session_opening]
      id := by simp [session_opening]
      quiet := hquiet
      trace := ⟨[], by simp, by simp⟩ }
    exact .ran (by simp [Session.canBegin, hawaits]) hopened hrounds hlength hstop
  · rename_i hunasked
    exact .rejected (by simp [Session.canBegin, hpending, hunasked])

/-- The pending calls that were run to their end open the turn. -/
theorem Executed.opened {s : Session} {c : Clock} {w : σ} {calls : List ToolCallRequest}
    (hids : calls.map (fun r => some r.callId) =
      (Log.openCalls s.history).map Message.issues?)
    (hwaits : s.resume.2.Waits (calls.map (·.callId)))
    (h : Executed a calls (opening s c w) t' (.next ())) :
    ∃ r0, Opened s (opening s c w) r0 t' := by
  cases h with
  | @recorded t₁ s' results each works recorded =>
    obtain ⟨os, hos, hpass⟩ := works
    generalize hlast : Occurrence.recorded (results.map ToolCallResult.toMessage) = last
    refine ⟨results.map ToolCallResult.toMessage, ?_⟩
    refine { answers := ?_, history := ?_, id := ?_, quiet := ?_, trace := ?_ }
    · rw [answers?_toMessage, ← hids]
      have hsome := congrArg (List.map some) each
      simpa [Function.comp_def] using hsome
    · show s'.history = _
      rw [Session.history_of_appendAll recorded, session_opening, Session.history_resume]
    · show s'.id = _
      rw [Session.id_of_appendAll recorded, session_opening, Session.id_resume]
    · exact hwaits.quiet (isSome_answers?_toMessage results)
        ((answered_toMessage results).trans each) recorded
    · refine ⟨os ++ [last], ?_, ?_⟩
      · rw [Turn.trace_note, Turn.trace_with_session, hpass.trace, List.append_assoc]
      · simpa [← hlast, Occurrence.isToolWork, or_imp, forall_and] using hos

theorem runTurn_course (a : Agent σ) {s : Session} (h : s.Reachable) (c : Clock) (w : σ) :
    Course a s (opening s c w) (a.runTurn s c w) := by
  have hids := callIds_pendingRequests h
  unfold runTurn
  dsimp only
  rw [session_opening]
  cases hcalls : pendingRequests s.resume.2 with
  | nil =>
    rw [hcalls] at hids
    exact runTurn_of_none a h c w (List.map_eq_nil_iff.mp hids.symm)
  | cons call rest =>
    rw [hcalls] at hids
    have hopen : Log.openCalls s.history ≠ [] := by
      intro hnone
      rw [hnone] at hids
      cases hids
    have hpending : s.resume.2.pendingToolCalls ≠ [] := by
      rw [Session.pendingToolCalls_resume h]
      exact hopen
    have hfit : s.canBegin = true := by
      simp [Session.canBegin, hpending]
    have hwaits := Session.waits_of_pending h hpending
    have hissued : Log.issued (Log.openCalls s.history) =
        (call :: rest).map (·.callId) := by
      apply Log.issued_of_map
      rw [← hids, List.map_map]
      rfl
    rw [hissued] at hwaits
    dsimp only
    split
    · rename_i hraised
      exact .interrupted hfit hopen (.refl _) hraised
    · cases hexecute : a.execute (call :: rest) (opening s c w) with | mk t₁ r₁
      have hexecuted := execute_cases hexecute
      cases r₁ with
      | never =>
        cases hexecuted with
        | never works stuck => exact .stuck hfit works stuck
      | failed e =>
        cases hexecuted with
        | cancelled works stopped => exact .interrupted hfit hopen works stopped
        | refused results e each works refused =>
          obtain ⟨s', ok, -⟩ := hwaits.records_results
            (isSome_answers?_toMessage results) ((answered_toMessage results).trans each)
          rw [session_opening, ok] at refused
          cases refused
      | next _ =>
        obtain ⟨r0, hopened⟩ := hexecuted.opened hids hwaits
        obtain ⟨rs, left, t₂, hlength, hrounds, hstop⟩ :=
          a.loop_course a.settings.maxIterations t₁
        exact .ran hfit hopened hrounds hlength hstop

/-- A turn that cannot begin is turned down. -/
theorem runTurn_of_unfit (a : Agent σ) {s : Session} (h : s.Reachable) (c : Clock) (w : σ)
    (hunfit : s.canBegin = false) :
    a.runTurn s c w = ended (reject s.resume.1 (opening s c w)) := by
  have hcourse := runTurn_course a h c w
  generalize a.runTurn s c w = e at hcourse
  cases hcourse with
  | rejected unfit => rfl
  | interrupted fit =>
    rw [hunfit] at fit
    cases fit
  | stuck fit =>
    rw [hunfit] at fit
    cases fit
  | ran fit =>
    rw [hunfit] at fit
    cases fit

/-! ## A backend that replays answers -/

/-- An agent without tools whose backend gives some answers at once, one
after the other. The world counts the answers and the fresh identifiers
that were given. -/
def replaying (answers : List ProviderResult) : Agent (Nat × Nat) where
  provider := {
    name := "replay"
    complete := fun _ _ w => .done (w.1 + 1, w.2)
      (answers[w.1]?.getD (.error (.malformed "no answer left"))) }
  tools := .empty
  settings := {}
  freshId := fun w => (.numbered w.2, (w.1, w.2 + 1))

/-- A session whose turn failed when one of two calls had its result. -/
def halfAnswered : Session :=
  (Session.new ⟨"s"⟩).performAll
    [.append (.userText ⟨"go", by decide⟩),
     .appendAll [.toolCall (.numbered 1) ⟨"look", by decide⟩ .null,
       .toolCall (.numbered 2) ⟨"look", by decide⟩ .null],
     .append (.toolResult (.numbered 2) .ok .null), .markFailed]

theorem reachable_halfAnswered : halfAnswered.Reachable :=
  (Session.Reachable.new _).performAll _

/-- A batch of two calls, of which the first one has an identifier that
`halfAnswered` has already. -/
def reusingBatch : ProviderResult :=
  .ok (.toolCallBatch [⟨.numbered 2, "look", .null⟩, ⟨.numbered 3, "look", .null⟩]
    false none)

theorem replaying_answers (answers : List ProviderResult) :
    (replaying answers).provider.Answers := fun _ _ _ => True.intro

theorem replaying_ends (answers : List ProviderResult) (limit : Option Nat) :
    (replaying answers).tools.Ends limit :=
  Or.inr fun _ h => absurd h List.not_mem_nil

end Agent

end AgentLoop
