/-
AgentLoop.Proofs.Turn.Usage — the usage of a session and what was reported.

* `Turn.Counts` — a stretch of a turn in which the usage of the session grows by just
  the usages that are reported
* `attempt_reports`, `acceptReply_usage` — what one question reports, and that a
  reply counts whatever becomes of it
* `runTurn_usage` — every turn is such a stretch
* `Session.Tallies`, `usage_tallies` — over all its turns, the usage of a session is the
  sum of all usages that were reported

A reply is counted before it is judged, so each way in which a reply can fail the
turn has counted it. Nothing else of a turn touches the usage.
-/
import AgentLoop.Proofs.Provider.Usage
import AgentLoop.Proofs.Turn.Lifetime

namespace AgentLoop

open Number (max32)

@[simp] theorem reportedIn_append (os os' : List Occurrence) :
    reportedIn (os ++ os') = reportedIn os ++ reportedIn os' := List.filterMap_append

theorem reportedIn_eq_nil {os : List Occurrence} (h : ∀ o ∈ os, o.usage? = none) :
    reportedIn os = [] := List.filterMap_eq_nil_iff.mpr h

/-- A reply reports its usage, if it has one. -/
theorem reportedIn_reply (reply : ProviderReply) :
    reportedIn [.answered (.ok reply)] = reply.usage?.toList := by
  cases h : reply.usage? <;> simp [reportedIn, Occurrence.usage?, h]

/-- What one question reports: the usage of the reply that it gets, and nothing if it
gets an error, is abandoned or is never answered. -/
def StepResult.reported : StepResult ProviderResult → List TokenUsage
  | .next (.ok reply) => reply.usage?.toList
  | .next (.error _) | .failed _ | .never => []

namespace Occurrence

variable {o : Occurrence}

theorem usage?_of_assignment (h : o.isAssignment = true) : o.usage? = none := by
  cases o <;> first | rfl | cases h

theorem usage?_of_toolWork (h : o.isToolWork = true) : o.usage? = none := by
  cases o <;> first | rfl | cases h

end Occurrence

/-- Failures report nothing. -/
theorem reportedIn_retrySteps (id : SessionId) (view : List Message) (specs : List ToolSpec)
    (retry : Nat) (es : List ProviderError) :
    reportedIn (retrySteps id view specs retry es) = [] := by
  induction es generalizing retry with
  | nil => rfl
  | cons e rest ih => exact ih (retry + 1)

/-- Of a question that was decided, only the answer that decided it may report
something. -/
theorem Inquiry.reportedIn_occurrences (q : Inquiry) (id : SessionId) (specs : List ToolSpec) :
    reportedIn (q.occurrences id specs) = reportedIn [.answered q.answer] := by
  show reportedIn (retrySteps id q.view specs 0 q.retried ++
    [.asked q.view specs, .answered q.answer]) = _
  rw [reportedIn_append, reportedIn_retrySteps]
  rfl

/-! ## The usage of a session -/

namespace Session

variable {s s' : Session}

theorem usage_of_appendAll {ms : List Message} (ok : s.appendAll ms = .ok s') :
    s'.usage = s.usage := by
  obtain ⟨-, ledger, -, rfl⟩ := appendAll_ok_iff.mp ok
  rfl

@[simp] theorem usage_markCompleted (s : Session) : s.markCompleted.usage = s.usage := by
  unfold markCompleted
  split <;> rfl

@[simp] theorem usage_resume (s : Session) : s.resume.2.usage = s.usage := by
  unfold Session.resume
  split <;> rfl

/-- An operation adds its tokens, if it is one that has some, and nothing else. -/
theorem usage_perform (s : Session) (op : SessionOp) :
    (s.perform op).usage = op.tokens.foldl (· + ·) s.usage := by
  have happend : ∀ ms, (((s.appendAll ms).toOption).getD s).usage = s.usage := by
    intro ms
    cases ok : s.appendAll ms with
    | error e => rfl
    | ok s' => exact usage_of_appendAll ok
  cases op with
  | append m => exact happend [m]
  | appendAll ms => exact happend ms
  | resume => exact usage_resume s
  | recordUsage u => rfl
  | markCompleted => exact usage_markCompleted s
  | markFailed => rfl

end Session

namespace Turn

variable {σ : Type} {t t' t'' : Turn σ}

/-- A reply that is counted adds its usage, if it has one. -/
theorem usage_count (t : Turn σ) (u : Option TokenUsage) :
    (t.count u).session.usage = u.toList.foldl (· + ·) t.session.usage := by
  cases u <;> rfl

/-- From `t` to `t'` the usage of the session grows by just the usages that were
reported. -/
def Counts (t t' : Turn σ) : Prop :=
  ∃ os, t'.trace = t.trace ++ os ∧
    t'.session.usage = (reportedIn os).foldl (· + ·) t.session.usage

namespace Counts

theorem refl (t : Turn σ) : t.Counts t := ⟨[], by simp, rfl⟩

theorem trans (h : t.Counts t') (h' : t'.Counts t'') : t.Counts t'' := by
  obtain ⟨os, htrace, husage⟩ := h
  obtain ⟨os', htrace', husage'⟩ := h'
  refine ⟨os ++ os', ?_, ?_⟩
  · rw [htrace', htrace, List.append_assoc]
  · rw [husage', husage, reportedIn_append, List.foldl_append]

theorem of_passes {os : List Occurrence} (h : t.Passes os t') (hos : reportedIn os = []) :
    t.Counts t' := by
  refine ⟨os, h.trace, ?_⟩
  rw [h.session, hos]
  rfl

theorem of_works (h : t.Works t') : t.Counts t' := by
  obtain ⟨os, hos, hpass⟩ := h
  exact of_passes hpass
    (reportedIn_eq_nil fun o ho => Occurrence.usage?_of_toolWork (hos o ho))

theorem fail (t : Turn σ) (e : AgentError) : t.Counts (t.fail e).1 :=
  ⟨_, trace_fail t e, rfl⟩

theorem complete (t : Turn σ) (text : String) : t.Counts (t.complete text).1 :=
  ⟨_, trace_complete t text, Session.usage_markCompleted _⟩

/-- A group of messages is recorded, or refused. -/
theorem record {ms : List Message} {e : Option AppendError} (h : t.record ms = (t', e)) :
    t.Counts t' := by
  unfold Turn.record at h
  cases happend : t.session.appendAll ms with
  | error e =>
    rw [happend] at h
    cases h
    exact ⟨[.refused e], trace_note t _, rfl⟩
  | ok s =>
    rw [happend] at h
    cases h
    exact ⟨[.recorded ms], trace_note _ _, Session.usage_of_appendAll happend⟩

end Counts

end Turn

namespace Agent

variable {σ : Type} {a : Agent σ} {t t' : Turn σ}

/-! ## Steps -/

theorem attempt_reports {view : List Message} {specs : List ToolSpec}
    {r : StepResult ProviderResult} (h : a.attempt view specs t = (t', r)) :
    ∃ os, t.Passes os t' ∧ reportedIn os = r.reported := by
  obtain ⟨os, hpass, hcase⟩ := attempt_cases h
  refine ⟨os, hpass, ?_⟩
  cases hcase with
  | answered result =>
    cases result with
    | ok reply => exact reportedIn_reply reply
    | error e => rfl
  | cancelled os short stopped => rcases short with rfl | rfl <;> rfl
  | never stuck => rfl

/-- Whatever becomes of an answer, its usage is counted once, and nothing else is
reported on the way. -/
theorem Settled.usage {answer : ProviderResult} {os : List Occurrence} {r : StepResult Verdict}
    (h : Settled a t answer os t' r) :
    t'.trace = t.trace ++ os ∧ reportedIn os = [] ∧
      t'.session.usage = (reportedIn [.answered answer]).foldl (· + ·) t.session.usage := by
  have hassigns : ∀ {os : List Occurrence}, (∀ o ∈ os, o.isAssignment = true) →
      reportedIn os = [] := fun hos =>
    reportedIn_eq_nil fun o ho => Occurrence.usage?_of_assignment (hos o ho)
  have hcount : ∀ u, (t.count u).trace = t.trace ++ [] := by simp
  have husage := t.usage_count
  cases h with
  | failure e => exact ⟨(List.append_nil _).symm, rfl, rfl⟩
  | answer text u said => exact ⟨hcount u, rfl, husage u⟩
  | blank text u unsaid => exact ⟨hcount u, rfl, husage u⟩
  | done u => exact ⟨hcount u, rfl, husage u⟩
  | empty u => exact ⟨hcount u, rfl, husage u⟩
  | cancelled done u nonempty stopped => exact ⟨hcount u, rfl, husage u⟩
  | unnamed done u e unnamed assigns passes =>
    rw [passes.trace, passes.session, Turn.trace_count]
    exact ⟨rfl, hassigns assigns, husage u⟩
  | refused done u e nonempty assigns prepared refused passes =>
    rw [passes.trace, passes.session, Turn.trace_count, reportedIn_append, hassigns assigns]
    exact ⟨rfl, rfl, husage u⟩
  | recorded done u nonempty assigns prepared recorded trace =>
    rw [trace, reportedIn_append, hassigns assigns, Session.usage_of_appendAll recorded]
    exact ⟨rfl, rfl, husage u⟩

/-- A reply counts, be it judged good or not. -/
theorem acceptReply_usage (a : Agent σ) (reply : ProviderReply) (t : Turn σ) :
    (a.acceptReply reply t).1.session.usage =
      reply.usage?.toList.foldl (· + ·) t.session.usage := by
  cases haccept : a.acceptReply reply t with | mk t' r
  obtain ⟨os, hsettled⟩ := acceptReply_cases haccept
  rw [hsettled.usage.2.2, reportedIn_reply]

theorem reportedIn_undecided {es : List ProviderError} {os : List Occurrence}
    (short : os = [] ∨ os = [.asked (a.view t.session) a.tools.describeAll]) :
    reportedIn (a.undecided t es os) = [] := by
  show reportedIn (retrySteps t.session.id _ _ 0 es ++ os) = []
  rw [reportedIn_append, reportedIn_retrySteps]
  rcases short with rfl | rfl <;> rfl

theorem query_counts {r : StepResult Verdict} (h : a.query t = (t', r)) : t.Counts t' := by
  cases query_cases h with
  | never es stuck passes => exact .of_passes passes (reportedIn_undecided (Or.inr rfl))
  | cancelled es os short stopped passes => exact .of_passes passes (reportedIn_undecided short)
  | settled q os view within passes settled =>
    obtain ⟨htrace, hos, husage⟩ := settled.usage
    refine ⟨q.occurrences t.session.id a.tools.describeAll ++ os, ?_, ?_⟩
    · rw [htrace, passes.trace, List.append_assoc]
    · rw [husage, passes.session, reportedIn_append, q.reportedIn_occurrences, hos,
        List.append_nil]

theorem execute_counts {calls : List ToolCallRequest} {r : StepResult Unit}
    (h : a.execute calls t = (t', r)) : t.Counts t' := by
  cases execute_cases h with
  | never works stuck => exact .of_works works
  | cancelled works stopped => exact .of_works works
  | refused results e each works refused =>
    exact (Turn.Counts.of_works works).trans ⟨[.refused e], Turn.trace_note _ _, rfl⟩
  | @recorded t₁ s results each works recorded =>
    refine (Turn.Counts.of_works works).trans ?_
    obtain ⟨os, -, hpass⟩ := works
    refine ⟨_, Turn.trace_note _ _, ?_⟩
    rw [hpass.session]
    exact Session.usage_of_appendAll recorded

/-! ## A whole turn -/

theorem counts_along (a : Agent σ) : Along a Turn.Counts where
  refl := Turn.Counts.refl
  trans := Turn.Counts.trans
  fail := Turn.Counts.fail
  complete := Turn.Counts.complete
  reply _ h := Turn.Counts.record h
  query _ _ h := query_counts h
  execute _ h := execute_counts h

/-- The usage of a session grows in a turn by just the usages that are reported. -/
theorem runTurn_usage (a : Agent σ) {s : Session} (h : s.Reachable) (c : Clock) (w : σ) :
    (a.runTurn s c w).1.session.usage =
      (reportedIn (a.runTurn s c w).1.trace).foldl (· + ·) s.usage := by
  have hreject : (opening s c w).Counts (reject s.resume.1 (opening s c w)).1 := by
    obtain ⟨hsession, -, -, htrace⟩ := rejected_is_noop s c w
    refine ⟨[.published (.stateChanged s.id .errored), .published (.turnFinished s.id _)],
      htrace, ?_⟩
    rw [hsession, session_opening, Session.usage_resume]
    rfl
  obtain ⟨os, htrace, husage⟩ := (counts_along a).runTurn h c w hreject
  rw [husage, htrace, session_opening, Session.usage_resume, trace_opening]
  rfl

end Agent

/-! ## Over all turns -/

namespace Session

open TokenUsage (Grouping)

variable {s s' : Session} {us : List TokenUsage}

theorem usage_of_submit {text : String} (ok : Agent.submit s text = .ok s') :
    s'.usage = s.usage := by
  obtain ⟨m, -, happend⟩ := Agent.submit_appends ok
  rw [usage_of_appendAll happend, Agent.readied]
  split
  · exact usage_resume s
  · rfl

/-- The usage of a session is the sum of all that was reported in its life. -/
theorem Lived.usage_eq (h : s.Lived us) : s.usage = .sum us := by
  induction h with
  | new id => rfl
  | prompted ok =>
    obtain ⟨m, -, happend⟩ := withSystemPrompt_ok ok
    exact usage_of_appendAll happend
  | operated before op ih => rw [usage_perform, ih, TokenUsage.foldl_add_sum]
  | submitted before ok ih => rw [usage_of_submit ok, ih]
  | turn before a c w ih =>
    rw [Agent.runTurn_usage a before.reachable c w, ih, TokenUsage.foldl_add_sum]

/-- The usage of a session tallies with the usages `us`. It is their sum, in whatever
order and groups they are added up, and its total is that of its prompt and
completion if theirs are. Turns add what they report, the operation that records a
usage adds this, and nothing else adds anything. -/
structure Tallies (s : Session) (us : List TokenUsage) : Prop where
  usage : s.usage = .sum us
  any_grouping : ∀ g : Grouping, g.usages.Perm us →
    {} + g.value = s.usage ∧ ((∀ u ∈ us, u.Fits) → g.value = s.usage)
  consistent : (∀ u ∈ us, u.Consistent) → s.usage.Consistent
  operations : ∀ op, (∀ u, op ≠ .recordUsage u) → (s.perform op).usage = s.usage
  submission : ∀ text s', Agent.submit s text = .ok s' → s'.usage = s.usage
  turns : ∀ {σ : Type} (a : Agent σ) c w,
    (a.runTurn s c w).1.session.usage = .sum (us ++ reportedIn (a.runTurn s c w).1.trace)

theorem Lived.tallies (h : s.Lived us) : s.Tallies us where
  usage := h.usage_eq
  any_grouping g hperm := by
    rw [h.usage_eq, ← TokenUsage.sum_perm hperm]
    refine ⟨g.nothing_add_value, fun hfits => g.value_eq_sum fun u hu => ?_⟩
    exact hfits u (hperm.mem_iff.mp hu)
  consistent hus := by
    rw [h.usage_eq]
    exact TokenUsage.sum_consistent hus
  operations op hop := by
    rw [usage_perform]
    cases op with
    | recordUsage u => exact absurd rfl (hop u)
    | _ => rfl
  submission _ _ ok := usage_of_submit ok
  turns a c w := (h.turn a c w).usage_eq

end Session

namespace Agent

variable {s : Session} {us : List TokenUsage}

/-- No usage that is reported is lost or counted twice: the usage of a session tallies
with those that were reported in its life. Each reply to a question is reported, and
each is counted once, whatever becomes of it. -/
theorem usage_tallies (h : s.Lived us) :
    s.Tallies us ∧ ∀ {σ : Type} (a : Agent σ) (t : Turn σ),
      (∀ view specs t' r, a.attempt view specs t = (t', r) →
        ∃ os, t.Passes os t' ∧ reportedIn os = r.reported) ∧
      ∀ reply, (a.acceptReply reply t).1.session.usage =
        reply.usage?.toList.foldl (· + ·) t.session.usage :=
  ⟨h.tallies, fun a t => ⟨fun _ _ _ _ hattempt => attempt_reports hattempt,
    fun reply => a.acceptReply_usage reply t⟩⟩

/-- Two turns with a question that is repeated, a reply that fails the first turn
because a call has no tool, and an answer that takes the usage to its limit. -/
theorem usage_at_its_limit :
    let small : TokenUsage := .ofCounts 10 5
    let large : TokenUsage := ⟨max32, 0, max32⟩
    let a := replaying [.error (.unavailable "busy"),
      .ok (.toolCallBatch [⟨.numbered 1, " ", .null⟩] false (some small)),
      .ok (.finalAnswer "fine" (some large))]
    let s := (Session.new ⟨"s"⟩).performAll [.append (.userText ⟨"go", by decide⟩)]
    let first := a.runTurn s ⟨0, .absent⟩ (0, 0)
    let second := a.runTurn first.1.session first.1.clock first.1.world
    first.2 = some (.ofError (.provider (.malformed
        MessageError.blankToolName.toAgentError.display))) ∧
      first.1.session.usage = small ∧ second.2 = some (.finalAnswer "fine") ∧
      second.1.session.usage = ⟨max32, 5, max32⟩ ∧ second.1.session.usage.Consistent ∧
      large + small = second.1.session.usage ∧
      (second.1.session.perform .resume).usage = second.1.session.usage := by
  intro small large a s first second
  have hs : s.Lived [] := (Session.Lived.new ⟨"s"⟩).performAll _
  have hfirst := hs.turn a ⟨0, .absent⟩ (0, 0)
  have hreported : reportedIn first.1.trace = [small] := by decide +kernel
  have hanswered : reportedIn second.1.trace = [large] := by decide +kernel
  have hsecond : second.1.session.Lived [small, large] := by
    have hturn := hfirst.turn a first.1.clock first.1.world
    rwa [hreported, hanswered] at hturn
  obtain ⟨hsmall, -⟩ := usage_tallies hfirst
  obtain ⟨htallies, -⟩ := usage_tallies hsecond
  have hconsistent : ∀ u ∈ [small, large], u.Consistent := by decide +kernel
  have hfits : ∀ u ∈ [small, large], u.Fits :=
    List.forall_mem_cons.mpr ⟨⟨by decide, by decide, by decide⟩,
      List.forall_mem_singleton.mpr ⟨by decide, by decide, by decide⟩⟩
  refine ⟨by decide +kernel, ?_, by decide +kernel, ?_, htallies.consistent hconsistent, ?_,
    htallies.operations .resume nofun⟩
  · rw [hsmall.usage, hreported]
    decide +kernel
  · rw [htallies.usage]
    decide +kernel
  · exact (htallies.any_grouping (.both (.one large) (.one small)) (.swap small large [])).2 hfits

end Agent

end AgentLoop
