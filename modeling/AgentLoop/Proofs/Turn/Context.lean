/-
AgentLoop.Proofs.Turn.Context — what the backend is shown in a turn.

* `ShownLog` — a request shows what the settings let through of a log whose
  calls are all answered
* `ShowsLog`, `Turn.Shows` — a stretch of a turn in which each request shows
  the log of its moment
* `query_shows`, `execute_shows` — the steps of a turn
* `runTurn_shows` — every turn is such a stretch
* `requests_coherent` — what follows for the requests of a turn

The log at a moment is the log before the turn and all that was recorded in
the turn by then. A question is put only while no call is open, which is why
no pair of a call and its result is parted by the end of the log, either.
-/
import AgentLoop.Proofs.Session.Context
import AgentLoop.Proofs.Turn.Budget
import AgentLoop.Proofs.Turn.Recording

namespace AgentLoop

namespace Agent

variable {σ : Type}

/-! ## Requests and the log -/

/-- If an occurrence is a request, it shows the part of a log that the
settings let through, and the log is one of a session that may be asked
for. -/
def ShownLog (a : Agent σ) (log : List Message) (o : Occurrence) : Prop :=
  ∀ view specs, o = .asked view specs →
    ∃ s, s.Quiet ∧ s.history = log ∧ view = a.view s ∧ specs = a.tools.describeAll

/-- Each request among some occurrences shows the log of its moment; the log
in front of them is given. -/
def ShowsLog (a : Agent σ) : List Message → List Occurrence → Prop
  | _, [] => True
  | log, o :: rest => ShownLog a log o ∧ ShowsLog a (log ++ o.messages) rest

variable {a : Agent σ} {log : List Message} {os os' : List Occurrence}

theorem shownLog_of_other {o : Occurrence} (h : o.isAsk = false) : ShownLog a log o := by
  rintro view specs rfl
  cases h

theorem showsLog_append :
    ShowsLog a log (os ++ os') ↔ ShowsLog a log os ∧ ShowsLog a (log ++ recordedIn os) os' := by
  induction os generalizing log with
  | nil => simp [ShowsLog, recordedIn]
  | cons o rest ih =>
    have hmessages : log ++ recordedIn (o :: rest) = log ++ o.messages ++ recordedIn rest := by
      simp [recordedIn]
    rw [List.cons_append, ShowsLog, ShowsLog, ih, hmessages, and_assoc]

theorem showsLog_of_others (h : ∀ o ∈ os, o.isAsk = false) : ShowsLog a log os := by
  induction os generalizing log with
  | nil => trivial
  | cons o rest ih =>
    refine ⟨shownLog_of_other (h o (by simp)), ih fun o ho => h o (by simp [ho])⟩

/-- Occurrences among which nothing is recorded show one and the same log. -/
theorem showsLog_of_dialogue (hos : ∀ o ∈ os, o.isDialogue = true)
    (hshown : ∀ o ∈ os, ShownLog a log o) : ShowsLog a log os := by
  induction os with
  | nil => trivial
  | cons o rest ih =>
    have hnone := Occurrence.messages_of_dialogue (hos o (by simp))
    refine ⟨hshown o (by simp), ?_⟩
    rw [hnone, List.append_nil]
    exact ih (fun o ho => hos o (by simp [ho])) fun o ho => hshown o (by simp [ho])

/-- A request that occurs shows the log of its moment. -/
theorem ShowsLog.at_request {before after : List Occurrence} {o : Occurrence}
    (h : ShowsLog a log (before ++ o :: after)) :
    ShownLog a (log ++ recordedIn before) o :=
  (showsLog_append.mp h).2.1

end Agent

open Agent (ShownLog ShowsLog)

/-- From `t` to `t'` the log grows by just what is recorded, and each request
shows the log of its moment. -/
def Turn.Shows {σ : Type} (a : Agent σ) (t t' : Turn σ) : Prop :=
  ∃ os, t'.trace = t.trace ++ os ∧ t'.session.history = t.session.history ++ recordedIn os ∧
    ShowsLog a t.session.history os

namespace Turn.Shows

variable {σ : Type} {a : Agent σ} {t t' t'' : Turn σ}

theorem refl (t : Turn σ) : Shows a t t := ⟨[], by simp, by simp [recordedIn], trivial⟩

theorem trans (h : Shows a t t') (h' : Shows a t' t'') : Shows a t t'' := by
  obtain ⟨os, htrace, hlog, hshows⟩ := h
  obtain ⟨os', htrace', hlog', hshows'⟩ := h'
  refine ⟨os ++ os', ?_, ?_, ?_⟩
  · rw [htrace', htrace, List.append_assoc]
  · rw [hlog', hlog, recordedIn_append, List.append_assoc]
  · rw [Agent.showsLog_append, ← hlog]
    exact ⟨hshows, hshows'⟩

/-- A stretch without a request. -/
theorem of_logs (h : t.Logs t') {os : List Occurrence} (htrace : t'.trace = t.trace ++ os)
    (hos : ∀ o ∈ os, o.isAsk = false) : Shows a t t' := by
  obtain ⟨os', htrace', hlog⟩ := h
  rw [htrace', List.append_cancel_left_eq] at htrace
  subst htrace
  exact ⟨os', htrace', hlog, Agent.showsLog_of_others hos⟩

theorem fail (h : Shows a t t') (e : AgentError) : Shows a t (t'.fail e).1 :=
  h.trans (of_logs ((Turn.Logs.refl t').fail e) (Turn.trace_fail t' e)
    (by simp [Occurrence.isAsk]))

theorem complete (h : Shows a t t') (text : String) : Shows a t (t'.complete text).1 :=
  h.trans (of_logs ((Turn.Logs.refl t').complete text) (Turn.trace_complete t' text)
    (by simp [Occurrence.isAsk]))

theorem record {ms : List Message} {e : Option AppendError} (h : t.record ms = (t', e)) :
    Shows a t t' := by
  have hlogs := Turn.Logs.record h
  unfold Turn.record at h
  split at h <;> cases h
  · exact of_logs hlogs (trace_note t _) (by simp [Occurrence.isAsk])
  · exact of_logs hlogs (trace_note _ _) (by simp [Occurrence.isAsk])

end Turn.Shows

namespace Agent

variable {σ : Type} {a : Agent σ} {t t' : Turn σ}

/-! ## The steps of a turn -/

theorem shownLog_retrySteps {log view : List Message} {specs : List ToolSpec} {id : SessionId}
    {retry : Nat} {es : List ProviderError}
    (hshown : ShownLog a log (.asked view specs)) :
    ∀ o ∈ retrySteps id view specs retry es, ShownLog a log o := by
  induction es generalizing retry with
  | nil => simp [retrySteps]
  | cons e rest ih =>
    intro o ho
    simp only [retrySteps, List.mem_cons] at ho
    rcases ho with rfl | rfl | rfl | ho
    · exact hshown
    · exact shownLog_of_other rfl
    · exact shownLog_of_other rfl
    · exact ih o ho

theorem shownLog_undecided {es : List ProviderError} {os : List Occurrence}
    (hshown : ShownLog a t.session.history (.asked (a.view t.session) a.tools.describeAll))
    (short : os = [] ∨ os = [.asked (a.view t.session) a.tools.describeAll]) :
    ∀ o ∈ a.undecided t es os, ShownLog a t.session.history o := by
  intro o ho
  simp only [undecided, List.mem_cons, List.mem_append] at ho
  rcases ho with rfl | ho | ho
  · exact shownLog_of_other rfl
  · exact shownLog_retrySteps hshown o ho
  · rcases short with rfl | rfl
    · cases ho
    · rw [List.mem_singleton.mp ho]
      exact hshown

theorem shownLog_occurrences {q : Inquiry} {id : SessionId} {log : List Message}
    (hshown : ShownLog a log (.asked q.view a.tools.describeAll)) :
    ∀ o ∈ q.occurrences id a.tools.describeAll, ShownLog a log o := by
  intro o ho
  simp only [Inquiry.occurrences, List.mem_cons, List.mem_append, List.not_mem_nil,
    or_false] at ho
  rcases ho with rfl | ho | rfl | rfl
  · exact shownLog_of_other rfl
  · exact shownLog_retrySteps hshown o ho
  · exact hshown
  · exact shownLog_of_other rfl

theorem isAsk_of_assignment {o : Occurrence} (h : o.isAssignment = true) : o.isAsk = false := by
  cases o <;> first | rfl | cases h

theorem isAsk_of_toolWork {o : Occurrence} (h : o.isToolWork = true) : o.isAsk = false := by
  cases o <;> first | rfl | cases h

theorem Settled.shows {answer : ProviderResult} {os : List Occurrence} {r : StepResult Verdict}
    (h : Settled a t answer os t' r) : Turn.Shows a t t' := by
  have hlogs := h.logs
  have hassigns : ∀ {os : List Occurrence} {o : Occurrence}, (∀ o ∈ os, o.isAssignment = true) →
      o.isAsk = false → ∀ x ∈ os ++ [o], x.isAsk = false := by
    intro os o hos ho x hx
    rcases List.mem_append.mp hx with hx | hx
    · exact isAsk_of_assignment (hos x hx)
    · rw [List.mem_singleton.mp hx]
      exact ho
  cases h with
  | failure e => exact .refl t
  | answer text u said | blank text u unsaid | done u | empty u
  | cancelled done u nonempty stopped =>
    have htrace : (t.count u).trace = t.trace ++ [] := by simp
    exact .of_logs hlogs htrace (by simp)
  | unnamed done u e unnamed assigns passes =>
    have htrace := passes.trace
    rw [Turn.trace_count] at htrace
    exact .of_logs hlogs htrace fun o ho => isAsk_of_assignment (assigns o ho)
  | refused done u e nonempty assigns prepared refused passes =>
    have htrace := passes.trace
    rw [Turn.trace_count] at htrace
    exact .of_logs hlogs htrace (hassigns assigns rfl)
  | recorded done u nonempty assigns prepared recorded trace =>
    exact .of_logs hlogs trace (hassigns assigns rfl)

/-- A question that is put to a quiet session shows its log. -/
theorem query_shows {r : StepResult Verdict} (hquiet : t.session.Quiet)
    (h : a.query t = (t', r)) : Turn.Shows a t t' := by
  have hshown : ShownLog a t.session.history (.asked (a.view t.session) a.tools.describeAll) := by
    rintro view specs ⟨⟩
    exact ⟨t.session, hquiet, rfl, rfl, rfl⟩
  have hundecided : ∀ {t' : Turn σ} {es : List ProviderError} {os : List Occurrence},
      os = [] ∨ os = [.asked (a.view t.session) a.tools.describeAll] →
      t.Passes (a.undecided t es os) t' → Turn.Shows a t t' := by
    intro t' es os short hpass
    have hdialogue : ∀ o ∈ a.undecided t es os, o.isDialogue = true :=
      isDialogue_undecided short
    refine ⟨_, hpass.trace, ?_, ?_⟩
    · have hnone := recordedIn_eq_nil fun o ho =>
        Occurrence.messages_of_dialogue (hdialogue o ho)
      rw [hpass.session, hnone, List.append_nil]
    · exact showsLog_of_dialogue hdialogue (shownLog_undecided hshown short)
  cases query_cases h with
  | never es stuck passes => exact hundecided (Or.inr rfl) passes
  | cancelled es os short stopped passes => exact hundecided short passes
  | settled q os view within passes settled =>
    have hdialogue := q.isDialogue_occurrences t.session.id a.tools.describeAll
    have hnone := recordedIn_eq_nil fun o ho =>
      Occurrence.messages_of_dialogue (hdialogue o ho)
    refine Turn.Shows.trans ⟨_, passes.trace, ?_, ?_⟩ settled.shows
    · rw [passes.session, hnone, List.append_nil]
    · rw [← view] at hshown
      exact showsLog_of_dialogue hdialogue (shownLog_occurrences hshown)

theorem execute_shows {calls : List ToolCallRequest} {r : StepResult Unit}
    (h : a.execute calls t = (t', r)) : Turn.Shows a t t' := by
  have hlogs := execute_logs h
  have hworks : ∀ {t' : Turn σ}, t.Works t' → ∃ os, t'.trace = t.trace ++ os ∧
      ∀ o ∈ os, o.isAsk = false := by
    rintro t' ⟨os, hos, hpass⟩
    exact ⟨os, hpass.trace, fun o ho => isAsk_of_toolWork (hos o ho)⟩
  have hnoted : ∀ {t' t'' : Turn σ} {o : Occurrence}, t.Works t' →
      t''.trace = t'.trace ++ [o] → o.isAsk = false → t.Logs t'' → Turn.Shows a t t'' := by
    intro t' t'' o works htrace ho hlogs
    obtain ⟨os, hos, hnone⟩ := hworks works
    rw [hos, List.append_assoc] at htrace
    refine .of_logs hlogs htrace ?_
    intro x hx
    rcases List.mem_append.mp hx with hx | hx
    · exact hnone x hx
    · rw [List.mem_singleton.mp hx]
      exact ho
  cases execute_cases h with
  | never works stuck =>
    obtain ⟨os, htrace, hnone⟩ := hworks works
    exact .of_logs hlogs htrace hnone
  | cancelled works stopped =>
    obtain ⟨os, htrace, hnone⟩ := hworks works
    exact .of_logs hlogs htrace hnone
  | refused results e each works refused => exact hnoted works (Turn.trace_note _ _) rfl hlogs
  | recorded results each works recorded => exact hnoted works (Turn.trace_note _ _) rfl hlogs

theorem shows_along (a : Agent σ) : Along a (Turn.Shows a) where
  refl := Turn.Shows.refl
  trans := Turn.Shows.trans
  fail t e := (Turn.Shows.refl t).fail e
  complete t text := (Turn.Shows.refl t).complete text
  reply _ h := Turn.Shows.record h
  query hquiet _ h := query_shows hquiet h
  execute _ h := execute_shows h

/-! ## A whole turn -/

theorem reject_shows {s : Session} (c : Clock) (w : σ) :
    Turn.Shows a (opening s c w) (reject s.resume.1 (opening s c w)).1 := by
  obtain ⟨hsession, -, -, htrace⟩ := rejected_is_noop s c w
  refine ⟨[.published (.stateChanged s.id .errored), .published (.turnFinished s.id _)],
    htrace, ?_, showsLog_of_others (by simp [Occurrence.isAsk])⟩
  rw [hsession, session_opening, Session.history_resume]
  exact (List.append_nil _).symm

/-- In every turn each request shows the log of its moment. -/
theorem runTurn_shows (a : Agent σ) {s : Session} (h : s.Reachable) (c : Clock) (w : σ) :
    ShowsLog a s.history (a.runTurn s c w).1.trace := by
  have hshows := (shows_along a).runTurn h c w (reject_shows c w)
  obtain ⟨os, htrace, -, hshown⟩ := hshows
  rw [session_opening, Session.history_resume] at hshown
  rw [htrace, trace_opening, showsLog_append]
  refine ⟨showsLog_of_others (by simp [Occurrence.isAsk]), ?_⟩
  simpa [recordedIn, Occurrence.messages] using hshown

/-- The part of a log that some settings let through. -/
def shownPart (settings : Settings) (log : List Message) : List Message :=
  match settings.maxContextTokens with
  | some budget => Context.fitToBudget budget log
  | none => log

theorem view_eq_shownPart (a : Agent σ) (s : Session) :
    a.view s = shownPart a.settings s.history := rfl

/-- What the settings let through keeps the order of the log, its system texts
and its latest turn. -/
theorem keeps_shownPart (settings : Settings) (log : List Message) :
    Context.Keeps log (shownPart settings log) := by
  unfold shownPart
  split
  · exact Context.keeps_fitToBudget _ log
  · exact Context.Keeps.whole log

theorem coherent_shownPart (settings : Settings) {s : Session} (h : s.Quiet) :
    Log.Coherent (shownPart settings s.history) := by
  unfold shownPart
  split
  · exact Context.coherent_fitToBudget h.reachable.wellPaired h.closed _
  · exact Log.coherent_of_closed h.reachable.wellPaired h.closed

/-- What a request of a turn shows. The log of its moment is the log before
the turn and all that was recorded by then; the log only grows. It is shown
whole, or fitted to the budget if the settings have one. What is shown keeps
the order of the log, its system texts and its latest turn, and every call
in it has its result behind it. Without a budget each request goes on where
the one before it ended. No budget parts a call of the session from its
result, in a turn or not. -/
theorem requests_coherent (a : Agent σ) {s : Session} (h : s.Reachable) (c : Clock) (w : σ) :
    (∀ before view specs after,
      (a.runTurn s c w).1.trace = before ++ .asked view specs :: after →
      let log := s.history ++ recordedIn before
      log <+: (a.runTurn s c w).1.session.history ∧ view = shownPart a.settings log ∧
        Context.Keeps log view ∧ Log.Coherent view) ∧
    (a.settings.maxContextTokens = none → ∀ before view specs between view' specs' after,
      (a.runTurn s c w).1.trace =
        before ++ .asked view specs :: (between ++ .asked view' specs' :: after) →
      view <+: view' ∧ view' <+: (a.runTurn s c w).1.session.history) ∧
    ∀ budget, Log.Together s.history (Context.fitToBudget budget s.history) := by
  have hlogs := runTurn_logs a h c w
  have hrequest : ∀ before view specs after,
      (a.runTurn s c w).1.trace = before ++ .asked view specs :: after →
      s.history ++ recordedIn before <+: (a.runTurn s c w).1.session.history ∧
        ∃ s' : Session, s'.Quiet ∧ s'.history = s.history ++ recordedIn before ∧
          view = shownPart a.settings s'.history := by
    intro before view specs after htrace
    constructor
    · rw [hlogs, htrace, recordedIn_append, ← List.append_assoc]
      exact List.prefix_append _ _
    · have hshows := runTurn_shows a h c w
      rw [htrace] at hshows
      obtain ⟨s', hquiet, hlog, rfl, -⟩ := hshows.at_request view specs rfl
      exact ⟨s', hquiet, hlog, view_eq_shownPart a s'⟩
  refine ⟨?_, ?_, fun budget => Context.together_fitToBudget h.wellPaired budget⟩
  · intro before view specs after htrace
    obtain ⟨hgrows, s', hquiet, hlog, rfl⟩ := hrequest before view specs after htrace
    dsimp only
    rw [← hlog] at hgrows ⊢
    exact ⟨hgrows, rfl, keeps_shownPart a.settings _, coherent_shownPart a.settings hquiet⟩
  · intro hnone before view specs between view' specs' after htrace
    have hwhole : ∀ log, shownPart a.settings log = log := by
      intro log
      simp [shownPart, hnone]
    obtain ⟨-, s₁, -, hlog, rfl⟩ := hrequest before view specs _ htrace
    rw [← List.cons_append, ← List.append_assoc] at htrace
    obtain ⟨hgrows, s₂, -, hlog', rfl⟩ := hrequest _ view' specs' after htrace
    rw [hwhole, hwhole, hlog, hlog']
    refine ⟨?_, hgrows⟩
    rw [recordedIn_append, ← List.append_assoc]
    exact List.prefix_append _ _

/-- A session in which a call was made and answered before the user spoke
again. -/
def talkedTwice : Session :=
  (Session.new ⟨"s"⟩).performAll
    [.append (.systemText ⟨"be brief", by decide⟩),
     .append (.userText ⟨"hi", by decide⟩),
     .append (.toolCall (.numbered 1) ⟨"find", by decide⟩ .null),
     .append (.toolResult (.numbered 1) .ok .null),
     .append (.assistantText ⟨"gone", by decide⟩),
     .append (.userText ⟨"again", by decide⟩)]

/-- A backend that asks for a batch and then answers, with a budget that is
too small for both turns of `talkedTwice`. -/
def thrifty : Agent (Nat × Nat) :=
  { replaying [reusingBatch, .ok (.finalAnswer "fine" none)] with
    settings := { maxContextTokens := some 20 } }

/-- The number of messages that a request shows. -/
def shownCount : Occurrence → Nat
  | .asked view _ => view.length
  | _ => 0

/-- The second request of a turn, behind a batch, leaves the first turn of the
session out, its call and its result included. -/
theorem request_without_first_turn :
    let e := thrifty.runTurn talkedTwice ⟨0, .absent⟩ (0, 7)
    talkedTwice.Reachable ∧ ∃ (before : List Occurrence) (view : List Message)
        (specs : List ToolSpec) (after : List Occurrence),
      e.1.trace = before ++ .asked view specs :: after ∧
      (talkedTwice.history ++ recordedIn before).length = 10 ∧ view.length = 6 ∧
      Context.Keeps (talkedTwice.history ++ recordedIn before) view ∧ Log.Coherent view := by
  intro e
  have hreachable : talkedTwice.Reachable := (Session.Reachable.new _).performAll _
  obtain ⟨hrequests, -, -⟩ := requests_coherent thrifty hreachable ⟨0, .absent⟩ (0, 7)
  have hshown : (e.1.trace[15]?).map shownCount = some 6 := by decide +kernel
  have hlength : (talkedTwice.history ++ recordedIn (e.1.trace.take 15)).length = 10 := by
    decide +kernel
  obtain ⟨o, ho, hview⟩ := Option.map_eq_some_iff.mp hshown
  cases o with
  | asked view specs =>
    obtain ⟨hlt, hget⟩ := List.getElem?_eq_some_iff.mp ho
    have hsplit : e.1.trace = e.1.trace.take 15 ++ .asked view specs :: e.1.trace.drop 16 := by
      rw [← hget, ← List.drop_eq_getElem_cons hlt, List.take_append_drop]
    obtain ⟨-, -, hkeeps, hcoherent⟩ := hrequests _ view specs _ hsplit
    exact ⟨hreachable, _, view, specs, _, hsplit, hlength, hview, hkeeps, hcoherent⟩
  | _ => cases hview

end Agent

end AgentLoop
