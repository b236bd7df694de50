/-
AgentLoop.Proofs.ChatServer.Steps — the steps of a conversation, as a server is
told of them.

* `Turn.Adds` — a stretch of a turn that adds a run of calls for each batch that is
  recorded, and no others
* `runTurn_adds` — every turn is such a stretch
* `Session.Conversed` — sessions whose calls were all recorded by turns
* `Conversed.callRuns_eq` — their logs have one run of calls for each batch
* `WireMessage.told_conversation` — what a server is told of any log, and of the
  logs that turns write

A turn records calls only while none is open, and a log of a session that ends with
a call has this one open. So the calls of two batches never stand side by side.
-/
import AgentLoop.Proofs.ChatServer.Conversation
import AgentLoop.Proofs.Turn.Context
import AgentLoop.Proofs.Turn.Identifiers
import AgentLoop.Proofs.Turn.Phases

namespace AgentLoop

/-- The call that a request asks for, for the server. -/
def WireCall.ofRequest (r : ToolCallRequest) : WireCall := ⟨r.toolName, r.arguments⟩

theorem WireCall.ofMessage?_eq (m : Message) :
    ofMessage? m = (Agent.requestOf? m).map ofRequest := by
  cases m <;> rfl

/-- A message that is made of a text is no call. -/
theorem Message.issues?_of_text {make : NonBlank → Message} (hmake : ∀ c, (make c).issues? = none)
    {text : String} {m : Message} (h : (NonBlank.ofText text).map make = .ok m) :
    m.issues? = none := by
  cases htext : NonBlank.ofText text with
  | error e =>
    rw [htext] at h
    cases h
  | ok c =>
    rw [htext] at h
    cases h
    exact hmake c

/-- The calls of some batches, for the server. -/
def stepCalls (batches : List (List ToolCallRequest)) : List (List WireCall) :=
  batches.map (·.map WireCall.ofRequest)

@[simp] theorem stepCalls_append (bs bs' : List (List ToolCallRequest)) :
    stepCalls (bs ++ bs') = stepCalls bs ++ stepCalls bs' := List.map_append

namespace Log

variable {log ms : List Message}

/-- A log whose calls are all answered does not end with a call. -/
theorem WellPaired.last_no_call (h : WellPaired log) (hclosed : openCalls log = []) :
    ∀ m ∈ log.getLast?, m.issues? = none := by
  intro m hm
  obtain ⟨before, rfl⟩ := List.getLast?_eq_some_iff.mp hm
  obtain ⟨hbefore, hadmits⟩ := wellPaired_append_singleton.mp h
  cases hid : m.issues? with
  | none => rfl
  | some id =>
    -- a result for this call would stand in front of it
    have hanswered : id ∈ answered (before ++ [m]) :=
      openCalls_eq_nil_iff.mp hclosed id (by simp [issued_singleton hid])
    have hnone : answered [m] = [] := by simp [answered, Message.answers?_of_issues? hid]
    rw [answered_append, hnone, List.append_nil] at hanswered
    exact absurd (hbefore.issued_of_answered id hanswered) ((admits_of_issues? hid).mp hadmits)

theorem WellPaired.fitToBudget (h : WellPaired log) (budget : Nat) :
    WellPaired (Context.fitToBudget budget log) := by
  rcases Context.fitToBudget_cases budget log with hwhole | ⟨cut, u, hu, huser, hcut⟩
  · rwa [hwhole]
  · rw [hcut]
    exact Context.wellPaired_cutAt h hu huser

/-- Messages without calls add no run. -/
theorem callRuns_append_none (hms : ∀ m ∈ ms, m.issues? = none) (log : List Message) :
    callRuns (log ++ ms) = callRuns log := by
  have hfirst : ∀ m ∈ ms.head?, m.issues? = none := fun m hm => hms m (List.mem_of_mem_head? hm)
  rw [callRuns_append_of_first hfirst, callRuns_of_none hms, List.append_nil]

/-- A history that is fitted to a budget has the last runs of the whole one. -/
theorem callRuns_fitToBudget (budget : Nat) (log : List Message) :
    callRuns (Context.fitToBudget budget log) <:+ callRuns log := by
  rcases Context.fitToBudget_cases budget log with hwhole | ⟨cut, u, hu, huser, hcut⟩
  · exact ⟨[], congrArg callRuns hwhole⟩
  · have hfirst : ∀ m ∈ (log.drop cut).head?, m.issues? = none := by
      intro m hm
      rw [List.head?_drop, hu] at hm
      cases hm
      cases u <;> first | rfl | cases huser
    have hsystem : ∀ m ∈ (log.take cut).filter Message.isSystemText, m.issues? = none := by
      intro m hm
      have hm := (List.mem_filter.mp hm).2
      cases m <;> first | rfl | cases hm
    have hall := callRuns_append_of_first hfirst (log.take cut)
    rw [List.take_append_drop] at hall
    rw [hcut, Context.cutAt, callRuns_append_of_first hfirst, callRuns_of_none hsystem,
      List.nil_append, hall]
    exact List.suffix_append _ _

end Log

/-! ## What a turn adds -/

/-- From `t` to `t'` the log gets one run of calls for each batch that is recorded,
and the session stays one that can be reached. -/
structure Turn.Adds {σ : Type} (t t' : Turn σ) : Prop where
  runs : ∃ bs, recordedBatches t'.trace = recordedBatches t.trace ++ bs ∧
    Log.callRuns t'.session.history = Log.callRuns t.session.history ++ stepCalls bs
  reachable : t.session.Reachable → t'.session.Reachable

namespace Turn.Adds

variable {σ : Type} {t t' t'' : Turn σ}

theorem refl (t : Turn σ) : t.Adds t := ⟨⟨[], by simp, by simp [stepCalls]⟩, fun h => h⟩

theorem trans (h : t.Adds t') (h' : t'.Adds t'') : t.Adds t'' := by
  obtain ⟨⟨bs, htrace, hruns⟩, hreach⟩ := h
  obtain ⟨⟨bs', htrace', hruns'⟩, hreach'⟩ := h'
  refine ⟨⟨bs ++ bs', ?_, ?_⟩, fun h => hreach' (hreach h)⟩
  · rw [htrace', htrace, List.append_assoc]
  · rw [hruns', hruns, stepCalls_append, List.append_assoc]

/-- A stretch in which no batch is recorded. -/
theorem of_logs (h : t.Logs t') (hnone : recordedBatches t'.trace = recordedBatches t.trace)
    (hreach : t.session.Reachable → t'.session.Reachable) : t.Adds t' := by
  obtain ⟨os, htrace, hlog⟩ := h
  rw [htrace, recordedBatches_append, List.append_right_eq_self] at hnone
  have hcalls : ∀ m ∈ recordedIn os, m.issues? = none := by
    intro m hm
    obtain ⟨o, ho, hm⟩ := List.mem_flatMap.mp hm
    have hbatch := List.filterMap_eq_nil_iff.mp hnone o ho
    cases o with
    | recorded ms =>
      simp only [ite_eq_left_iff, reduceCtorEq, imp_false, Decidable.not_not] at hbatch
      have hrequest := List.filterMap_eq_nil_iff.mp hbatch m hm
      cases m <;> first | rfl | cases hrequest
    | _ => cases hm
  refine ⟨⟨[], by simp [htrace, hnone], ?_⟩, hreach⟩
  rw [hlog, Log.callRuns_append_none hcalls]
  exact (List.append_nil _).symm

theorem fail (h : t.Adds t') (e : AgentError) : t.Adds (t'.fail e).1 := by
  refine h.trans (of_logs ((Turn.Logs.refl t').fail e) ?_ fun hreach => ?_)
  · rw [trace_fail, recordedBatches_append]
    exact List.append_nil _
  · rw [session_fail]
    exact hreach.perform .markFailed

theorem complete (h : t.Adds t') (text : String) : t.Adds (t'.complete text).1 := by
  refine h.trans (of_logs ((Turn.Logs.refl t').complete text) ?_ fun hreach => ?_)
  · rw [trace_complete, recordedBatches_append]
    exact List.append_nil _
  · rw [session_complete]
    exact hreach.perform .markCompleted

/-- A message that is no call is recorded, or refused. -/
theorem record {m : Message} (hm : m.issues? = none) {e : Option AppendError}
    (h : t.record [m] = (t', e)) : t.Adds t' := by
  have hlogs := Turn.Logs.record h
  have hnone : recordedBatches [.recorded [m]] = [] := by
    cases m <;> first | rfl | cases hm
  unfold Turn.record at h
  cases happend : t.session.appendAll [m] with
  | error e =>
    rw [happend] at h
    cases h
    refine of_logs hlogs ?_ fun hreach => hreach
    rw [trace_note, recordedBatches_append]
    exact List.append_nil _
  | ok s =>
    rw [happend] at h
    cases h
    refine of_logs hlogs ?_ fun hreach => hreach.appendAll happend
    rw [trace_note, recordedBatches_append, hnone, List.append_nil]
    rfl

end Turn.Adds

namespace Agent

variable {σ : Type} {a : Agent σ} {t t' : Turn σ}

/-- A batch that is recorded is one run of calls. -/
theorem Issued.runs {q : Inquiry} {requested calls : List ToolCallRequest}
    {messages : List Message} (h : Issued a t q requested calls messages t')
    (hquiet : t.session.Quiet) : ∃ bs, recordedBatches t'.trace = recordedBatches t.trace ++ bs ∧
      Log.callRuns t'.session.history = Log.callRuns t.session.history ++ stepCalls bs := by
  obtain ⟨os, htrace, hassigns, -⟩ := h.trace
  have hcalls : ∀ m ∈ messages, m.issues?.isSome := by
    intro m hm
    have hmem := List.mem_map_of_mem (f := Message.issues?) hm
    rw [h.issues] at hmem
    obtain ⟨c, -, hc⟩ := List.mem_map.mp hmem
    rw [← hc]
    rfl
  have hne : messages ≠ [] := by
    rintro rfl
    exact h.nonempty (List.map_eq_nil_iff.mp h.asks.symm)
  have hrequests : messages.filterMap requestOf? ≠ [] := by
    intro hnil
    have hmap := map_requestOf? hcalls
    rw [hnil] at hmap
    exact hne (List.map_eq_nil_iff.mp hmap)
  refine ⟨[messages.filterMap requestOf?], ?_, ?_⟩
  · have hasked : recordedBatches (q.occurrences t.session.id a.tools.describeAll) = [] :=
      recordedBatches_of_dialogue (q.isDialogue_occurrences _ _)
    have hassigned : recordedBatches os = [] := by
      apply recordedBatches_eq_nil
      rintro o ho ms rfl
      have hassign := hassigns _ ho
      cases hassign
    rw [htrace]
    simp only [recordedBatches_append, hasked, hassigned, List.nil_append]
    rw [recordedBatches_recorded rfl, if_neg hrequests]
  · have hlast := hquiet.reachable.wellPaired.last_no_call hquiet.closed
    rw [h.history, Log.callRuns_append_of_last hlast, Log.callRuns_of_calls hne hcalls]
    have hsame : messages.filterMap WireCall.ofMessage? =
        (messages.filterMap requestOf?).map WireCall.ofRequest := by
      rw [List.map_filterMap]
      exact List.filterMap_congr fun m _ => WireCall.ofMessage?_eq m
    rw [hsame]
    rfl

/-- A question that is put to a quiet session adds the batch that it is answered
with, if that is recorded. -/
theorem query_adds {r : StepResult Verdict} (hquiet : t.session.Quiet)
    (low : t.clock.isRaised = false) (h : a.query t = (t', r)) : t.Adds t' := by
  have hreach := (query_exchanged h).reachable
  obtain ⟨-, -, -, hbatches⟩ := query_walk low h
  have hnothing : batchesOf r = [] → t.Adds t' := by
    intro hnone
    rw [hnone, List.append_nil] at hbatches
    exact .of_logs (query_logs h) hbatches hreach
  cases r with
  | never => exact hnothing rfl
  | failed e => exact hnothing rfl
  | next verdict =>
    cases verdict with
    | finish text => exact hnothing rfl
    | execute calls =>
      obtain ⟨q, requested, messages, hissued⟩ := (query_cases h).issued
      exact ⟨hissued.runs hquiet, hreach⟩

theorem execute_adds {calls : List ToolCallRequest} {r : StepResult Unit}
    (hwaits : t.session.Waits (calls.map (·.callId))) (h : a.execute calls t = (t', r)) :
    t.Adds t' := by
  obtain ⟨-, -, hbatches, -⟩ := execute_walk hwaits h
  exact .of_logs (execute_logs h) hbatches (execute_exchanged h).reachable

theorem adds_along (a : Agent σ) : Along a Turn.Adds where
  refl := Turn.Adds.refl
  trans := Turn.Adds.trans
  fail t e := (Turn.Adds.refl t).fail e
  complete t text := (Turn.Adds.refl t).complete text
  reply hmessage h := Turn.Adds.record (Message.issues?_of_text (fun _ => rfl) hmessage) h
  query hquiet low h := query_adds hquiet low h
  execute hwaits h := execute_adds hwaits h

theorem reject_adds {s : Session} (h : s.Reachable) (c : Clock) (w : σ) :
    (opening s c w).Adds (reject s.resume.1 (opening s c w)).1 := by
  obtain ⟨hsession, -, -, htrace⟩ := rejected_is_noop s c w
  refine ⟨⟨[], ?_, ?_⟩, fun _ => ?_⟩
  · rw [htrace, trace_opening]
    rfl
  · rw [hsession, session_opening, Session.history_resume]
    exact (List.append_nil _).symm
  · rw [hsession]
    exact h

/-- A turn adds one run of calls to the log for each batch that it records. -/
theorem runTurn_adds (a : Agent σ) {s : Session} (h : s.Reachable) (c : Clock) (w : σ) :
    (opening s c w).Adds (a.runTurn s c w).1 :=
  (adds_along a).runTurn h c w (reject_adds h c w)

theorem runTurn_runs (a : Agent σ) {s : Session} (h : s.Reachable) (c : Clock) (w : σ) :
    (a.runTurn s c w).1.session.Reachable ∧
      Log.callRuns (a.runTurn s c w).1.session.history =
        Log.callRuns s.history ++ stepCalls (recordedBatches (a.runTurn s c w).1.trace) := by
  obtain ⟨⟨bs, htrace, hruns⟩, hreach⟩ := runTurn_adds a h c w
  rw [session_opening, Session.history_resume] at hruns
  rw [trace_opening] at htrace
  have hbatches : recordedBatches (a.runTurn s c w).1.trace = bs := htrace
  refine ⟨hreach h.resume, ?_⟩
  rw [hruns, hbatches]

/-- A request of a turn shows runs of calls that the turn finds or leaves. -/
theorem callRuns_of_request (a : Agent σ) {s : Session} (h : s.Reachable) (c : Clock) (w : σ)
    {before after : List Occurrence} {view : List Message} {specs : List ToolSpec}
    (htrace : (a.runTurn s c w).1.trace = before ++ .asked view specs :: after) :
    Log.Traceable view ∧
      Log.callRuns view <:+: Log.callRuns (a.runTurn s c w).1.session.history := by
  have hshows := runTurn_shows a h c w
  rw [htrace] at hshows
  obtain ⟨s', hquiet, hlog, rfl, -⟩ := hshows.at_request view specs rfl
  have hpaired := hquiet.reachable.wellPaired
  have hfirst : Log.callRuns s'.history <+:
      Log.callRuns (a.runTurn s c w).1.session.history := by
    rw [runTurn_logs a h c w, htrace, recordedIn_append, ← List.append_assoc, ← hlog,
      Log.callRuns_append_of_last (hpaired.last_no_call hquiet.closed)]
    exact List.prefix_append _ _
  have hpart : Log.Traceable (a.view s') ∧
      Log.callRuns (a.view s') <:+ Log.callRuns s'.history := by
    unfold view
    cases a.settings.maxContextTokens with
    | none => exact ⟨hpaired.traceable, List.suffix_refl _⟩
    | some budget =>
      exact ⟨(hpaired.fitToBudget budget).traceable, Log.callRuns_fitToBudget budget _⟩
  exact ⟨hpart.1, hpart.2.isInfix.trans hfirst.isInfix⟩

end Agent

/-! ## Conversations -/

namespace Session

/-- A session to which only turns add calls, and the batches that they recorded.
Everyone may add other messages, and do what leaves the log alone. -/
inductive Conversed : Session → List (List ToolCallRequest) → Prop
  | new (id : SessionId) : Conversed (.new id) []
  | appended {s s' : Session} {bs : List (List ToolCallRequest)} {ms : List Message}
      (before : Conversed s bs) (no_calls : ∀ m ∈ ms, m.issues? = none)
      (ok : s.appendAll ms = .ok s') : Conversed s' bs
  | kept {s : Session} {bs : List (List ToolCallRequest)} {op : SessionOp}
      (before : Conversed s bs) (same : (s.perform op).history = s.history) :
      Conversed (s.perform op) bs
  | turn {σ : Type} {s : Session} {bs : List (List ToolCallRequest)} (before : Conversed s bs)
      (a : Agent σ) (c : Clock) (w : σ) :
      Conversed (a.runTurn s c w).1.session (bs ++ recordedBatches (a.runTurn s c w).1.trace)

variable {s : Session} {bs : List (List ToolCallRequest)}

theorem Conversed.reachable (h : s.Conversed bs) : s.Reachable := by
  induction h with
  | new id => exact .new id
  | appended before no_calls ok ih => exact ih.appendAll ok
  | kept before same ih => exact ih.perform _
  | turn before a c w ih => exact (Agent.runTurn_runs a ih c w).1

/-- The log of a conversation has one run of calls for each batch. -/
theorem Conversed.callRuns_eq (h : s.Conversed bs) : Log.callRuns s.history = stepCalls bs := by
  induction h with
  | new id => rfl
  | appended before no_calls ok ih =>
    rw [history_of_appendAll ok, Log.callRuns_append_none no_calls, ih]
  | kept before same ih => rw [same, ih]
  | turn before a c w ih =>
    rw [(Agent.runTurn_runs a before.reachable c w).2, ih, stepCalls_append]

end Session

namespace WireMessage

open Agent (replaying reusingBatch)

/-- What a server is told of a conversation. Of a log in which each result goes back
to one call it is told every message in its order: the calls that follow each other
in one message, and each other message in one of its own. All logs of sessions are of
this kind, also those that are fitted to a budget. Where only turns add calls, each
batch that a turn recorded is told in a message of its own, in whole or, if the
log is fitted to a budget or only begun, not at all. -/
theorem told_conversation :
    (∀ log, Log.Traceable log →
      List.Forall₂ (Log.Says log) (Log.stretches log) (ofHistory log) ∧
      List.Forall₂ (Log.Said log) log ((ofHistory log).flatMap sayings)) ∧
    (∀ s : Session, s.Reachable → Log.Traceable s.history ∧
      ∀ budget, Log.Traceable (Context.fitToBudget budget s.history)) ∧
    ∀ (s : Session) (bs : List (List ToolCallRequest)), s.Conversed bs →
      callGroups (ofHistory s.history) = stepCalls bs ∧
      (∀ budget, callGroups (ofHistory (Context.fitToBudget budget s.history)) <:+
        stepCalls bs) ∧
      ∀ {σ : Type} (a : Agent σ) (c : Clock) (w : σ) (before : List Occurrence)
        (view : List Message) (specs : List ToolSpec) (after : List Occurrence),
        (a.runTurn s c w).1.trace = before ++ .asked view specs :: after →
        callGroups (ofHistory view) <:+:
          stepCalls (bs ++ recordedBatches (a.runTurn s c w).1.trace) := by
  refine ⟨fun log h => ⟨told_stretches h, told_messages h⟩, ?_, ?_⟩
  · intro s h
    exact ⟨h.wellPaired.traceable, fun budget => (h.wellPaired.fitToBudget budget).traceable⟩
  · intro s bs h
    have hpaired := h.reachable.wellPaired
    refine ⟨?_, ?_, ?_⟩
    · rw [callGroups_ofHistory hpaired.traceable, h.callRuns_eq]
    · intro budget
      rw [callGroups_ofHistory (hpaired.fitToBudget budget).traceable, ← h.callRuns_eq]
      exact Log.callRuns_fitToBudget budget s.history
    · intro σ a c w before view specs after htrace
      obtain ⟨htraceable, hpart⟩ := Agent.callRuns_of_request a h.reachable c w htrace
      rw [(Agent.runTurn_runs a h.reachable c w).2, h.callRuns_eq, ← stepCalls_append] at hpart
      rw [callGroups_ofHistory htraceable]
      exact hpart

/-- A session in which the user has spoken. -/
def spokenTo : Session := (Session.new ⟨"s"⟩).perform (.append (.userText ⟨"twice", by decide⟩))

theorem conversed_spokenTo : spokenTo.Conversed [] := by
  have ok : (Session.new ⟨"s"⟩).appendAll [.userText ⟨"twice", by decide⟩] = .ok spokenTo := rfl
  exact .appended (.new ⟨"s"⟩) (by simp [Message.issues?]) ok

/-- A backend that asks for two batches before it answers. -/
def askingTwice : Agent (Nat × Nat) :=
  replaying [reusingBatch, reusingBatch, .ok (.finalAnswer "fine" none)]

/-- The two batches of a turn are told in two messages. The last request of the turn
shows all of them, and a session with open calls is told in whole, too. -/
theorem told_of_two_batches :
    let t := (askingTwice.runTurn spokenTo ⟨0, .absent⟩ (0, 7)).1
    (callGroups (ofHistory t.session.history)).map (·.map (·.name)) =
      [["look", "look"], ["look", "look"]] ∧
    List.Forall₂ (Log.Said Agent.halfAnswered.history) Agent.halfAnswered.history
      ((ofHistory Agent.halfAnswered.history).flatMap sayings) ∧
    ∃ before view specs after, t.trace = before ++ .asked view specs :: after ∧
      callGroups (ofHistory view) <:+: stepCalls (recordedBatches t.trace) := by
  intro t
  obtain ⟨htold, hsessions, hconversed⟩ := told_conversation
  have hturn := Session.Conversed.turn conversed_spokenTo askingTwice ⟨0, .absent⟩ (0, 7)
  refine ⟨?_, (htold _ (hsessions _ Agent.reachable_halfAnswered).1).2, ?_⟩
  · rw [(hconversed _ _ hturn).1]
    decide +kernel
  · have hasked : (t.trace[28]?).map Occurrence.isAsk = some true := by decide +kernel
    obtain ⟨o, ho, hask⟩ := Option.map_eq_some_iff.mp hasked
    cases o with
    | asked view specs =>
      obtain ⟨hlt, hget⟩ := List.getElem?_eq_some_iff.mp ho
      have hsplit : t.trace = t.trace.take 28 ++ .asked view specs :: t.trace.drop 29 := by
        rw [← hget, ← List.drop_eq_getElem_cons hlt, List.take_append_drop]
      exact ⟨_, view, specs, _, hsplit,
        (hconversed _ _ conversed_spokenTo).2.2 askingTwice _ _ _ _ _ _ hsplit⟩
    | _ => cases hask

end WireMessage

end AgentLoop
