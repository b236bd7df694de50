/-
AgentLoop.Proofs.Turn.Identifiers — the identifiers of a batch.

* `Agent.Kept` — which calls of a batch keep the identifiers that the backend
  gave them
* `Agent.prepareCalls_kept` — a call keeps its identifier unless it is taken
* `Agent.BatchRecorded` — what a batch that is recorded leaves in the log, and
  what is run of it
* `Agent.recordCalls_named`, `Agent.recordCalls_unnamed` — a batch is recorded
  if every call names a tool, and otherwise fails and is not
* `Agent.RepliesWith`, `Agent.batch_identifiers` — the same of a turn whose
  question was answered with a batch

Three kinds of identifiers are taken: those of the log, those that were given
to earlier calls of the batch and those that earlier calls came with. The last
two differ where an identifier was replaced. A fresh one is in use nowhere, so
that makes no difference to the calls behind it.
-/
import AgentLoop.Proofs.Turn.Phases

namespace AgentLoop

namespace Agent

variable {σ : Type} {a : Agent σ} {t t' : Turn σ}

/-! ## Identifiers that are kept -/

/-- Each call has the identifier of its request exactly if that is not taken by
then: it was taken before, or by a request in front. -/
inductive Kept : (CallId → Prop) → List ToolCallRequest → List ToolCallRequest → Prop
  | nil {taken : CallId → Prop} : Kept taken [] []
  | cons {taken : CallId → Prop} {request call : ToolCallRequest}
      {requested calls : List ToolCallRequest}
      (keeps : call.callId = request.callId ↔ ¬ taken request.callId)
      (later : Kept (fun id => taken id ∨ id = request.callId) requested calls) :
      Kept taken (request :: requested) (call :: calls)

theorem Kept.at_place {taken : CallId → Prop} {requested calls : List ToolCallRequest}
    (h : Kept taken requested calls) {i : Nat} {request call : ToolCallRequest}
    (hrequest : requested[i]? = some request) (hcall : calls[i]? = some call) :
    call.callId = request.callId ↔
      ¬ taken request.callId ∧ request.callId ∉ (requested.take i).map (·.callId) := by
  induction h generalizing i with
  | nil => simp at hrequest
  | cons keeps later ih =>
    cases i with
    | zero =>
      simp only [List.getElem?_cons_zero, Option.some.injEq] at hrequest hcall
      subst hrequest hcall
      simpa using keeps
    | succ i =>
      rw [List.getElem?_cons_succ] at hrequest hcall
      rw [ih hrequest hcall]
      simp [not_or, and_assoc]

/-- A call is given a fresh identifier exactly if its own is taken. -/
theorem assignId_fresh {seen : List CallId} {call call' : ToolCallRequest}
    (h : a.assignId seen call t = (t', call')) :
    ∃ fresh, t'.trace = t.trace ++ [.assigned call'.callId fresh] ∧
      t'.session = t.session ∧
      (fresh = true ↔ t.session.hasCall call.callId = true ∨ call.callId ∈ seen) ∧
      (fresh = false → call'.callId = call.callId) := by
  unfold assignId at h
  split at h
  · rename_i htaken
    cases h
    refine ⟨true, by simp, rfl, ?_, by simp⟩
    simpa using htaken
  · rename_i hfree
    cases h
    refine ⟨false, by simp, rfl, ?_, by simp⟩
    simpa using hfree

/-- The calls of a batch keep the identifiers that are not taken, if no fresh
identifier is in use. -/
theorem prepareCalls_kept {seen used : List CallId} {requested calls : List ToolCallRequest}
    {messages : List Message} {os : List Occurrence} {taken : CallId → Prop}
    (h : a.prepareCalls seen requested t = (t', .ok (calls, messages)))
    (htrace : t'.trace = t.trace ++ os) (hfresh : MintsUnused used os)
    (hused : ∀ request ∈ requested, request.callId ∈ used)
    (htaken : ∀ request ∈ requested, taken request.callId ↔
      t.session.hasCall request.callId = true ∨ request.callId ∈ seen) :
    Kept taken requested calls := by
  induction requested generalizing seen used t calls messages os taken with
  | nil =>
    cases h
    exact .nil
  | cons request rest ih =>
    rw [prepareCalls] at h
    cases hassign : a.assignId seen request t with | mk t₁ call
    obtain ⟨fresh, htrace₁, hsession, hiff, hsame⟩ := assignId_fresh hassign
    rw [hassign] at h
    dsimp only at h
    split at h
    · cases h
    cases hrest : a.prepareCalls (call.callId :: seen) rest t₁ with | mk t₂ r₂
    rw [hrest] at h
    cases r₂ with
    | error e => cases h
    | ok prepared =>
      cases h
      obtain ⟨others, hpass, -⟩ := prepareCalls_cases hrest
      have hos : os = .assigned call.callId fresh :: others := by
        have hboth := htrace.symm.trans hpass.trace
        rw [htrace₁, List.append_assoc] at hboth
        exact List.append_cancel_left hboth
      subst hos
      obtain ⟨hnew, hothers⟩ := hfresh
      obtain ⟨hfirst, hlater⟩ := List.forall_mem_cons.mp htaken
      obtain ⟨hfirst_used, hlater_used⟩ := List.forall_mem_cons.mp hused
      have hkeeps : call.callId = request.callId ↔ ¬ taken request.callId := by
        rw [hfirst, ← hiff]
        constructor
        · intro heq htrue
          exact hnew htrue (heq ▸ hfirst_used)
        · intro hkept
          exact hsame (Bool.eq_false_iff.mpr hkept)
      refine .cons hkeeps (ih hrest hpass.trace hothers ?_ ?_)
      · intro other hother
        exact List.mem_append_left _ (hlater_used other hother)
      · intro other hother
        -- the identifier that was given is the first request's, or no request has it
        have hgiven : other.callId = call.callId ↔
            fresh = false ∧ other.callId = request.callId := by
          cases hflag : fresh with
          | false => simp [hsame hflag]
          | true =>
            simp only [Bool.true_eq_false, false_and, iff_false]
            intro heq
            exact hnew hflag (heq ▸ hlater_used other hother)
        rw [hlater other hother, hsession, List.mem_cons, hgiven]
        by_cases hrepeated : other.callId = request.callId
        · rw [hrepeated]
          cases fresh with
          | false => simp
          | true => simpa using hiff.mp rfl
        · simp [hrepeated]

/-! ## Recording a batch -/

theorem asks?_eq : Message.asks? =
    Option.map (fun c => (c.toolName, c.arguments)) ∘ requestOf? := by
  funext m
  cases m <;> rfl

theorem map_requestOf? {calls : List Message} (h : ∀ m ∈ calls, m.issues?.isSome) :
    calls.map requestOf? = (calls.filterMap requestOf?).map some := by
  induction calls with
  | nil => rfl
  | cons m rest ih =>
    obtain ⟨hm, hrest⟩ := List.forall_mem_cons.mp h
    cases m with
    | toolCall id tool arguments => simp [requestOf?, ih hrest]
    | _ => cases hm

/-- What was recorded of a batch asks for what is run, call by call. -/
theorem requests_of_prepared {s : Session} {seen : List CallId}
    {requested calls : List ToolCallRequest} {os : List Occurrence} {messages : List Message}
    (h : a.prepareCalls seen requested t = (t', .ok (calls, messages)))
    (hprepared : Prepared s seen requested os calls messages) :
    messages.map requestOf? = calls.map some ∧
      calls.map (fun c => (c.toolName, c.arguments)) =
        requested.map fun r => (r.toolName, r.arguments) := by
  have hrequests : messages.map requestOf? = calls.map some := by
    rw [map_requestOf? hprepared.isSome_issues?, (requests_prepareCalls h).1]
  refine ⟨hrequests, ?_⟩
  have hasks := hprepared.asks
  rw [asks?_eq, ← List.map_map, hrequests] at hasks
  have hsome := congrArg (List.filterMap id) hasks
  simpa [List.filterMap_map, Function.comp_def] using hsome

/-- What a batch that is recorded leaves in the log, and what is run of it: one
call for each request, in their order, with the tool and the arguments that
were asked for. Their identifiers differ from each other and from those of the
log, and a request keeps its own exactly if neither the log has it nor a request
in front. -/
structure BatchRecorded (log : List Message) (requested calls : List ToolCallRequest)
    (log' : List Message) : Prop where
  appended : ∃ messages, log' = log ++ messages ∧ messages.map requestOf? = calls.map some
  asked : calls.map (fun c => (c.toolName, c.arguments)) =
    requested.map fun r => (r.toolName, r.arguments)
  distinct : (Log.issued log ++ calls.map (·.callId)).Nodup
  kept : ∀ (i : Nat) (request call : ToolCallRequest), requested[i]? = some request →
    calls[i]? = some call →
    (call.callId = request.callId ↔ request.callId ∉ Log.issued log ∧
      request.callId ∉ (requested.take i).map (·.callId))

/-- A batch of which every call names a tool is recorded. -/
theorem recordCalls_named {requested : List ToolCallRequest} {os : List Occurrence}
    {r : StepResult Verdict} (hquiet : t.session.Quiet) (hlow : t.clock.isRaised = false)
    (hnamed : ∀ request ∈ requested, Text.isBlank request.toolName = false)
    (h : a.recordCalls requested t = (t', r)) (htrace : t'.trace = t.trace ++ os)
    (hfresh : MintsUnused (Log.issued t.session.history ++ requested.map (·.callId)) os) :
    ∃ calls, r = .next (.execute calls) ∧
      BatchRecorded t.session.history requested calls t'.session.history := by
  have hhas : ∀ id, t.session.hasCall id = true ↔ id ∈ Log.issued t.session.history :=
    fun id => hquiet.reachable.consistent.ledger.find?_isSome_iff
  unfold recordCalls at h
  rw [hlow, if_neg (by simp)] at h
  cases hprepare : a.prepareCalls [] requested t with | mk t₁ r₁
  obtain ⟨os₁, hpass, -, -, hcase⟩ := prepareCalls_cases hprepare
  rw [hprepare] at h
  rcases hcase with ⟨e, rfl, call, hcall, hblank⟩ | ⟨calls, messages, rfl, hprepared⟩
  · rw [hnamed call hcall] at hblank
    cases hblank
  · dsimp only at h
    unfold Turn.record at h
    rw [hpass.session] at h
    cases happend : t.session.appendAll messages with
    | error e =>
      rw [happend] at h
      cases h
      have hos : os = os₁ ++ [.refused e] := by
        rw [Turn.trace_note, hpass.trace, List.append_assoc] at htrace
        exact (List.append_cancel_left htrace).symm
      rw [hos, mintsUnused_append] at hfresh
      exact absurd happend (hprepared.not_refused hquiet
        (fun id hid => List.mem_append_left _ hid) hfresh.1 e)
    | ok s' =>
      rw [happend] at h
      cases h
      have hos : os = os₁ ++ [.recorded messages] := by
        rw [Turn.trace_note, Turn.trace_with_session, hpass.trace, List.append_assoc] at htrace
        exact (List.append_cancel_left htrace).symm
      rw [hos, mintsUnused_append] at hfresh
      have hhistory := Session.history_of_appendAll happend
      obtain ⟨hrequests, hasked⟩ := requests_of_prepared hprepare hprepared
      have hkept : Kept (· ∈ Log.issued t.session.history) requested calls := by
        refine prepareCalls_kept hprepare hpass.trace hfresh.1 ?_ ?_
        · intro request hrequest
          exact List.mem_append_right _ (List.mem_map_of_mem hrequest)
        · intro request _
          simp [hhas]
      refine ⟨calls, rfl, ⟨messages, hhistory, hrequests⟩, hasked, ?_, ?_⟩
      · have hnodup := (hquiet.reachable.appendAll happend).consistent.ledger.issued_nodup
        rw [hhistory, Log.issued_append, hprepared.issued_eq] at hnodup
        exact hnodup
      · intro i request call hrequest hcall
        exact hkept.at_place hrequest hcall

/-- A batch of which some call names no tool is a failure of the backend, and
nothing of it is recorded. -/
theorem recordCalls_unnamed {requested : List ToolCallRequest} {r : StepResult Verdict}
    (hlow : t.clock.isRaised = false)
    (hblank : ∃ request ∈ requested, Text.isBlank request.toolName = true)
    (h : a.recordCalls requested t = (t', r)) :
    t'.session = t.session ∧
      ∃ e, r = .failed (.provider e) ∧ e.kind = .malformedResponse := by
  obtain ⟨request, hrequest, hblank⟩ := hblank
  unfold recordCalls at h
  rw [hlow, if_neg (by simp)] at h
  cases hprepare : a.prepareCalls [] requested t with | mk t₁ r₁
  obtain ⟨os, hpass, -, -, hcase⟩ := prepareCalls_cases hprepare
  rw [hprepare] at h
  rcases hcase with ⟨e, rfl, -⟩ | ⟨calls, messages, rfl, hprepared⟩
  · cases h
    exact ⟨hpass.session, _, rfl, rfl⟩
  · rw [hprepared.named request hrequest] at hblank
    cases hblank

/-! ## A question that is answered with a batch -/

/-- The backend answers the question of a turn with a reply. -/
def RepliesWith (a : Agent σ) (t t₁ : Turn σ) (reply : ProviderReply) : Prop :=
  a.request a.settings.retry.backoff (a.view t.session) a.tools.describeAll
    a.settings.retry.maxRetries 0 (t.enter .querying) = (t₁, .next reply)

theorem RepliesWith.session {t₁ : Turn σ} {reply : ProviderReply} (h : a.RepliesWith t t₁ reply) :
    t₁.session = t.session := by
  obtain ⟨es, os, -, -, hpass, -⟩ := request_cases h
  exact hpass.session

theorem RepliesWith.query {t₁ : Turn σ} {requested : List ToolCallRequest} {done : Bool}
    {u : Option TokenUsage} (h : a.RepliesWith t t₁ (.toolCallBatch requested done u))
    (hne : requested ≠ []) : a.query t = a.recordCalls requested (t₁.count u) := by
  unfold RepliesWith at h
  simp only [Agent.query, Turn.session_enter, h]
  cases requested with
  | nil => exact absurd rfl hne
  | cons request rest => rfl

/-- The identifiers of a batch. The question of a turn whose session is active
is answered with some calls, the signal is not raised by then, and no fresh
identifier is in use. If every call names a tool, all are recorded and handed
on to be run, each under its own identifier unless that is taken. If some call
names none, nothing is recorded, and the turn ends with a failure of the
backend. -/
theorem batch_identifiers (a : Agent σ) {t t₁ t₂ : Turn σ} {requested : List ToolCallRequest}
    {done : Bool} {u : Option TokenUsage} {r : StepResult Verdict} {os : List Occurrence}
    (hreachable : t.session.Reachable) (hactive : t.session.status = .active)
    (hne : requested ≠ []) (hreply : a.RepliesWith t t₁ (.toolCallBatch requested done u))
    (hlow : t₁.clock.isRaised = false) (hquery : a.query t = (t₂, r))
    (htrace : t₂.trace = t₁.trace ++ os)
    (hfresh : MintsUnused (Log.issued t.session.history ++ requested.map (·.callId)) os) :
    ((∀ request ∈ requested, Text.isBlank request.toolName = false) →
      ∃ calls, r = .next (.execute calls) ∧
        BatchRecorded t.session.history requested calls t₂.session.history) ∧
    ((∃ request ∈ requested, Text.isBlank request.toolName = true) →
      t₂.session.history = t.session.history ∧
        ∃ e, r = .failed (.provider e) ∧ e.kind = .malformedResponse ∧
          (t.clock.isRaised = false → ∀ left, ∃ t₃ message,
            a.loop (left + 1) t = (t₃, some (.errored (.provider .malformedResponse) message)) ∧
              t₃.session.history = t.session.history)) := by
  have hrecord := (hreply.query hne).symm.trans hquery
  have hhistory : (t₁.count u).session.history = t.session.history := by
    rw [Turn.history_count, hreply.session]
  have hlow₁ : (t₁.count u).clock.isRaised = false := by simpa using hlow
  constructor
  · intro hnamed
    have hquiet : (t₁.count u).session.Quiet := by
      refine Turn.quiet_count ?_ u
      rw [hreply.session]
      exact Session.quiet_of_active hreachable hactive
    rw [← hhistory] at hfresh ⊢
    exact recordCalls_named hquiet hlow₁ hnamed hrecord (by simpa using htrace) hfresh
  · intro hblank
    obtain ⟨hsession, e, rfl, hkind⟩ := recordCalls_unnamed hlow₁ hblank hrecord
    have hsame : t₂.session.history = t.session.history := by rw [hsession, hhistory]
    refine ⟨hsame, e, rfl, hkind, ?_⟩
    intro hlow left
    refine ⟨(t₂.fail (.provider e)).1, (AgentError.provider e).display, ?_, ?_⟩
    · rw [loop, hlow, if_neg (by simp), hquery]
      simp [ended, TurnOutcome.ofError, AgentError.turnKind, hkind]
    · simpa using hsame

/-- A session in the middle of a turn, with a call that has its result. -/
def onceAnswered : Session :=
  (Session.new ⟨"s"⟩).performAll
    [.append (.userText ⟨"read it all", by decide⟩),
     .append (.toolCall (.numbered 1) ⟨"open", by decide⟩ .null),
     .append (.toolResult (.numbered 1) .ok .null)]

theorem reachable_onceAnswered : onceAnswered.Reachable :=
  (Session.Reachable.new _).performAll _

/-- A turn of that session; the next fresh identifier is that of number 5. -/
def onceAnsweredTurn : Turn (Nat × Nat) where
  session := onceAnswered
  clock := ⟨0, .absent⟩
  world := (0, 5)

/-- A batch with an identifier of the log, one that is new, and the same once
more. -/
def mixedIdentifiers : List ToolCallRequest :=
  [⟨.numbered 1, "look", .null⟩, ⟨.numbered 2, "look", .bool true⟩, ⟨.numbered 2, "find", .null⟩]

/-- A batch of which the second call names no tool. -/
def unnamedSecond : List ToolCallRequest :=
  [⟨.numbered 2, "look", .null⟩, ⟨.numbered 3, " ", .null⟩]

/-- An agent whose backend asks for a batch. -/
def batching (requested : List ToolCallRequest) : Agent (Nat × Nat) :=
  replaying [.ok (.toolCallBatch requested false none)]

/-- Of the first batch two calls get fresh identifiers; the other one is not
recorded. -/
theorem identifiers_of_mixed_batches :
    (∃ calls t₂, (batching mixedIdentifiers).query onceAnsweredTurn = (t₂, .next (.execute calls)) ∧
      calls.map (·.callId) = [.numbered 5, .numbered 2, .numbered 6] ∧
      BatchRecorded onceAnswered.history mixedIdentifiers calls t₂.session.history) ∧
    ∃ t₃ message, (batching unnamedSecond).loop 1 onceAnsweredTurn =
        (t₃, some (.errored (.provider .malformedResponse) message)) ∧
      t₃.session.history = onceAnswered.history := by
  have hne : mixedIdentifiers ≠ [] ∧ unnamedSecond ≠ [] := by decide
  constructor
  · let os : List Occurrence := [.assigned (.numbered 5) true, .assigned (.numbered 2) false,
      .assigned (.numbered 6) true, .recorded
        [.toolCall (.numbered 5) ⟨"look", by decide⟩ .null,
         .toolCall (.numbered 2) ⟨"look", by decide⟩ (.bool true),
         .toolCall (.numbered 6) ⟨"find", by decide⟩ .null]]
    have hquery : (batching mixedIdentifiers).query onceAnsweredTurn = (_, .next (.execute
        [⟨.numbered 5, "look", .null⟩, ⟨.numbered 2, "look", .bool true⟩,
         ⟨.numbered 6, "find", .null⟩])) := rfl
    have hreply : (batching mixedIdentifiers).RepliesWith onceAnsweredTurn _
        (.toolCallBatch mixedIdentifiers false none) := rfl
    have hfresh : MintsUnused (Log.issued onceAnswered.history ++
        mixedIdentifiers.map (·.callId)) os := by decide +kernel
    obtain ⟨hrecorded, -⟩ := batch_identifiers (batching mixedIdentifiers) reachable_onceAnswered
      rfl hne.1 hreply rfl hquery rfl hfresh
    obtain ⟨calls, hcalls, hbatch⟩ := hrecorded (by decide)
    cases hcalls
    exact ⟨_, _, hquery, rfl, hbatch⟩
  · let os : List Occurrence := [.assigned (.numbered 2) false, .assigned (.numbered 3) false]
    have hreply : (batching unnamedSecond).RepliesWith onceAnsweredTurn _
        (.toolCallBatch unnamedSecond false none) := rfl
    have hfresh : MintsUnused (Log.issued onceAnswered.history ++
        unnamedSecond.map (·.callId)) os := by decide +kernel
    obtain ⟨-, hfailed⟩ := batch_identifiers (batching unnamedSecond) reachable_onceAnswered
      rfl hne.2 hreply rfl (Prod.ext rfl rfl) rfl hfresh
    have hblank : ∃ request ∈ unnamedSecond, Text.isBlank request.toolName = true := by decide
    obtain ⟨-, e, -, -, hends⟩ := hfailed hblank
    exact hends rfl 0

end Agent

end AgentLoop
