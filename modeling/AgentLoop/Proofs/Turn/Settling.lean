/-
AgentLoop.Proofs.Turn.Settling — what an answer of the backend makes of a
turn.

* `Agent.Prepared`, `Agent.prepareCalls_cases` — a batch under its
  identifiers: the messages ask for what the backend asked for, and if
  fresh identifiers are unused, no identifier occurs twice
* `Agent.Settled` — all that can become of an answer
* `Agent.Queried`, `Agent.query_cases` — all that one question can come to

Every exit of a question has a constructor, with what the session and the
trace are at that exit. Later proofs split on these and look at no
function of the question again.
-/
import AgentLoop.Proofs.Session.Pending
import AgentLoop.Proofs.Turn.Asking

namespace AgentLoop

/-- The tool that a call asks for, and with what. -/
def Message.asks? : Message → Option (String × Json)
  | .toolCall _ tool arguments => some (tool.text, arguments)
  | _ => none

theorem Message.call_ok_iff {id : CallId} {tool : String} {arguments : Json}
    {m : Message} :
    Message.call id tool arguments = .ok m ↔
      ∃ h : Text.isBlank tool = false, m = .toolCall id ⟨tool, h⟩ arguments := by
  unfold Message.call NonBlank.ofText
  split
  · rename_i hsaid
    simp [Except.map, hsaid, eq_comm]
  · rename_i hblank
    simp [Except.map, hblank]

theorem Message.blank_of_call {id : CallId} {tool : String} {arguments : Json}
    {e : MessageError} (h : Message.call id tool arguments = .error e) :
    Text.isBlank tool = true := by
  unfold Message.call NonBlank.ofText at h
  split at h
  · cases h
  · rename_i hblank
    simpa using hblank

/-- Whether an occurrence gives an identifier to a call. -/
def Occurrence.isAssignment : Occurrence → Bool
  | .assigned .. => true
  | _ => false

namespace Agent

variable {σ : Type} {a : Agent σ} {t t' : Turn σ}

/-! ## Preparing a batch -/

theorem assignId_cases {seen : List CallId} {call call' : ToolCallRequest}
    (h : a.assignId seen call t = (t', call')) :
    ∃ fresh, t.Passes [.assigned call'.callId fresh] t' ∧ t'.clock = t.clock ∧
      call'.toolName = call.toolName ∧ call'.arguments = call.arguments ∧
      (fresh = false → t.session.hasCall call'.callId = false ∧
        call'.callId ∉ seen) := by
  unfold assignId at h
  split at h
  · cases h
    refine ⟨true, ?_, rfl, rfl, rfl, by simp⟩
    exact ((Turn.Passes.refl t).after _ _).note _
  · rename_i hnew
    cases h
    refine ⟨false, (Turn.Passes.refl t).note _, rfl, rfl, rfl, fun _ => ?_⟩
    simpa using hnew

/-- A batch under its identifiers: what is recorded asks for what was
requested, call by call, and if no fresh identifier is in use, the
identifiers are new to the session and to the calls before. -/
structure Prepared (s : Session) (seen : List CallId)
    (requested : List ToolCallRequest) (os : List Occurrence)
    (calls : List ToolCallRequest) (messages : List Message) : Prop where
  asks : messages.map Message.asks? =
    requested.map fun r => some (r.toolName, r.arguments)
  issues : messages.map Message.issues? = calls.map fun c => some c.callId
  assigned : assignedIds os = calls.map (·.callId)
  distinct : ∀ used, MintsUnused used os →
    (∀ id, s.hasCall id = true → id ∈ used) → (∀ id ∈ seen, id ∈ used) →
    (calls.map (·.callId)).Nodup ∧
      ∀ id ∈ calls.map (·.callId), s.hasCall id = false ∧ id ∉ seen

/-- One more call in front of a batch. `fresh` tells whether its
identifier is a fresh one. -/
theorem Prepared.cons {s : Session} {seen : List CallId}
    {call call' : ToolCallRequest} {rest calls : List ToolCallRequest}
    {os : List Occurrence} {messages : List Message} {m : Message} {fresh : Bool}
    (h : Prepared s (call'.callId :: seen) rest os calls messages)
    (hasks : m.asks? = some (call.toolName, call.arguments))
    (hissues : m.issues? = some call'.callId)
    (hkept : fresh = false → s.hasCall call'.callId = false ∧ call'.callId ∉ seen) :
    Prepared s seen (call :: rest) ([.assigned call'.callId fresh] ++ os)
      (call' :: calls) (m :: messages) := by
  refine { asks := ?_, issues := ?_, assigned := ?_, distinct := ?_ }
  · rw [List.map_cons, List.map_cons, h.asks, hasks]
  · rw [List.map_cons, List.map_cons, h.issues, hissues]
  · rw [assignedIds_append, h.assigned]
    rfl
  · rintro used ⟨hfresh, hminted⟩ hknown hseen
    have hself : s.hasCall call'.callId = false ∧ call'.callId ∉ seen := by
      cases fresh with
      | false => exact hkept rfl
      | true =>
        refine ⟨?_, fun hmem => hfresh rfl (hseen _ hmem)⟩
        exact Bool.eq_false_iff.mpr fun hcalled => hfresh rfl (hknown _ hcalled)
    have hseen' : ∀ id ∈ call'.callId :: seen, id ∈ used ++ [call'.callId] := by
      intro id hid
      rcases List.mem_cons.mp hid with rfl | hid
      · simp
      · exact List.mem_append_left _ (hseen id hid)
    obtain ⟨hnodup, hnew⟩ := h.distinct _ hminted
      (fun id hid => List.mem_append_left _ (hknown id hid)) hseen'
    constructor
    · rw [List.map_cons, List.nodup_cons]
      exact ⟨fun hmem => (hnew _ hmem).2 (by simp), hnodup⟩
    · intro id hid
      rcases List.mem_cons.mp hid with rfl | hid
      · exact hself
      · obtain ⟨hfree, hunseen⟩ := hnew id hid
        exact ⟨hfree, fun hmem => hunseen (List.mem_cons_of_mem _ hmem)⟩

/-- Preparing a batch only gives identifiers to calls. It fails only if
some call names no tool. -/
theorem prepareCalls_cases {seen : List CallId} {requested : List ToolCallRequest}
    {r : Except MessageError (List ToolCallRequest × List Message)}
    (h : a.prepareCalls seen requested t = (t', r)) :
    ∃ os, t.Passes os t' ∧ t'.clock = t.clock ∧
      (∀ o ∈ os, o.isAssignment = true) ∧
      ((∃ e, r = .error e ∧ ∃ call ∈ requested, Text.isBlank call.toolName = true) ∨
        ∃ calls messages, r = .ok (calls, messages) ∧
          Prepared t.session seen requested os calls messages) := by
  induction requested generalizing seen t t' r with
  | nil =>
    cases h
    refine ⟨[], .refl t, rfl, by simp, Or.inr ⟨[], [], rfl, ?_⟩⟩
    exact ⟨rfl, rfl, rfl, fun _ _ _ _ => by simp⟩
  | cons call rest ih =>
    rw [prepareCalls] at h
    cases hassign : a.assignId seen call t with | mk t₁ call₁
    obtain ⟨fresh, hpass₁, hclock₁, htool, harguments, hkept⟩ := assignId_cases hassign
    rw [hassign] at h
    dsimp only at h
    split at h
    · rename_i e hcall
      cases h
      refine ⟨_, hpass₁, hclock₁, by simp [Occurrence.isAssignment],
        Or.inl ⟨e, rfl, call, by simp, ?_⟩⟩
      rw [← htool]
      exact Message.blank_of_call hcall
    · rename_i m hcall
      cases hrest : a.prepareCalls (call₁.callId :: seen) rest t₁ with | mk t₂ r₂
      obtain ⟨os, hpass₂, hclock₂, hos, hcase⟩ := ih hrest
      rw [hrest] at h
      have hpass := hpass₁.trans hpass₂
      have hassigns : ∀ o ∈ [.assigned call₁.callId fresh] ++ os,
          o.isAssignment = true := by
        simpa [Occurrence.isAssignment] using hos
      rcases hcase with ⟨e, rfl, later, hlater, hblank⟩ | ⟨calls, messages, rfl, hprepared⟩
      · cases h
        refine ⟨_, hpass, hclock₂.trans hclock₁, hassigns, Or.inl ⟨e, rfl, later, ?_, hblank⟩⟩
        exact List.mem_cons_of_mem _ hlater
      · cases h
        refine ⟨_, hpass, hclock₂.trans hclock₁, hassigns, Or.inr ⟨_, _, rfl, ?_⟩⟩
        obtain ⟨hsaid, rfl⟩ := Message.call_ok_iff.mp hcall
        rw [hpass₁.session] at hprepared
        exact hprepared.cons (by rw [← htool, ← harguments]; rfl) rfl hkept

namespace Prepared

variable {s : Session} {seen : List CallId} {requested calls : List ToolCallRequest}
  {os : List Occurrence} {messages : List Message}

/-- A batch whose calls were prepared names a tool in each. -/
theorem named (h : Prepared s seen requested os calls messages) :
    ∀ r ∈ requested, Text.isBlank r.toolName = false := by
  intro r hr
  have hmem : some (r.toolName, r.arguments) ∈ messages.map Message.asks? := by
    rw [h.asks]
    exact List.mem_map_of_mem hr
  obtain ⟨m, -, hm⟩ := List.mem_map.mp hmem
  cases m with
  | toolCall id tool arguments =>
    rw [Message.asks?, Option.some.injEq, Prod.mk.injEq] at hm
    rw [← hm.1]
    exact tool.notBlank
  | _ => cases hm

/-- The messages of a batch are calls. -/
theorem isSome_issues? (h : Prepared s seen requested os calls messages) :
    ∀ m ∈ messages, m.issues?.isSome := by
  intro m hm
  have hmem : m.issues? ∈ messages.map Message.issues? := List.mem_map_of_mem hm
  rw [h.issues] at hmem
  obtain ⟨c, -, hc⟩ := List.mem_map.mp hmem
  rw [← hc]
  rfl

theorem issued_eq (h : Prepared s seen requested os calls messages) :
    Log.issued messages = calls.map (·.callId) := by
  apply Log.issued_of_map
  rw [h.issues, List.map_map]
  rfl

end Prepared

/-! ## Settling an answer -/

/-- All that can become of an answer of the backend. `t` is the turn when
the answer is there; what occurs afterwards is listed. -/
inductive Settled (a : Agent σ) (t : Turn σ) :
    ProviderResult → List Occurrence → Turn σ → StepResult Verdict → Prop
  | failure (e : ProviderError) :
      Settled a t (.error e) [] t (.failed (.provider e))
  | answer (text : String) (u : Option TokenUsage)
      (said : Text.isBlank text = false) :
      Settled a t (.ok (.finalAnswer text u)) [] (t.count u) (.next (.finish (some text)))
  | blank (text : String) (u : Option TokenUsage)
      (unsaid : Text.isBlank text = true) :
      Settled a t (.ok (.finalAnswer text u)) [] (t.count u)
        (.failed (.provider (.malformed "final answer is empty")))
  | done (u : Option TokenUsage) :
      Settled a t (.ok (.toolCallBatch [] true u)) [] (t.count u) (.next (.finish none))
  | empty (u : Option TokenUsage) :
      Settled a t (.ok (.toolCallBatch [] false u)) [] (t.count u)
        (.failed (.provider (.malformed "tool call batch is empty")))
  | cancelled {requested : List ToolCallRequest} (done : Bool) (u : Option TokenUsage)
      (nonempty : requested ≠ []) (stopped : t.clock.isRaised = true) :
      Settled a t (.ok (.toolCallBatch requested done u)) [] (t.count u)
        (.failed .cancelled)
  | unnamed {requested : List ToolCallRequest} (done : Bool) (u : Option TokenUsage)
      {os : List Occurrence} {t' : Turn σ} (e : MessageError)
      (unnamed : ∃ call ∈ requested, Text.isBlank call.toolName = true)
      (assigns : ∀ o ∈ os, o.isAssignment = true)
      (passes : (t.count u).Passes os t') :
      Settled a t (.ok (.toolCallBatch requested done u)) os t'
        (.failed (.provider (.malformed e.toAgentError.display)))
  | refused {requested : List ToolCallRequest} (done : Bool) (u : Option TokenUsage)
      {os : List Occurrence} {t' : Turn σ} {calls : List ToolCallRequest}
      {messages : List Message} (e : AppendError) (nonempty : requested ≠ [])
      (assigns : ∀ o ∈ os, o.isAssignment = true)
      (prepared : Prepared (t.count u).session [] requested os calls messages)
      (refused : (t.count u).session.appendAll messages = .error e)
      (passes : (t.count u).Passes (os ++ [.refused e]) t') :
      Settled a t (.ok (.toolCallBatch requested done u)) (os ++ [.refused e]) t'
        (.failed e.toAgentError)
  | recorded {requested : List ToolCallRequest} (done : Bool) (u : Option TokenUsage)
      {os : List Occurrence} {t' : Turn σ} {calls : List ToolCallRequest}
      {messages : List Message} (nonempty : requested ≠ [])
      (assigns : ∀ o ∈ os, o.isAssignment = true)
      (prepared : Prepared (t.count u).session [] requested os calls messages)
      (recorded : (t.count u).session.appendAll messages = .ok t'.session)
      (trace : t'.trace = t.trace ++ (os ++ [.recorded messages])) :
      Settled a t (.ok (.toolCallBatch requested done u)) (os ++ [.recorded messages]) t'
        (.next (.execute calls))

theorem recordCalls_cases {requested : List ToolCallRequest} {done : Bool}
    {u : Option TokenUsage} {r : StepResult Verdict} (hne : requested ≠ [])
    (h : a.recordCalls requested (t.count u) = (t', r)) :
    ∃ os, Settled a t (.ok (.toolCallBatch requested done u)) os t' r := by
  unfold recordCalls at h
  by_cases hraised : (t.count u).clock.isRaised = true
  · rw [if_pos hraised] at h
    cases h
    exact ⟨[], .cancelled done u hne (by simpa using hraised)⟩
  · rw [if_neg hraised] at h
    cases hprepare : a.prepareCalls [] requested (t.count u) with | mk t₁ r₁
    rw [hprepare] at h
    obtain ⟨os, hpass, -, hos, hcase⟩ := prepareCalls_cases hprepare
    rcases hcase with ⟨e, rfl, hblank⟩ | ⟨calls, messages, rfl, hprepared⟩
    · cases h
      exact ⟨os, .unnamed done u e hblank hos hpass⟩
    · dsimp only at h
      unfold Turn.record at h
      cases happend : t₁.session.appendAll messages with
      | error e =>
        rw [happend] at h
        cases h
        rw [hpass.session] at happend
        exact ⟨_, .refused done u e hne hos hprepared happend (hpass.note _)⟩
      | ok session =>
        rw [happend] at h
        cases h
        rw [hpass.session] at happend
        refine ⟨_, .recorded done u hne hos hprepared happend ?_⟩
        simp [hpass.trace]

theorem acceptReply_cases {reply : ProviderReply} {r : StepResult Verdict}
    (h : a.acceptReply reply t = (t', r)) :
    ∃ os, Settled a t (.ok reply) os t' r := by
  cases reply with
  | finalAnswer text u =>
    simp only [acceptReply, ProviderReply.usage?] at h
    split at h
    · rename_i hblank
      cases h
      exact ⟨[], .blank text u hblank⟩
    · rename_i hsaid
      cases h
      exact ⟨[], .answer text u (Bool.eq_false_iff.mpr hsaid)⟩
  | toolCallBatch requested done u =>
    cases requested with
    | nil =>
      cases done with
      | true =>
        cases h
        exact ⟨[], .done u⟩
      | false =>
        cases h
        exact ⟨[], .empty u⟩
    | cons call rest => exact recordCalls_cases (by simp) h

/-! ## One question -/

/-- The trace of a question that was not decided: it was repeated after
some failures, and then perhaps asked once more. -/
def undecided (a : Agent σ) (t : Turn σ) (es : List ProviderError)
    (os : List Occurrence) : List Occurrence :=
  .published (.stateChanged t.session.id .querying) ::
    (retrySteps t.session.id (a.view t.session) a.tools.describeAll 0 es ++ os)

/-- All that one question can come to. -/
inductive Queried (a : Agent σ) (t : Turn σ) : Turn σ → StepResult Verdict → Prop
  | never {t' : Turn σ} (es : List ProviderError) (stuck : ¬ a.provider.Answers)
      (passes : t.Passes (a.undecided t es
        [.asked (a.view t.session) a.tools.describeAll]) t') :
      Queried a t t' .never
  | cancelled {t' : Turn σ} (es : List ProviderError) (os : List Occurrence)
      (short : os = [] ∨ os = [.asked (a.view t.session) a.tools.describeAll])
      (stopped : t'.clock.isRaised = true)
      (passes : t.Passes (a.undecided t es os) t') :
      Queried a t t' (.failed .cancelled)
  | settled {t₁ t' : Turn σ} {r : StepResult Verdict} (q : Inquiry) (os : List Occurrence)
      (view : q.view = a.view t.session)
      (within : q.Within a.settings.retry.maxRetries)
      (passes : t.Passes (q.occurrences t.session.id a.tools.describeAll) t₁)
      (settled : Settled a t₁ q.answer os t' r) : Queried a t t' r

theorem query_cases {r : StepResult Verdict} (h : a.query t = (t', r)) :
    Queried a t t' r := by
  unfold query at h
  dsimp only at h
  have henter := (Turn.Passes.refl t).note (.published (.stateChanged t.session.id .querying))
  cases hrequest : a.request a.settings.retry.backoff (a.view (t.enter .querying).session)
    a.tools.describeAll a.settings.retry.maxRetries 0 (t.enter .querying) with | mk t₁ r₁
  rw [hrequest] at h
  obtain ⟨es, os, hle, hall, hpass, hend⟩ := request_cases hrequest
  have hpass := henter.trans hpass
  cases hend with
  | never stuck =>
    cases h
    exact .never es stuck hpass
  | cancelled os short stopped =>
    cases h
    exact .cancelled es os short stopped hpass
  | failed e final =>
    cases h
    refine .settled ⟨a.view t.session, es, .error e⟩ [] rfl ⟨hle, hall, ?_⟩ hpass (.failure e)
    rintro other ⟨⟩ hretry
    exact final hretry
  | replied reply =>
    obtain ⟨os, hsettled⟩ := acceptReply_cases h
    refine .settled ⟨a.view t.session, es, .ok reply⟩ os rfl ⟨hle, hall, ?_⟩ hpass hsettled
    rintro other ⟨⟩

end Agent

end AgentLoop
