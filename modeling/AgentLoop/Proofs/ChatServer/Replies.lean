/-
AgentLoop.Proofs.ChatServer.Replies — what a server's answers come to.

* `ChatServer.Passing` — the statuses of failures that pass by themselves
* `ChatServer.Useless`, `ChatServer.Unusable` — answers that nothing can be made of,
  now or later
* `ChatServer.Means` — the reply that a usable answer stands for
* `ChatServer.minted`, `ChatServer.NeverRepeats` — identifiers of a source
* `ChatServer.failureOfStatus_retryable_iff`, `ChatServer.interpret_error`,
  `ChatServer.interpret_ok` — the parts of a request
* `ChatServer.answers_interpreted` — what a request comes to, for every answer

Whether to ask again is decided by the status alone: no words in a body make a
failure one that passes, or the other way round.
-/
import AgentLoop.ChatServer.Service
import AgentLoop.Proofs.Message.FreshId
import Mathlib.Data.List.Forall2

namespace AgentLoop.ChatServer

/-! ## Answers -/

/-- The statuses of failures that pass by themselves. -/
def Passing (status : Nat) : Prop :=
  status = 408 ∨ status = 429 ∨ 500 ≤ status ∧ status ≤ 599

instance decidablePassing (status : Nat) : Decidable (Passing status) :=
  inferInstanceAs (Decidable (status = 408 ∨ status = 429 ∨ 500 ≤ status ∧ status ≤ 599))

/-- A response that nothing can be made of: it complains, or has no message, or one
without calls and with a blank text. -/
inductive Useless (r : ChatResponse) : Prop
  | complaint {text : String} (complains : r.error = some text)
  | no_message (content : r.error = none) (missing : r.message = none)
  | nothing_said {m : WireMessage} (content : r.error = none) (message : r.message = some m)
      (no_calls : m.toolCalls = []) (blank : Text.isBlank m.content = true)

/-- An answer that nothing can be made of, and no other will come: one with another
status than that of a success or a failure that passes, or one of a success that
cannot be read as a response, or is read as a useless one. -/
inductive Unusable (status : Nat) (body : String) : Prop
  | refused (no_success : ¬ (200 ≤ status ∧ status ≤ 299)) (lasting : ¬ Passing status)
  | unreadable (success : 200 ≤ status ∧ status ≤ 299) {e : Json.DecodeError}
      (illegible : Json.decode ChatResponse.reader body = .error e)
  | useless (success : 200 ≤ status ∧ status ≤ 299) {r : ChatResponse}
      (legible : Json.decode ChatResponse.reader body = .ok r) (useless : Useless r)

/-- What arguments stand for: a string that is JSON for its value, any other string
and any other value for itself. -/
inductive StandFor : Json → Json → Prop
  | encoded {raw : String} {v : Json} (json : Json.parse? raw = some v) :
      StandFor (.string raw) v
  | text {raw : String} (no_json : Json.parse? raw = none) : StandFor (.string raw) (.string raw)
  | value {v : Json} (no_string : ∀ raw, v ≠ .string raw) : StandFor v v

/-- A call asks for what an entry of the server names. -/
structure Asks (entry : WireCall) (call : ToolCallRequest) : Prop where
  tool : call.toolName = entry.name
  arguments : StandFor entry.arguments call.arguments

/-- The usage of a response: none if it has neither count, and otherwise that of its
counts, the one that is missing being zero. -/
def UsageOf (r : ChatResponse) (usage : Option TokenUsage) : Prop :=
  (usage = none ↔ r.promptCount = none ∧ r.completionCount = none) ∧
    ∀ u, usage = some u → u = .ofCounts (r.promptCount.getD 0) (r.completionCount.getD 0)

section Source

variable {σ : Type} (freshId : σ → CallId × σ)

/-- The next identifiers of a source. -/
def minted : Nat → σ → List CallId
  | 0, _ => []
  | n + 1, world => (freshId world).1 :: minted n (freshId world).2

/-- A source never gives an identifier that it gave before. -/
def NeverRepeats : Prop :=
  ∀ world n, (freshId world).1 ∉ minted freshId n (freshId world).2

/-- The reply that a response stands for, with the next identifiers of a source. -/
inductive Means (r : ChatResponse) (world : σ) : ProviderReply → Prop
  | batch {m : WireMessage} {calls : List ToolCallRequest} {usage : Option TokenUsage}
      (content : r.error = none) (message : r.message = some m) (nonempty : calls ≠ [])
      (asks : List.Forall₂ Asks m.toolCalls calls)
      (fresh : calls.map (·.callId) = minted freshId m.toolCalls.length world)
      (counted : UsageOf r usage) : Means r world (.toolCallBatch calls false usage)
  | answer {m : WireMessage} {usage : Option TokenUsage} (content : r.error = none)
      (message : r.message = some m) (no_calls : m.toolCalls = [])
      (said : Text.isBlank m.content = false) (counted : UsageOf r usage) :
      Means r world (.finalAnswer m.content usage)

variable {freshId}

theorem NeverRepeats.minted_nodup (h : NeverRepeats freshId) (n : Nat) (world : σ) :
    (minted freshId n world).Nodup := by
  induction n generalizing world with
  | zero => exact List.nodup_nil
  | succ n ih => exact List.nodup_cons.mpr ⟨h world n, ih _⟩

end Source

/-! ## Failures -/

theorem isTransient_kindOfText (text : String) : (kindOfText text).isTransient = false := by
  unfold kindOfText
  split
  · rfl
  · split <;> rfl

theorem failureOfText_lasting (text : String) : (failureOfText text).retryable = false :=
  isTransient_kindOfText text

theorem failureOfFault_passes (f : Http.Fault) : (failureOfFault f).retryable = true := by
  unfold failureOfFault
  split <;> rfl

/-- A failure passes by its status, whatever the body says. -/
theorem failureOfStatus_retryable_iff (status : Nat) (body : String) :
    (failureOfStatus status body).retryable = true ↔ Passing status := by
  have hkind := isTransient_kindOfText (errorDetail body)
  unfold failureOfStatus Passing
  simp only [Bool.or_eq_true, Bool.and_eq_true, decide_eq_true_eq]
  split
  · exact iff_of_false Bool.false_ne_true (by omega)
  split
  · exact iff_of_false Bool.false_ne_true (by omega)
  split
  · exact iff_of_true rfl (by omega)
  split
  · exact iff_of_false Bool.false_ne_true (by omega)
  split
  · exact iff_of_true rfl (by omega)
  -- any other failure lasts, be it of a kind that the body tells of or not
  have hlasting : ¬ (status = 408 ∨ status = 429 ∨ 500 ≤ status ∧ status ≤ 599) := by omega
  split
  · exact iff_of_false Bool.false_ne_true hlasting
  · refine iff_of_false ?_ hlasting
    rw [ProviderError.ofKind, hkind]
    exact Bool.false_ne_true

/-! ## Responses -/

section Source

variable {σ : Type} {freshId : σ → CallId × σ}

theorem standFor_readArguments (v : Json) : StandFor v (readArguments v) := by
  cases v with
  | string raw =>
    rw [readArguments]
    cases hparse : Json.parse? raw with
    | some v => exact .encoded hparse
    | none => exact .text hparse
  | _ => exact .value (by simp)

theorem usageOf_usage? (r : ChatResponse) : UsageOf r (usage? r) := by
  unfold UsageOf usage?
  cases r.promptCount <;> cases r.completionCount <;> simp

/-- Each entry has its call, under the next identifier. -/
theorem asks_requests (freshId : σ → CallId × σ) (entries : List WireCall) (world : σ) :
    List.Forall₂ Asks entries (requests freshId entries world).1 ∧
      (requests freshId entries world).1.map (·.callId) =
        minted freshId entries.length world := by
  induction entries generalizing world with
  | nil => exact ⟨.nil, rfl⟩
  | cons entry rest ih =>
    obtain ⟨hrest, hids⟩ := ih (freshId world).2
    exact ⟨.cons ⟨rfl, standFor_readArguments entry.arguments⟩ hrest, congrArg _ hids⟩

/-- All that a response can come to: a failure that lasts if it is useless, and
otherwise what it stands for. -/
theorem interpret_cases (freshId : σ → CallId × σ) (r : ChatResponse) (world : σ) :
    (Useless r ∧ ∃ e, (interpret freshId r world).1 = .error e ∧ e.retryable = false) ∨
      (¬ Useless r ∧ ∃ reply, (interpret freshId r world).1 = .ok reply ∧
        Means freshId r world reply) := by
  unfold interpret
  cases herror : r.error with
  | some text => exact Or.inl ⟨.complaint herror, _, rfl, failureOfText_lasting text⟩
  | none =>
    cases hmessage : r.message with
    | none => exact Or.inl ⟨.no_message herror hmessage, _, rfl, rfl⟩
    | some m =>
      dsimp only
      split
      · rename_i hnone
        have hnone := List.isEmpty_iff.mp hnone
        split
        · rename_i hblank
          exact Or.inl ⟨.nothing_said herror hmessage hnone hblank, _, rfl, rfl⟩
        · rename_i hsaid
          have hsaid := Bool.eq_false_iff.mpr hsaid
          refine Or.inr ⟨?_, _, rfl, .answer herror hmessage hnone hsaid (usageOf_usage? r)⟩
          rintro (⟨hcomplains⟩ | ⟨-, hmissing⟩ | ⟨-, hother, -, hblank⟩)
          · simp [herror] at hcomplains
          · simp [hmessage] at hmissing
          · rw [hmessage, Option.some.injEq] at hother
            rw [← hother, hsaid] at hblank
            cases hblank
      · rename_i hsome
        rw [List.isEmpty_iff] at hsome
        obtain ⟨hasks, hids⟩ := asks_requests freshId m.toolCalls world
        have hcalls : (requests freshId m.toolCalls world).1 ≠ [] := by
          intro hnil
          rw [hnil, List.forall₂_nil_right_iff] at hasks
          exact hsome hasks
        refine Or.inr ⟨?_, _, rfl, .batch herror hmessage hcalls hasks hids (usageOf_usage? r)⟩
        rintro (⟨hcomplains⟩ | ⟨-, hmissing⟩ | ⟨-, hother, hnone, -⟩)
        · simp [herror] at hcomplains
        · simp [hmessage] at hmissing
        · rw [hmessage, Option.some.injEq] at hother
          exact hsome (hother ▸ hnone)

end Source

/-! ## Requests -/

/-- The request that goes on with a conversation. -/
def question (s : ServerSettings) (history : List Message) (tools : List ToolSpec) :
    Http.Request :=
  { method := "POST", url := s.baseUrl ++ "/api/chat", timeoutSecs := s.timeoutSecs,
    body := some (ChatRequest.body s history tools) }

variable {σ : Type} {link : Link σ} {s : ServerSettings} {history : List Message}
  {tools : List ToolSpec} {world world' : σ}

theorem complete_eq (link : Link σ) (s : ServerSettings) (history : List Message)
    (tools : List ToolSpec) (world : σ) : complete link s history tools world =
      match fetch link (question s history tools) world with
      | (.error e, world) => (.error e, world)
      | (.ok body, world) =>
        match Json.decode ChatResponse.reader body with
        | .error _ =>
          (.error (.malformed ("cannot parse ollama response: " ++ complaint)), world)
        | .ok response => interpret link.freshId response world := rfl

/-- A request that does not get through, or whose answer does not. -/
theorem complete_of_fault {fault : Http.Fault}
    (h : link.send (question s history tools) world = (.error fault, world') ∨
      ∃ status, link.send (question s history tools) world = (.ok ⟨status, .error fault⟩, world')) :
    complete link s history tools world = (.error (failureOfFault fault), world') := by
  have hfetch : fetch link (question s history tools) world =
      (.error (failureOfFault fault), world') := by
    unfold fetch
    rcases h with h | ⟨status, h⟩ <;> rw [h]
  rw [complete_eq, hfetch]

/-- An answer that gets through is looked at by its status first. -/
theorem complete_of_answer {status : Nat} {body : String}
    (h : link.send (question s history tools) world = (.ok ⟨status, .ok body⟩, world')) :
    complete link s history tools world =
      if Http.isSuccess status then
        match Json.decode ChatResponse.reader body with
        | .error _ =>
          (.error (.malformed ("cannot parse ollama response: " ++ complaint)), world')
        | .ok response => interpret link.freshId response world'
      else (.error (failureOfStatus status body), world') := by
  have hfetch : fetch link (question s history tools) world =
      if Http.isSuccess status then (.ok body, world')
      else (.error (failureOfStatus status body), world') := by
    unfold fetch
    rw [h]
  rw [complete_eq, hfetch]
  cases Http.isSuccess status <;> rfl

theorem isSuccess_iff {status : Nat} :
    Http.isSuccess status = true ↔ 200 ≤ status ∧ status ≤ 299 := by
  simp [Http.isSuccess]

/-- What a request comes to: a failure that may pass, or that may not. -/
def Fails (result : ProviderResult) (retryable : Bool) : Prop :=
  ∃ e, result = .error e ∧ e.retryable = retryable

theorem Fails.same {result : ProviderResult} {b b' : Bool} (h : Fails result b)
    (h' : Fails result b') : b = b' := by
  obtain ⟨e, rfl, rfl⟩ := h
  obtain ⟨_, ⟨⟩, rfl⟩ := h'
  rfl

theorem Fails.ne_ok {result : ProviderResult} {b : Bool} (h : Fails result b)
    {reply : ProviderReply} : result ≠ .ok reply := by
  obtain ⟨e, rfl, -⟩ := h
  exact fun hok => nomatch hok

/-- All that an answer can come to. -/
theorem complete_cases {status : Nat} {body : String}
    (h : link.send (question s history tools) world = (.ok ⟨status, .ok body⟩, world')) :
    let result := (complete link s history tools world).1
    (Passing status ∧ Fails result true) ∨ (Unusable status body ∧ Fails result false) ∨
      ¬ Passing status ∧ ¬ Unusable status body ∧ ∃ r reply,
        Json.decode ChatResponse.reader body = .ok r ∧ result = .ok reply ∧
          Means link.freshId r world' reply := by
  rw [complete_of_answer h]
  split
  · rename_i hstatus
    rw [isSuccess_iff] at hstatus
    have hsound : ¬ Passing status := by
      unfold Passing
      omega
    cases hdecode : Json.decode ChatResponse.reader body with
    | error e => exact Or.inr (Or.inl ⟨.unreadable hstatus hdecode, _, rfl, rfl⟩)
    | ok r =>
      rcases interpret_cases link.freshId r world' with ⟨huseless, hfails⟩ | ⟨huseful, hmeans⟩
      · exact Or.inr (Or.inl ⟨.useless hstatus hdecode huseless, hfails⟩)
      · obtain ⟨reply, hreply, hmeans⟩ := hmeans
        refine Or.inr (Or.inr ⟨hsound, ?_, r, reply, rfl, hreply, hmeans⟩)
        rintro (⟨hrefused, -⟩ | ⟨-, hillegible⟩ | ⟨-, hlegible, huseless⟩)
        · exact hrefused hstatus
        · rw [hdecode] at hillegible
          cases hillegible
        · rw [hdecode] at hlegible
          cases hlegible
          exact huseful huseless
  · rename_i hstatus
    rw [isSuccess_iff] at hstatus
    by_cases hpasses : Passing status
    · exact Or.inl ⟨hpasses, _, rfl, (failureOfStatus_retryable_iff status body).mpr hpasses⟩
    · refine Or.inr (Or.inl ⟨.refused hstatus hpasses, _, rfl, ?_⟩)
      rw [← Bool.not_eq_true]
      exact fun h => hpasses ((failureOfStatus_retryable_iff status body).mp h)

theorem Passing.not_unusable {status : Nat} {body : String} (h : Passing status) :
    ¬ Unusable status body := by
  unfold Passing at h
  rintro (⟨-, hlasting⟩ | ⟨hsuccess, -⟩ | ⟨hsuccess, -, -⟩)
  · exact hlasting h
  · omega
  · omega

theorem success_of_usable {status : Nat} {body : String} (hsound : ¬ Passing status)
    (h : ¬ Unusable status body) : 200 ≤ status ∧ status ≤ 299 := by
  by_contra hrefused
  exact h (.refused hrefused hsound)

/-- What a request to a server comes to. If it does not get through, or its answer
does not, it may be tried again. An answer that gets through, whatever its status and
its body are, is a failure that may be tried again exactly if its status is one of
those that pass, and one that may not exactly if it is unusable. Otherwise it is that
of a success, and its reply is what the response stands for: no answer is blank and no
batch is empty. The calls of a batch have distinct identifiers, if the source of these
never repeats one. -/
theorem answers_interpreted (link : Link σ) (s : ServerSettings) (history : List Message)
    (tools : List ToolSpec) (world : σ) :
    (∀ fault world', (link.send (question s history tools) world = (.error fault, world') ∨
        ∃ status, link.send (question s history tools) world =
          (.ok ⟨status, .error fault⟩, world')) →
      Fails (complete link s history tools world).1 true) ∧
    ∀ status body world',
      link.send (question s history tools) world = (.ok ⟨status, .ok body⟩, world') →
      (Fails (complete link s history tools world).1 true ↔ Passing status) ∧
      (Fails (complete link s history tools world).1 false ↔ Unusable status body) ∧
      ∀ reply, (complete link s history tools world).1 = .ok reply →
        (200 ≤ status ∧ status ≤ 299) ∧
        (∃ r, Json.decode ChatResponse.reader body = .ok r ∧
          Means link.freshId r world' reply) ∧
        (NeverRepeats link.freshId → ∀ calls done usage,
          reply = .toolCallBatch calls done usage → (calls.map (·.callId)).Nodup) := by
  constructor
  · intro fault world' h
    rw [complete_of_fault h]
    exact ⟨_, rfl, failureOfFault_passes fault⟩
  · intro status body world' h
    have hcases := complete_cases h
    generalize (complete link s history tools world).1 = result at hcases
    dsimp only at hcases
    rcases hcases with ⟨hpasses, hfails⟩ | ⟨hunusable, hfails⟩ | ⟨hsound, husable, hreply⟩
    · have hnot : ¬ Fails result false := fun hother => by
        cases hfails.same hother
      refine ⟨iff_of_true hfails hpasses, iff_of_false hnot hpasses.not_unusable, ?_⟩
      intro reply hreply
      exact absurd hreply hfails.ne_ok
    · have hnot : ¬ Fails result true := fun hother => by
        cases hfails.same hother
      have hlasting : ¬ Passing status := fun hpasses => hpasses.not_unusable hunusable
      refine ⟨iff_of_false hnot hlasting, iff_of_true hfails hunusable, ?_⟩
      intro reply hreply
      exact absurd hreply hfails.ne_ok
    · obtain ⟨r, reply, hdecode, rfl, hmeans⟩ := hreply
      have hnot : ∀ retryable, ¬ Fails (.ok reply) retryable := fun _ hfails =>
        absurd rfl hfails.ne_ok
      refine ⟨iff_of_false (hnot true) hsound, iff_of_false (hnot false) husable, ?_⟩
      rintro _ ⟨⟩
      refine ⟨success_of_usable hsound husable, ⟨r, hdecode, hmeans⟩, ?_⟩
      rintro hnever calls done usage rfl
      cases hmeans with
      | batch content message nonempty asks fresh counted =>
        rw [fresh]
        exact hnever.minted_nodup _ _

/-- A server that always answers the same, and a source that counts. -/
def answering (response : Except Http.Fault Http.Response) : Link Nat where
  send := fun _ n => (response, n)
  freshId := fun n => (.numbered n, n + 1)

theorem neverRepeats_answering (response : Except Http.Fault Http.Response) :
    NeverRepeats (answering response).freshId := by
  have hlater : ∀ count start id, id ∈ minted (answering response).freshId count start →
      ∃ n, start ≤ n ∧ id = .numbered n := by
    intro count
    induction count with
    | zero => simp [minted]
    | succ count ih =>
      intro start id hid
      rcases List.mem_cons.mp hid with rfl | hid
      · exact ⟨start, Nat.le_refl start, rfl⟩
      · obtain ⟨n, hn, rfl⟩ := ih (start + 1) id hid
        exact ⟨n, Nat.le_of_succ_le hn, rfl⟩
  intro start count hmem
  obtain ⟨n, hn, hsame⟩ := hlater count (start + 1) _ hmem
  have heq : start = n := CallId.numbered_injective hsame
  omega

/-- A batch of two calls, one with its arguments as JSON in a string. -/
def batchBody : String :=
  "\x7b\"message\": \x7b\"role\": \"assistant\", \"content\": \"Wait.\", \"tool_calls\": [" ++
    "\x7b\"function\": \x7b\"name\": \"look\", \"arguments\": \"[1]\"\x7d\x7d," ++
    "\x7b\"function\": \x7b\"name\": \"rest\", \"arguments\": \"soon\"\x7d\x7d]\x7d," ++
    "\"eval_count\": 3\x7d"

/-- The calls of a batch with their arguments, and the tokens of its completion. -/
def batchOf : ProviderResult → Option (List (String × String) × Bool × Option Nat)
  | .ok (.toolCallBatch calls done usage) =>
    some (calls.map fun c => (c.toolName, c.arguments.print), done, usage.map (·.completion))
  | _ => none

/-- Words do not make a failure pass, or last. A batch has its calls, under
identifiers that differ. -/
theorem interpreted_by_status :
    let ask := fun response => (complete (answering response) {} [] [] 0).1
    Fails (ask (.error ⟨.other, "reset by peer"⟩)) true ∧
    Fails (ask (.ok ⟨503, .ok "model not found"⟩)) true ∧
    Fails (ask (.ok ⟨404, .ok "too many requests, try again"⟩)) false ∧
    ∃ calls usage, ask (.ok ⟨200, .ok batchBody⟩) = .ok (.toolCallBatch calls false usage) ∧
      calls.map (fun c => (c.toolName, c.arguments.print)) =
        [("look", "[1]"), ("rest", "\"soon\"")] ∧
      usage.map (·.completion) = some 3 ∧ (calls.map (·.callId)).Nodup := by
  intro ask
  have hall := fun response => answers_interpreted (answering response) {} [] [] 0
  refine ⟨(hall _).1 _ 0 (Or.inl rfl), ?_, ?_, ?_⟩
  · exact ((hall _).2 503 _ 0 rfl).1.mpr (by decide)
  · exact ((hall _).2 404 _ 0 rfl).2.1.mpr (.refused (by decide) (by decide))
  · have hbatch : batchOf (ask (.ok ⟨200, .ok batchBody⟩)) =
        some ([("look", "[1]"), ("rest", "\"soon\"")], false, some 3) := by
      decide +kernel
    cases hreply : ask (.ok ⟨200, .ok batchBody⟩) with
    | error e =>
      rw [hreply] at hbatch
      cases hbatch
    | ok reply =>
      rw [hreply] at hbatch
      cases reply with
      | finalAnswer text usage => cases hbatch
      | toolCallBatch calls done usage =>
        simp only [batchOf, Option.some.injEq, Prod.mk.injEq] at hbatch
        obtain ⟨hcalls, rfl, hcount⟩ := hbatch
        have hdistinct := (((hall _).2 200 _ 0 rfl).2.2 _ hreply).2.2
        exact ⟨calls, usage, rfl, hcalls, hcount,
          hdistinct (neverRepeats_answering _) calls false usage rfl⟩

end AgentLoop.ChatServer
