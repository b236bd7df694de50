/-
AgentLoop.Proofs.ChatServer.Conversation — what a server is told of a
conversation.

* `Log.Traceable` — logs in which each result goes back to one call
* `Log.stretches` — a log cut up where the server wants a new message
* `Saying`, `Log.Said`, `Log.Says` — what the messages of a server say of a log
* `WireMessage.told_stretches` — one message for each stretch, and all that is in it
* `WireMessage.told_messages` — the log is read back off the messages
* `Log.callRuns`, `WireMessage.callGroups_ofHistory` — the calls that share a
  message

The messages are made from left to right: a call goes to the last one if that
carries calls. Calls that follow each other make one stretch, and any other
message is a stretch of its own.
-/
import AgentLoop.ChatServer.Wire
import AgentLoop.Proofs.Session.Context
import Mathlib.Data.List.Forall2
import Mathlib.Data.List.Nodup
import Mathlib.Data.List.SplitBy

namespace AgentLoop

namespace Log

/-! ## Results and their calls -/

/-- Each identifier is issued once, and each result stands behind the call that it
answers. -/
structure Traceable (log : List Message) : Prop where
  issued_once : (issued log).Nodup
  behind_call : ∀ before m after id, log = before ++ m :: after → m.answers? = some id →
    id ∈ issued before

theorem WellPaired.traceable {log : List Message} (h : WellPaired log) : Traceable log where
  issued_once := h.issued_nodup
  behind_call := by
    rintro before m after id rfl hid
    exact ((admits_of_answers? hid).mp (admits_of_split h).2).1

/-! ## Stretches -/

/-- Two messages that the server is told in one: both are calls. -/
def joined (m m' : Message) : Bool := m.issues?.isSome && m'.issues?.isSome

/-- A log cut up between any two messages but calls. -/
def stretches (log : List Message) : List (List Message) := log.splitBy joined

theorem calls_of_joined {m : Message} {rest : List Message} (hm : m.issues?.isSome)
    (h : (m :: rest).IsChain fun m m' => joined m m' = true) :
    ∀ x ∈ m :: rest, x.issues?.isSome := by
  induction rest generalizing m with
  | nil => simpa using hm
  | cons m' rest ih =>
    obtain ⟨hjoined, hrest⟩ := List.isChain_cons_cons.mp h
    simp only [joined, Bool.and_eq_true] at hjoined
    exact List.forall_mem_cons.mpr ⟨hm, ih hjoined.2 hrest⟩

/-- A stretch is one message that is no call, or some calls. -/
theorem stretch_cases {log stretch : List Message} (h : stretch ∈ stretches log) :
    (∃ m, stretch = [m] ∧ m.issues? = none) ∨
      stretch ≠ [] ∧ ∀ m ∈ stretch, m.issues?.isSome := by
  have hne := List.ne_nil_of_mem_splitBy h
  have hchain := List.isChain_of_mem_splitBy h
  cases stretch with
  | nil => exact absurd rfl hne
  | cons m rest =>
    cases hm : m.issues? with
    | some id => exact Or.inr ⟨hne, calls_of_joined (by simp [hm]) hchain⟩
    | none =>
      refine Or.inl ⟨m, ?_, hm⟩
      cases rest with
      | nil => rfl
      | cons m' rest =>
        have hjoined := (List.isChain_cons_cons.mp hchain).1
        simp [joined, hm] at hjoined

end Log

/-! ## What the server is told -/

/-- What a message of the server says: a text, a call, or the result of a tool. -/
inductive Saying where
  | text (role content : String)
  | call (call : WireCall)
  | result (tool content : String)

/-- All that a message of the server says. -/
def WireMessage.sayings (m : WireMessage) : List Saying :=
  match m.toolName with
  | some tool => [.result tool m.content]
  | none =>
    if m.toolCalls.isEmpty then [.text m.role m.content] else m.toolCalls.map .call

/-- The text of a result is the text of a string, and the JSON of any other
value. -/
inductive WireMessage.Renders : Json → String → Prop
  | string (s : String) : Renders (.string s) s
  | other {v : Json} (no_string : ∀ s, v ≠ .string s) : Renders v v.print

namespace Log

/-- What is said of a message of a log. The tool of a result is the one that was
called under its identifier. -/
inductive Said (log : List Message) : Message → Saying → Prop
  | system (c : NonBlank) : Said log (.systemText c) (.text "system" c.text)
  | user (c : NonBlank) : Said log (.userText c) (.text "user" c.text)
  | assistant (c : NonBlank) : Said log (.assistantText c) (.text "assistant" c.text)
  | call (id : CallId) (tool : NonBlank) (arguments : Json) :
      Said log (.toolCall id tool arguments) (.call ⟨tool.text, arguments⟩)
  | result {id : CallId} {status : ToolStatus} {value : Json} {content : String}
      {tool : NonBlank} {arguments : Json} (called : .toolCall id tool arguments ∈ log)
      (renders : WireMessage.Renders value content) :
      Said log (.toolResult id status value) (.result tool.text content)

/-- A message of the server says what a stretch of a log is, and nothing else. -/
inductive Says (log : List Message) : List Message → WireMessage → Prop
  | text {m : Message} {role content : String} (said : Said log m (.text role content)) :
      Says log [m] { role := role, content := content, toolCalls := [], toolName := none }
  | calls {ms : List Message} {calls : List WireCall} (nonempty : calls ≠ [])
      (said : List.Forall₂ (fun m c => Said log m (.call c)) ms calls) :
      Says log ms { role := "assistant", content := "", toolCalls := calls, toolName := none }
  | result {m : Message} {tool content : String} (said : Said log m (.result tool content)) :
      Says log [m] { role := "tool", content := content, toolCalls := [], toolName := some tool }

end Log

/-- The call that a message is, for the server. -/
def WireCall.ofMessage? : Message → Option WireCall
  | .toolCall _ tool arguments => some ⟨tool.text, arguments⟩
  | _ => none

namespace WireMessage

open Log (Said Says Traceable)

variable {log : List Message}

/-! ## The messages that are made -/

/-- The name of a tool under the identifier of its call. -/
def named? : Message → Option (CallId × String)
  | .toolCall id tool _ => some (id, tool.text)
  | _ => none

/-- The names of the tools called in a log, last first. -/
def names (log : List Message) : List (CallId × String) := (log.filterMap named?).reverse

/-- Adds the messages of a log one after the other. -/
def addAll (acc : List (CallId × String) × List WireMessage) (ms : List Message) :
    List (CallId × String) × List WireMessage :=
  ms.foldl (fun acc m => addMessage acc.1 acc.2 m) acc

theorem addAll_append (acc : List (CallId × String) × List WireMessage)
    (ms ms' : List Message) : addAll acc (ms ++ ms') = addAll (addAll acc ms) ms' :=
  List.foldl_append

theorem addMessage_names (known : List (CallId × String)) (out : List WireMessage)
    (m : Message) : (addMessage known out m).1 = (named? m).toList ++ known := by
  cases m <;> rfl

theorem addAll_names (acc : List (CallId × String) × List WireMessage) (ms : List Message) :
    (addAll acc ms).1 = names ms ++ acc.1 := by
  induction ms generalizing acc with
  | nil => rfl
  | cons m rest ih =>
    have hstep : addAll acc (m :: rest) = addAll (addMessage acc.1 acc.2 m) rest := rfl
    rw [hstep, ih, addMessage_names]
    cases h : named? m <;> simp [names, h]

theorem keys_names (log : List Message) : (names log).map (·.1) = (Log.issued log).reverse := by
  rw [names, List.map_reverse, List.map_filterMap, Log.issued]
  congr 2
  funext m
  cases m <;> rfl

/-- A call whose identifier is issued once is found under it. -/
theorem lookup_names (h : (Log.issued log).Nodup) {id : CallId} {tool : NonBlank}
    {arguments : Json} (hcall : .toolCall id tool arguments ∈ log) :
    (names log).lookup id = some tool.text := by
  have hmem : (id, tool.text) ∈ names log :=
    List.mem_reverse.mpr (List.mem_filterMap.mpr ⟨_, hcall, rfl⟩)
  have hkeys : ((names log).map (·.1)).Nodup := by
    rw [keys_names]
    exact List.nodup_reverse.mpr h
  obtain ⟨before, after, hsplit⟩ := List.append_of_mem hmem
  rw [hsplit, List.map_append, List.map_cons, List.nodup_append] at hkeys
  refine List.lookup_eq_some_iff.mpr ⟨before, after, hsplit, fun p hp => ?_⟩
  rw [bne_iff_ne]
  exact fun heq => hkeys.2.2 p.1 (List.mem_map_of_mem hp) id List.mem_cons_self heq.symm

/-- Calls go to a message that carries calls. -/
theorem addAll_calls {ms : List Message} (hms : ∀ m ∈ ms, m.issues?.isSome)
    (known : List (CallId × String)) {last : WireMessage} (hlast : last.carriesCalls = true)
    (out : List WireMessage) : (addAll (known, last :: out) ms).2 =
      { last with toolCalls := last.toolCalls ++ ms.filterMap WireCall.ofMessage? } :: out := by
  induction ms generalizing known last with
  | nil => simp [addAll]
  | cons m rest ih =>
    obtain ⟨hm, hrest⟩ := List.forall_mem_cons.mp hms
    cases m with
    | toolCall id tool arguments =>
      have hstep : addAll (known, last :: out) (.toolCall id tool arguments :: rest) =
          addAll ((id, tool.text) :: known, addCall ⟨tool.text, arguments⟩ (last :: out)) rest :=
        rfl
      have hcarries : carriesCalls
          { last with toolCalls := last.toolCalls ++ [⟨tool.text, arguments⟩] } = true := by
        simp only [carriesCalls, Bool.and_eq_true] at hlast
        simp [carriesCalls, hlast.1]
      rw [hstep, addCall, if_pos hlast, ih hrest _ hcarries]
      simp [WireCall.ofMessage?]
    | _ => cases hm

/-- Calls begin a message behind one that carries none. -/
theorem addAll_run {m : Message} {rest : List Message}
    (hms : ∀ x ∈ m :: rest, x.issues?.isSome) (known : List (CallId × String))
    {out : List WireMessage} (hout : ∀ last ∈ out.head?, last.carriesCalls = false) :
    (addAll (known, out) (m :: rest)).2 =
      { role := "assistant", toolCalls := (m :: rest).filterMap WireCall.ofMessage? } :: out := by
  obtain ⟨hm, hrest⟩ := List.forall_mem_cons.mp hms
  cases m with
  | toolCall id tool arguments =>
    have hfirst : addCall ⟨tool.text, arguments⟩ out =
        { role := "assistant", toolCalls := [⟨tool.text, arguments⟩] } :: out := by
      cases out with
      | nil => rfl
      | cons last out => rw [addCall, hout last rfl]; rfl
    have hstep : addAll (known, out) (.toolCall id tool arguments :: rest) =
        addAll ((id, tool.text) :: known, addCall ⟨tool.text, arguments⟩ out) rest := rfl
    rw [hstep, hfirst, addAll_calls hrest _ rfl]
    rfl
  | _ => cases hm

theorem exists_call_of_issued {id : CallId} (h : id ∈ Log.issued log) :
    ∃ tool arguments, Message.toolCall id tool arguments ∈ log := by
  obtain ⟨m, hm, hid⟩ := Log.mem_issued.mp h
  cases m with
  | toolCall other tool arguments =>
    cases hid
    exact ⟨tool, arguments, hm⟩
  | _ => cases hid

theorem renders_resultText (v : Json) : Renders v (resultText v) := by
  cases v with
  | string s => exact .string s
  | _ => exact .other (by simp)

theorem said_calls (log : List Message) {ms : List Message} (hms : ∀ m ∈ ms, m.issues?.isSome) :
    List.Forall₂ (fun m c => Said log m (.call c)) ms (ms.filterMap WireCall.ofMessage?) := by
  induction ms with
  | nil => exact .nil
  | cons m rest ih =>
    obtain ⟨hm, hrest⟩ := List.forall_mem_cons.mp hms
    cases m with
    | toolCall id tool arguments => exact .cons (.call id tool arguments) (ih hrest)
    | _ => cases hm

theorem stretch_of_calls (log : List Message) {ms : List Message} (hne : ms ≠ [])
    (hms : ∀ m ∈ ms, m.issues?.isSome) : Says log ms
      { role := "assistant", toolCalls := ms.filterMap WireCall.ofMessage? } := by
  have hsaid := said_calls log hms
  refine .calls ?_ hsaid
  intro hnil
  rw [hnil, List.forall₂_nil_right_iff] at hsaid
  exact hne hsaid

/-- One message is made of a stretch, and it says what the stretch is. It carries
calls only if the stretch does. -/
theorem addAll_stretch (h : Traceable log) {before stretch after : List Message}
    (hlog : log = before ++ stretch ++ after)
    (hstretch : (∃ m, stretch = [m] ∧ m.issues? = none) ∨
      stretch ≠ [] ∧ ∀ m ∈ stretch, m.issues?.isSome)
    {out : List WireMessage}
    (hout : ∀ last ∈ out.head?, last.carriesCalls = true →
      ∀ m ∈ stretch.head?, m.issues? = none) :
    ∃ w, (addAll (names before, out) stretch).2 = w :: out ∧ Says log stretch w ∧
      (w.carriesCalls = true → ∀ m ∈ stretch, m.issues?.isSome) := by
  rcases hstretch with ⟨m, rfl, hm⟩ | ⟨hne, hcalls⟩
  · cases m with
    | systemText c => exact ⟨_, rfl, .text (.system c), by simp [carriesCalls]⟩
    | userText c => exact ⟨_, rfl, .text (.user c), by simp [carriesCalls]⟩
    | assistantText c => exact ⟨_, rfl, .text (.assistant c), by simp [carriesCalls]⟩
    | toolCall id tool arguments => cases hm
    | toolResult id status value =>
      have hid : id ∈ Log.issued before :=
        h.behind_call before (.toolResult id status value) after id (by simp [hlog]) rfl
      obtain ⟨tool, arguments, hcall⟩ := exists_call_of_issued hid
      have hnodup : (Log.issued before).Nodup := by
        have honce := h.issued_once
        rw [hlog, List.append_assoc, Log.issued_append] at honce
        exact (List.nodup_append.mp honce).1
      have hname := lookup_names hnodup hcall
      have hcall : .toolCall id tool arguments ∈ log := by
        rw [hlog]
        simp [hcall]
      refine ⟨{ role := "tool", content := resultText value, toolName := some tool.text }, ?_,
        .result (.result hcall (renders_resultText value)), by simp [carriesCalls]⟩
      rw [← hname]
      rfl
  · obtain ⟨m, rest, rfl⟩ := List.exists_cons_of_ne_nil hne
    have hfree : ∀ last ∈ out.head?, last.carriesCalls = false := by
      intro last hlast
      rw [← Bool.not_eq_true]
      intro hcarries
      have hfirst := hcalls m List.mem_cons_self
      rw [hout last hlast hcarries m rfl] at hfirst
      cases hfirst
    exact ⟨_, addAll_run hcalls (names before) hfree, stretch_of_calls log hne hcalls,
      fun _ => hcalls⟩

/-- Behind calls no stretch begins with a call. -/
theorem no_call_behind {stretch : List Message} {rest : List (List Message)}
    (hapart : (stretch :: rest).IsChain fun a b =>
      ∃ ha hb, Log.joined (a.getLast ha) (b.head hb) = false)
    (hcalls : ∀ m ∈ stretch, m.issues?.isSome) :
    ∀ next ∈ rest.head?, ∀ m ∈ next.head?, m.issues? = none := by
  intro next hnext m hm
  cases rest with
  | nil => cases hnext
  | cons other rest =>
    obtain rfl : other = next := Option.some.inj hnext
    obtain ⟨hne, hne', hjoined⟩ := (List.isChain_cons_cons.mp hapart).1
    have hlast := hcalls _ (List.getLast_mem hne)
    obtain rfl : other.head hne' = m :=
      Option.some.inj ((List.head?_eq_some_head hne').symm.trans hm)
    simpa [Log.joined, hlast] using hjoined

/-- Each stretch makes one message. -/
theorem addAll_stretches (h : Traceable log) {stretches : List (List Message)}
    (hstretches : ∀ stretch ∈ stretches, (∃ m, stretch = [m] ∧ m.issues? = none) ∨
      stretch ≠ [] ∧ ∀ m ∈ stretch, m.issues?.isSome)
    (hapart : stretches.IsChain fun a b => ∃ ha hb, Log.joined (a.getLast ha) (b.head hb) = false)
    (before : List Message) (hlog : log = before ++ stretches.flatten) (out : List WireMessage)
    (hout : ∀ last ∈ out.head?, last.carriesCalls = true →
      ∀ next ∈ stretches.head?, ∀ m ∈ next.head?, m.issues? = none) :
    ∃ ws, (addAll (names before, out) stretches.flatten).2 = ws.reverse ++ out ∧
      List.Forall₂ (Says log) stretches ws := by
  induction stretches generalizing before out with
  | nil => exact ⟨[], rfl, .nil⟩
  | cons stretch rest ih =>
    obtain ⟨hfirst, hrest⟩ := List.forall_mem_cons.mp hstretches
    rw [List.flatten_cons, ← List.append_assoc] at hlog
    rw [List.flatten_cons, addAll_append]
    obtain ⟨w, hw, htold, hcarries⟩ := addAll_stretch h hlog hfirst
      fun last hlast hcalls => hout last hlast hcalls stretch rfl
    have hacc : addAll (names before, out) stretch = (names (before ++ stretch), w :: out) := by
      refine Prod.ext ?_ hw
      rw [addAll_names]
      simp [names]
    have hfree : ∀ last ∈ (w :: out).head?, last.carriesCalls = true →
        ∀ next ∈ rest.head?, ∀ m ∈ next.head?, m.issues? = none := by
      rintro last ⟨⟩ hcalls
      exact no_call_behind hapart (hcarries hcalls)
    obtain ⟨ws, hws, hall⟩ := ih hrest hapart.tail (before ++ stretch) hlog (w :: out) hfree
    refine ⟨w :: ws, ?_, .cons htold hall⟩
    rw [hacc, hws, List.reverse_cons, List.append_assoc]
    rfl

/-- A server is told a log in one message for each stretch, in the order of the
log. -/
theorem told_stretches (h : Traceable log) :
    List.Forall₂ (Says log) (Log.stretches log) (ofHistory log) := by
  have hflatten : (Log.stretches log).flatten = log := List.flatten_splitBy _ _
  obtain ⟨ws, hws, hall⟩ := addAll_stretches h (fun _ hstretch => Log.stretch_cases hstretch)
    (List.isChain_getLast_head_splitBy _ _) [] hflatten.symm [] (by simp)
  rw [hflatten, List.append_nil] at hws
  have hmade : ofHistory log = ws.reverse.reverse := congrArg List.reverse hws
  rw [hmade, List.reverse_reverse]
  exact hall

/-- What a message says of a stretch is what is said of its parts, one by one. -/
theorem said_of_stretch {stretch : List Message} {w : WireMessage}
    (h : Says log stretch w) : List.Forall₂ (Said log) stretch w.sayings := by
  cases h with
  | text said => exact .cons said .nil
  | result said => exact .cons said .nil
  | @calls _ calls nonempty said =>
    have hsayings : sayings { role := "assistant", toolCalls := calls } = calls.map .call := by
      cases calls with
      | nil => exact absurd rfl nonempty
      | cons c rest => rfl
    rw [hsayings, List.forall₂_map_right_iff]
    exact said

theorem forall₂_flatMap_sayings {stretches : List (List Message)} {ws : List WireMessage}
    (h : List.Forall₂ (Says log) stretches ws) :
    List.Forall₂ (Said log) stretches.flatten (ws.flatMap sayings) := by
  induction h with
  | nil => exact .nil
  | cons hfirst hrest ih =>
    rw [List.flatten_cons, List.flatMap_cons]
    exact List.rel_append (said_of_stretch hfirst) ih

/-- The log is read back off the messages, message by message. -/
theorem told_messages (h : Traceable log) :
    List.Forall₂ (Said log) log ((ofHistory log).flatMap sayings) := by
  have hflatten : (Log.stretches log).flatten = log := List.flatten_splitBy _ _
  have hrows := forall₂_flatMap_sayings (told_stretches h)
  rwa [hflatten] at hrows

end WireMessage

/-! ## Calls that share a message -/

/-- The calls of a log, those together that follow each other. -/
def Log.callRuns (log : List Message) : List (List WireCall) :=
  ((stretches log).map (·.filterMap WireCall.ofMessage?)).filter fun calls => !calls.isEmpty

/-- The calls of some messages of the server, message by message, where there are
any. -/
def WireMessage.callGroups (ws : List WireMessage) : List (List WireCall) :=
  (ws.map (·.toolCalls)).filter fun calls => !calls.isEmpty

namespace Log

variable {log ms : List Message}

theorem ofMessage?_of_said {m : Message} {c : WireCall} (h : Said log m (.call c)) :
    WireCall.ofMessage? m = some c := by
  cases h
  rfl

theorem toolCalls_of_stretch {stretch : List Message} {w : WireMessage} (h : Says log stretch w) :
    w.toolCalls = stretch.filterMap WireCall.ofMessage? := by
  cases h with
  | text said => cases said <;> rfl
  | result said => cases said; rfl
  | calls nonempty said =>
    clear nonempty
    induction said with
    | nil => rfl
    | cons hfirst hrest ih =>
      rw [List.filterMap_cons, ofMessage?_of_said hfirst]
      exact congrArg _ ih

/-- The calls of two logs are apart if the one does not end with a call or the
other does not begin with one. -/
theorem callRuns_append (h : ∀ m ∈ log.getLast?, ∀ m' ∈ ms.head?, joined m m' = false) :
    callRuns (log ++ ms) = callRuns log ++ callRuns ms := by
  simp only [callRuns, stretches, List.splitBy_append h, List.map_append, List.filter_append]

theorem callRuns_append_of_last (h : ∀ m ∈ log.getLast?, m.issues? = none) (ms : List Message) :
    callRuns (log ++ ms) = callRuns log ++ callRuns ms :=
  callRuns_append fun m hm m' _ => by simp [joined, h m hm]

theorem callRuns_append_of_first (h : ∀ m ∈ ms.head?, m.issues? = none) (log : List Message) :
    callRuns (log ++ ms) = callRuns log ++ callRuns ms :=
  callRuns_append fun m _ m' hm' => by simp [joined, h m' hm']

/-- Calls alone are one run. -/
theorem callRuns_of_calls (hne : ms ≠ []) (hms : ∀ m ∈ ms, m.issues?.isSome) :
    callRuns ms = [ms.filterMap WireCall.ofMessage?] := by
  have hchain : ms.IsChain fun m m' => joined m m' = true := by
    refine (List.pairwise_of_forall_mem_list fun m hm m' hm' => ?_).isChain
    simp [joined, hms m hm, hms m' hm']
  have hsome : (ms.filterMap WireCall.ofMessage?).isEmpty = false := by
    rw [List.isEmpty_eq_false_iff]
    intro hnil
    obtain ⟨m, rest, rfl⟩ := List.exists_cons_of_ne_nil hne
    have hm := hms m List.mem_cons_self
    have hnone := List.filterMap_eq_nil_iff.mp hnil m List.mem_cons_self
    cases m <;> simp_all [Message.issues?, WireCall.ofMessage?]
  simp [callRuns, stretches, List.splitBy_of_isChain hne hchain, hsome]

theorem callRuns_of_none (hms : ∀ m ∈ ms, m.issues? = none) : callRuns ms = [] := by
  unfold callRuns
  rw [List.filter_eq_nil_iff, List.forall_mem_map]
  intro stretch hstretch
  have hnil : stretch.filterMap WireCall.ofMessage? = [] := by
    refine List.filterMap_eq_nil_iff.mpr fun m hm => ?_
    have hmem : m ∈ (stretches ms).flatten := List.mem_flatten.mpr ⟨stretch, hstretch, hm⟩
    rw [stretches, List.flatten_splitBy] at hmem
    have hnone := hms m hmem
    cases m <;> simp_all [Message.issues?, WireCall.ofMessage?]
  simp [hnil]

end Log

/-- The messages that carry calls carry those that follow each other in the log. -/
theorem WireMessage.callGroups_ofHistory {log : List Message} (h : Log.Traceable log) :
    callGroups (ofHistory log) = Log.callRuns log := by
  have hrows : List.Forall₂ (fun stretch w => stretch.filterMap WireCall.ofMessage? = w.toolCalls)
      (Log.stretches log) (ofHistory log) :=
    (told_stretches h).imp fun _ _ htold => (Log.toolCalls_of_stretch htold).symm
  have hsame : (Log.stretches log).map (·.filterMap WireCall.ofMessage?) =
      (ofHistory log).map (·.toolCalls) := by
    rw [← List.forall₂_eq_eq_eq, List.forall₂_map_left_iff, List.forall₂_map_right_iff]
    exact hrows
  rw [callGroups, Log.callRuns, hsame]

end AgentLoop
