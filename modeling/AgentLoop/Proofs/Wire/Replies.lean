/-
AgentLoop.Proofs.Wire.Replies — what a backend says, on the wire and back.

* `TokenUsage.InRange`, `ToolCallRequest.WellFormed`, `ProviderReply.WellFormed`
  — counts of 32 bits and arguments that a text can stand for
* `ProviderError.faithful`, `TokenUsage.faithful`, `ToolCallRequest.faithful`,
  `ProviderReply.faithful` — failures, usages, calls and replies are read as they
  were written, and what is read can be written

The calls of a batch stand two brackets further in than the batch. What is read
in them has room there, so the batch is no deeper than the text it came from,
except that the list of its calls may be empty.
-/
import AgentLoop.Proofs.Message.RoundTrip
import AgentLoop.Provider.Reply

namespace AgentLoop

open Json (Faithful Reads Reader Node)
open Number (max32)

attribute [local simp] Json.record Json.namedMembers Json.Member.of Json.Given.required
  Json.Given.withDefault Json.Node.fieldsWithin Bind.bind Except.bind Pure.pure Except.pure
  Except.map List.lookup_cons

theorem CallId.faithful :
    Faithful (fun id : CallId => .string id.text) CallId.reader (fun _ => True) 0 where
  legible id _ := Json.legible_string id.text
  reads id _ _ _ := Message.reader_callId id
  sound _ _ := ⟨trivial, Nat.zero_le _⟩

/-! ## Failures -/

namespace ProviderError

theorem depth_toJson (e : ProviderError) : e.toJson.depth = 1 := rfl

theorem faithful : Faithful toJson reader (fun _ => True) 1 where
  legible e _ := Json.legible_object (by simp)
  reads e _ := Reads.object fun room _ => by
    have hkind := (Faithful.oneOf ProviderErrorKind.lookup_name false).reads e.kind trivial room
      (Nat.zero_le _)
    have hretryable := Faithful.flag.reads e.retryable trivial room (Nat.zero_le _)
    have hmessage := Faithful.text.reads e.message trivial room (Nat.zero_le _)
    simp [reader, hkind, hretryable, hmessage]
  sound _ _ := ⟨trivial, Nat.le_max_right _ _⟩

end ProviderError

/-! ## Usages -/

namespace TokenUsage

/-- All counts are of 32 bits. -/
structure InRange (u : TokenUsage) : Prop where
  prompt : u.prompt ≤ max32
  completion : u.completion ≤ max32
  total : u.total ≤ max32

theorem depth_toJson (u : TokenUsage) : u.toJson.depth = 1 := rfl

theorem faithful : Faithful toJson reader InRange 1 where
  legible u h := by
    have hprompt := Faithful.whole32.legible _ h.prompt
    have hcompletion := Faithful.whole32.legible _ h.completion
    have htotal := Faithful.whole32.legible _ h.total
    exact Json.legible_object (by simp [hprompt, hcompletion, htotal])
  reads u h := Reads.object fun room _ => by
    have hprompt := Faithful.whole32.reads _ h.prompt room (Nat.zero_le _)
    have hcompletion := Faithful.whole32.reads _ h.completion room (Nat.zero_le _)
    have htotal := Faithful.whole32.reads _ h.total room (Nat.zero_le _)
    simp [reader, hprompt, hcompletion, htotal]
  sound := by
    intro room n u hn h
    obtain ⟨g, hg, h⟩ := Json.ok_of_bind h
    obtain ⟨prompt, hprompt, h⟩ := Json.ok_of_bind h
    obtain ⟨completion, hcompletion, h⟩ := Json.ok_of_bind h
    obtain ⟨total, htotal, h⟩ := Json.ok_of_bind h
    cases h
    have hvalues := (Json.sound_of_record hn hg).2
    exact ⟨⟨(Faithful.whole32.required hvalues hprompt).1,
      (Faithful.whole32.required hvalues hcompletion).1,
      (Faithful.whole32.required hvalues htotal).1⟩, Nat.le_max_right _ _⟩

end TokenUsage

/-! ## Calls -/

namespace ToolCallRequest

/-- The arguments are a value that a text can stand for. -/
def WellFormed (r : ToolCallRequest) : Prop := r.arguments.WellFormed

theorem depth_toJson_le {r : ToolCallRequest} {room : Nat} :
    r.toJson.depth ≤ room ↔ 0 < room ∧ r.arguments.depth ≤ room - 1 := by
  rw [toJson, Json.depth_object_le]
  simp [Json.depth]

theorem faithful : Faithful toJson reader WellFormed 0 where
  legible r h := Json.legible_object (by simp [Json.WellFormed.legible h])
  reads r h := Reads.object fun room hroom => by
    have hid := CallId.faithful.reads r.callId trivial room (Nat.zero_le _)
    have hname := Faithful.text.reads r.toolName trivial room (Nat.zero_le _)
    have harguments := Faithful.value.reads r.arguments h room
      (hroom ("arguments", r.arguments) (by simp))
    simp [reader, hid, hname, harguments]
  sound := by
    intro room n r hn h
    obtain ⟨g, hg, h⟩ := Json.ok_of_bind h
    obtain ⟨id, -, h⟩ := Json.ok_of_bind h
    obtain ⟨name, -, h⟩ := Json.ok_of_bind h
    obtain ⟨arguments, harguments, h⟩ := Json.ok_of_bind h
    cases h
    obtain ⟨hroom, hvalues⟩ := Json.sound_of_record hn hg
    have hnull : Json.null.WellFormed ∧ Json.null.depth ≤ 0 := ⟨rfl, Nat.le_refl 0⟩
    obtain ⟨hwell, hdepth⟩ := Faithful.value.withDefault hvalues hnull harguments
    rw [Nat.max_zero] at hdepth ⊢
    exact ⟨hwell, depth_toJson_le.mpr ⟨hroom, hdepth⟩⟩

end ToolCallRequest

/-! ## Replies -/

namespace ProviderReply

/-- The arguments of all calls are values that a text can stand for, and all
counts are of 32 bits. -/
structure WellFormed (r : ProviderReply) : Prop where
  calls : ∀ calls done usage, r = .toolCallBatch calls done usage → ∀ c ∈ calls, c.WellFormed
  usage : ∀ u ∈ r.usage?, u.InRange

/-- A usage that may be missing. -/
theorem usage_faithful :
    Faithful (fun u => Json.ofOption (u.map TokenUsage.toJson)) TokenUsage.reader.nullable
      (fun u => ∀ v ∈ u, v.InRange) 1 :=
  TokenUsage.faithful.nullable fun _ _ => nofun

theorem calls_faithful :
    Faithful (fun cs => .array (cs.map ToolCallRequest.toJson)) ToolCallRequest.reader.list
      (fun cs => ∀ c ∈ cs, c.WellFormed) 1 :=
  ToolCallRequest.faithful.list

theorem reads_finalAnswer (text : String) {usage : Option TokenUsage}
    (h : ∀ u ∈ usage, u.InRange) :
    Reads reader (toJson (.finalAnswer text usage)) (.finalAnswer text usage) := by
  have htext := fun room => Faithful.text.reads text trivial room (Nat.zero_le _)
  cases usage with
  | none =>
    refine Reads.tagged [("text", .string text)] (by simp) fun room n _ htagged => ?_
    simp [reader, htagged, htext room]
  | some u =>
    refine Reads.tagged [("text", .string text), ("usage", u.toJson)] (by simp)
      fun room n hroom htagged => ?_
    have husage := usage_faithful.reads (some u) h room (hroom ("usage", u.toJson) (by simp))
    simp only [Option.map_some, Json.ofOption] at husage
    simp [reader, htagged, htext room, husage]

theorem reads_toolCallBatch {calls : List ToolCallRequest} (done : Bool)
    {usage : Option TokenUsage} (hcalls : ∀ c ∈ calls, c.WellFormed)
    (h : ∀ u ∈ usage, u.InRange) :
    Reads reader (toJson (.toolCallBatch calls done usage)) (.toolCallBatch calls done usage) := by
  let row : Json := .array (calls.map ToolCallRequest.toJson)
  have hdone := fun room => Faithful.flag.reads done trivial room (Nat.zero_le _)
  cases usage with
  | none =>
    refine Reads.tagged [("calls", row), ("done", .bool done)] (by simp)
      fun room n hroom htagged => ?_
    have hrow := calls_faithful.reads calls hcalls room (hroom ("calls", row) (by simp))
    simp [reader, htagged, row, hrow, hdone room]
  | some u =>
    refine Reads.tagged [("calls", row), ("done", .bool done), ("usage", u.toJson)] (by simp)
      fun room n hroom htagged => ?_
    have hrow := calls_faithful.reads calls hcalls room (hroom ("calls", row) (by simp))
    have husage := usage_faithful.reads (some u) h room (hroom ("usage", u.toJson) (by simp))
    simp only [Option.map_some, Json.ofOption] at husage
    simp [reader, htagged, row, hrow, hdone room, husage]

theorem legible_usageField {usage : Option TokenUsage} (h : ∀ u ∈ usage, u.InRange) :
    ∀ f ∈ usageField usage, f.2.Legible := by
  cases usage with
  | none => exact nofun
  | some u => simpa [usageField] using TokenUsage.faithful.legible u (h u rfl)

theorem depth_usageField (usage : Option TokenUsage) {room : Nat} (hroom : 1 ≤ room) :
    ∀ f ∈ usageField usage, f.2.depth ≤ room := by
  cases usage with
  | none => exact nofun
  | some u => simpa [usageField, TokenUsage.depth_toJson] using hroom

theorem depth_finalAnswer (text : String) (usage : Option TokenUsage) {room : Nat}
    (hroom : 2 ≤ room) : (toJson (.finalAnswer text usage)).depth ≤ room := by
  have husage := depth_usageField usage (Nat.le_sub_one_of_lt hroom)
  rw [toJson, Json.depth_object_le]
  exact ⟨by omega, List.forall_mem_append.mpr ⟨by simp [Json.depth], husage⟩⟩

theorem depth_toolCallBatch {calls : List ToolCallRequest} (done : Bool)
    (usage : Option TokenUsage) {room : Nat} (hroom : 2 ≤ room)
    (hcalls : (Json.array (calls.map ToolCallRequest.toJson)).depth ≤ room - 1) :
    (toJson (.toolCallBatch calls done usage)).depth ≤ room := by
  have husage := depth_usageField usage (Nat.le_sub_one_of_lt hroom)
  rw [toJson, Json.depth_object_le]
  refine ⟨by omega, List.forall_mem_append.mpr ⟨?_, husage⟩⟩
  simpa [Json.depth] using hcalls

theorem faithful : Faithful toJson reader WellFormed 2 where
  legible r h := by
    cases r with
    | finalAnswer text usage =>
      have husage := legible_usageField h.usage
      refine Json.legible_object (List.forall_mem_append.mpr ⟨by simp, husage⟩)
    | toolCallBatch calls done usage =>
      have hcalls := calls_faithful.legible calls (h.calls calls done usage rfl)
      have husage := legible_usageField h.usage
      refine Json.legible_object (List.forall_mem_append.mpr ⟨by simpa using hcalls, husage⟩)
  reads r h := by
    cases r with
    | finalAnswer text usage => exact reads_finalAnswer text h.usage
    | toolCallBatch calls done usage =>
      exact reads_toolCallBatch done (h.calls calls done usage rfl) h.usage
  sound := by
    intro room n r hn h
    obtain ⟨⟨kind, content⟩, htagged, h⟩ := Json.ok_of_bind h
    have hcontent := Json.sound_of_tagged hn htagged
    have hnone : (∀ u ∈ (none : Option TokenUsage), u.InRange) ∧ Json.null.depth ≤ 1 := by
      simp [Json.depth]
    dsimp only at h
    split at h
    · obtain ⟨g, hg, h⟩ := Json.ok_of_bind h
      obtain ⟨text, -, h⟩ := Json.ok_of_bind h
      obtain ⟨usage, husage, h⟩ := Json.ok_of_bind h
      cases h
      obtain ⟨hroom, hvalues⟩ := Json.sound_of_record hcontent hg
      have hfit := (usage_faithful.withDefault hvalues hnone husage).1
      refine ⟨⟨?_, hfit⟩, depth_finalAnswer text usage (Nat.le_max_right _ _)⟩
      rintro _ _ _ ⟨⟩
    · obtain ⟨g, hg, h⟩ := Json.ok_of_bind h
      obtain ⟨calls, hcalls, h⟩ := Json.ok_of_bind h
      obtain ⟨done, -, h⟩ := Json.ok_of_bind h
      obtain ⟨usage, husage, h⟩ := Json.ok_of_bind h
      cases h
      obtain ⟨hroom, hvalues⟩ := Json.sound_of_record hcontent hg
      have hfit := (usage_faithful.withDefault hvalues hnone husage).1
      obtain ⟨hwell, hdepth⟩ := calls_faithful.required hvalues hcalls
      refine ⟨⟨?_, hfit⟩, depth_toolCallBatch done usage (Nat.le_max_right _ _) (by omega)⟩
      rintro _ _ _ ⟨⟩
      exact hwell
    · cases h

end ProviderReply

end AgentLoop
