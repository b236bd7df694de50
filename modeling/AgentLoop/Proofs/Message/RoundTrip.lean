/-
AgentLoop.Proofs.Message.RoundTrip — messages on the wire and back.

* `Message.WellFormed` — the free value of a message is one that a text can
  stand for
* `Message.kind`, `Message.fields` — the record of a message, the kind apart
* `reader_tree` — the tree of the record is read as the message
* `payload_of_reader` — the free value of a message that was read stands in the
  tree that it was read off
* `wire_round_trip` — a message comes back as it was sent exactly if its text is
  not too deep; a message that was read, however its text was written, always
  does

The limit on the depth is that of the reader. The writer has none, so there are
messages that are written and cannot be read.
-/
import AgentLoop.Message.Wire
import AgentLoop.Proofs.Json.Records

namespace AgentLoop

namespace Message

/-- The free value of a message: the arguments of a call or the content of a
result. -/
def payload? : Message → Option Json
  | .toolCall _ _ arguments => some arguments
  | .toolResult _ _ content => some content
  | _ => none

/-- The texts of a message that must not be blank. -/
def texts : Message → List String
  | .userText c | .assistantText c | .systemText c => [c.text]
  | .toolCall id tool _ => [id.text, tool.text]
  | .toolResult id _ _ => [id.text]

/-- The free value of a message is one that a text can stand for. -/
def WellFormed (m : Message) : Prop := ∀ v, m.payload? = some v → v.WellFormed

theorem texts_notBlank (m : Message) :
    ∀ s ∈ m.texts, ∃ c ∈ s.toList, Text.isBlankChar c = false := by
  have hsome : ∀ s : String, Text.isBlank s = false →
      ∃ c ∈ s.toList, Text.isBlankChar c = false := by
    intro s hs
    simpa [Text.isBlank] using hs
  cases m with
  | userText c => simpa [texts] using hsome _ c.notBlank
  | assistantText c => simpa [texts] using hsome _ c.notBlank
  | toolCall id tool arguments => simpa [texts] using ⟨hsome _ id.notBlank, hsome _ tool.notBlank⟩
  | toolResult id status content => simpa [texts] using hsome _ id.notBlank
  | systemText c => simpa [texts] using hsome _ c.notBlank

/-! ## The record of a message -/

/-- The kind that the record of a message begins with. -/
def kind : Message → String
  | .userText _ => "user_text"
  | .assistantText _ => "assistant_text"
  | .toolCall .. => "assistant_tool_call"
  | .toolResult .. => "tool_result"
  | .systemText _ => "system_text"

/-- The other fields of the record. -/
def fields : Message → List (String × Json)
  | .userText c | .assistantText c | .systemText c => [("content", .string c.text)]
  | .toolCall id tool arguments =>
    [("call_id", .string id.text), ("tool_name", .string tool.text), ("arguments", arguments)]
  | .toolResult id status content =>
    [("call_id", .string id.text), ("status", .string status.name), ("content", content)]

theorem toJson_eq (m : Message) :
    m.toJson = .object (("type", .string m.kind) :: m.fields) := by
  cases m <;> rfl

theorem fields_untagged (m : Message) : ∀ f ∈ m.fields, f.1 ≠ "type" := by
  cases m <;> simp [fields]

theorem wellFormed_fields {m : Message} (h : m.WellFormed) : ∀ f ∈ m.fields, f.2.WellFormed := by
  cases m with
  | userText c => simp [fields, Json.WellFormed, Json.wellFormed]
  | assistantText c => simp [fields, Json.WellFormed, Json.wellFormed]
  | toolCall id tool arguments =>
    have harguments := h arguments rfl
    simp_all [fields, Json.WellFormed, Json.wellFormed]
  | toolResult id status content =>
    have hcontent := h content rfl
    simp_all [fields, Json.WellFormed, Json.wellFormed]
  | systemText c => simp [fields, Json.WellFormed, Json.wellFormed]

theorem depthFields_fields_le {m : Message} {n : Nat} :
    Json.depthFields m.fields ≤ n ↔ ∀ v, m.payload? = some v → v.depth ≤ n := by
  rw [Json.depthFields_le]
  cases m <;> simp [fields, payload?, Json.depth]

theorem depth_toJson (m : Message) : m.toJson.depth = Json.depthFields m.fields + 1 := by
  have hkind : (Json.string m.kind).depth = 0 := rfl
  rw [toJson_eq, Json.depth, Json.depthFields, hkind]
  exact congrArg (· + 1) (Nat.zero_max _)

theorem spells_toJson {m : Message} (h : m.WellFormed) :
    Json.Spells m.toJson.chars m.toJson.tokensOf := by
  rw [toJson_eq]
  refine Json.spells_object fun f hf => Json.spells_chars ?_
  rcases List.mem_cons.mp hf with rfl | hf
  · rfl
  · exact wellFormed_fields h f hf

/-- The text of a message is as deep as its record. -/
theorem nesting_encode {m : Message} (h : m.WellFormed) :
    Json.nesting m.encode = m.toJson.depth := Json.nesting_print (spells_toJson h)

theorem document_encode {m : Message} (h : m.WellFormed) :
    Json.Document.ofText m.encode = ⟨some (Json.Node.within m.toJson Json.deepest), false⟩ := by
  rw [Json.Document.ofText, encode, Json.print, String.toList_ofList]
  exact Json.Document.ofChars_chars (spells_toJson h)

/-! ## Reading -/

/-- A text with something in it is read as itself. -/
theorem reader_notBlank (t : NonBlank) : NonBlank.reader (.text t.text) = .ok t := by
  simp [NonBlank.reader, Json.Reader.check, Json.Reader.text, Except.bind, NonBlank.ofText,
    t.notBlank]

theorem reader_callId (id : CallId) : CallId.reader (.text id.text) = .ok id := by
  simp [CallId.reader, Json.Reader.check, Json.Reader.text, Except.bind, CallId.ofText,
    id.notBlank]

theorem reader_status (s : ToolStatus) :
    Json.Reader.oneOf ToolStatus.names true (.text s.name) = .ok s := by
  cases s <;> rfl

theorem textReader_tree (make : NonBlank → Message) (c : NonBlank) :
    textReader make (.object [(some "content", .text c.text)] true) = .ok (make c) := by
  have hcontent := reader_notBlank c
  simp [textReader, Json.record, Json.namedMembers, Json.Member.of, hcontent, Json.Given.required,
    Except.map, bind, Except.bind, pure, Except.pure]

theorem callReader_tree (id : CallId) (tool : NonBlank) {n : Json.Node} {arguments : Json}
    (h : n.toJson? = some arguments) :
    callReader (.object [(some "call_id", .text id.text), (some "tool_name", .text tool.text),
      (some "arguments", n)] true) = .ok (.toolCall id tool arguments) := by
  have hid := reader_callId id
  have htool := reader_notBlank tool
  simp [callReader, Json.record, Json.namedMembers, Json.Member.of, hid, htool, Json.Reader.value,
    h, Json.Given.required, Except.map, bind, Except.bind, pure, Except.pure, List.lookup_cons]

theorem resultReader_tree (id : CallId) (status : ToolStatus) {n : Json.Node} {content : Json}
    (h : n.toJson? = some content) :
    resultReader (.object [(some "call_id", .text id.text), (some "status", .text status.name),
      (some "content", n)] true) = .ok (.toolResult id status content) := by
  have hid := reader_callId id
  have hstatus := reader_status status
  simp [resultReader, Json.record, Json.namedMembers, Json.Member.of, hid, hstatus,
    Json.Reader.value, h, Json.Given.required, Except.map, bind, Except.bind, pure, Except.pure,
    List.lookup_cons]

/-- The tree of a message is read as the message if there is room for it. -/
theorem reader_tree {m : Message} (h : m.WellFormed) (hdepth : m.toJson.depth ≤ Json.deepest) :
    reader (Json.Node.within m.toJson Json.deepest) = .ok m := by
  have hparts : Json.depthFields m.fields ≤ Json.deepest - 1 := by
    rw [depth_toJson] at hdepth
    omega
  have hpayload : ∀ v, m.payload? = some v →
      (Json.Node.within v (Json.deepest - 1)).toJson? = some v := by
    intro v hv
    rw [Json.Node.toJson?_within (h v hv), if_pos (depthFields_fields_le.mp hparts v hv)]
  have htagged := Json.tagged_within m.kind m.fields_untagged (Json.depthFields_le.mp hparts)
  rw [reader, toJson_eq, show Json.deepest = Json.deepest - 1 + 1 from rfl, htagged]
  cases m with
  | userText c => exact textReader_tree .userText c
  | assistantText c => exact textReader_tree .assistantText c
  | toolCall id tool arguments => exact callReader_tree id tool (hpayload arguments rfl)
  | toolResult id status content => exact resultReader_tree id status (hpayload content rfl)
  | systemText c => exact textReader_tree .systemText c

/-- The tree of a message that is too deep has no value, and the kind of a
message is looked for in a value only. -/
theorem reader_too_deep {m : Message} (h : m.WellFormed) (hdepth : Json.deepest < m.toJson.depth) :
    reader (Json.Node.within m.toJson Json.deepest) = .error .malformed := by
  have hroom : 0 < Json.deepest := by decide
  have hparts : ¬ Json.depthFields m.fields ≤ Json.deepest - 1 := by
    rw [depth_toJson] at hdepth
    omega
  have hnone := Json.Node.fieldsToJson?_within (wellFormed_fields h) (Json.deepest - 1)
  rw [if_neg hparts] at hnone
  simp [reader, toJson_eq, Json.Node.within, Json.Node.fieldsWithin, hroom, Json.tagged,
    Json.Node.toJson?, Json.Node.fieldsToJson?, hnone, bind, Except.bind]

/-- A message is read back from its text exactly if this is not too deep. -/
theorem decode_encode {m : Message} (h : m.WellFormed) :
    decode m.encode =
      if Json.nesting m.encode ≤ Json.deepest then .ok m else .error .malformed := by
  rw [nesting_encode h, decode, Json.decode, document_encode h]
  by_cases hdepth : m.toJson.depth ≤ Json.deepest
  · simp [reader_tree h hdepth, hdepth]
  · simp [reader_too_deep h (Nat.lt_of_not_le hdepth), hdepth]

/-! ## Reading any text -/

theorem payload_of_textReader {make : NonBlank → Message} (hmake : ∀ c, (make c).payload? = none)
    {n : Json.Node} {m : Message} (h : textReader make n = .ok m) : m.payload? = none := by
  obtain ⟨g, -, h⟩ := Json.ok_of_bind h
  obtain ⟨c, -, h⟩ := Json.ok_of_bind h
  cases h
  exact hmake c

theorem payload_of_callReader {n : Json.Node} {m : Message} (h : callReader n = .ok m) :
    ∀ v, m.payload? = some v → ∃ c ∈ n.contents, c.toJson? = some v := by
  obtain ⟨g, hg, h⟩ := Json.ok_of_bind h
  obtain ⟨id, -, h⟩ := Json.ok_of_bind h
  obtain ⟨tool, -, h⟩ := Json.ok_of_bind h
  obtain ⟨arguments, harguments, h⟩ := Json.ok_of_bind h
  cases h
  intro v hv
  cases hv
  exact Json.value_of_required hg harguments

theorem payload_of_resultReader {n : Json.Node} {m : Message} (h : resultReader n = .ok m) :
    ∀ v, m.payload? = some v → ∃ c ∈ n.contents, c.toJson? = some v := by
  obtain ⟨g, hg, h⟩ := Json.ok_of_bind h
  obtain ⟨id, -, h⟩ := Json.ok_of_bind h
  obtain ⟨status, -, h⟩ := Json.ok_of_bind h
  obtain ⟨content, hcontent, h⟩ := Json.ok_of_bind h
  cases h
  intro v hv
  cases hv
  exact Json.value_of_required hg hcontent

/-- The free value of a message that was read stands in the tree. -/
theorem payload_of_reader {n : Json.Node} {m : Message} (h : reader n = .ok m) :
    ∀ v, m.payload? = some v → ∃ c ∈ n.contents, c.toJson? = some v := by
  obtain ⟨⟨kind, content⟩, htagged, hread⟩ := Json.ok_of_bind h
  have hinside := Json.contents_of_tagged htagged
  intro v hv
  have hin : (∃ c ∈ content.contents, c.toJson? = some v) →
      ∃ c ∈ n.contents, c.toJson? = some v := by
    rintro ⟨c, hc, hvalue⟩
    exact ⟨c, hinside c hc, hvalue⟩
  dsimp only at hread
  split at hread
  · rw [payload_of_textReader (fun _ => rfl) hread] at hv
    cases hv
  · rw [payload_of_textReader (fun _ => rfl) hread] at hv
    cases hv
  · exact hin (payload_of_callReader hread v hv)
  · exact hin (payload_of_resultReader hread v hv)
  · rw [payload_of_textReader (fun _ => rfl) hread] at hv
    cases hv
  · cases hread

/-- A message that was read is well-formed and not too deep, however its text
was written. -/
theorem decode_sound {w : String} {m : Message} (h : decode w = .ok m) :
    m.WellFormed ∧ m.toJson.depth ≤ Json.deepest := by
  obtain ⟨n, hroot, hread⟩ := Json.root_of_decode h
  have hpayload : ∀ v, m.payload? = some v → v.WellFormed ∧ v.depth ≤ Json.deepest - 1 := by
    intro v hv
    obtain ⟨c, hc, hvalue⟩ := payload_of_reader hread v hv
    exact Json.Document.contents_stand hroot c hc v hvalue
  have hparts := depthFields_fields_le.mpr fun v hv => (hpayload v hv).2
  have hroom : 1 ≤ Json.deepest := by decide
  refine ⟨fun v hv => (hpayload v hv).1, ?_⟩
  rw [depth_toJson]
  omega

/-- Messages on the wire. A message whose free value a text can stand for is
read back from its text, and written with the same text again, exactly if no
more than 127 brackets are open in it at once; a deeper one is refused. A
message that was read off any text has no blank text in it, is read back from
its own text, and writing what was read changes nothing. -/
theorem wire_round_trip :
    (∀ m : Message, m.WellFormed →
      (decode m.encode = .ok m ↔ Json.nesting m.encode ≤ 127) ∧
      ((decode m.encode).map encode = .ok m.encode ↔ Json.nesting m.encode ≤ 127) ∧
      (127 < Json.nesting m.encode → decode m.encode = .error .malformed)) ∧
    (∀ (w : String) (m : Message), decode w = .ok m →
      (∀ s ∈ m.texts, ∃ c ∈ s.toList, Text.isBlankChar c = false) ∧
      m.WellFormed ∧ Json.nesting m.encode ≤ 127 ∧ decode m.encode = .ok m ∧
      (decode m.encode).map encode = .ok m.encode) := by
  refine ⟨fun m h => ?_, fun w m h => ?_⟩
  · rw [decode_encode h, show Json.deepest = 127 from rfl]
    by_cases hnesting : Json.nesting m.encode ≤ 127
    · simp [hnesting, Except.map]
    · simp [hnesting, Except.map]
  · obtain ⟨hwell, hdepth⟩ := decode_sound h
    have hback := decode_encode hwell
    rw [nesting_encode hwell, if_pos hdepth] at hback
    refine ⟨texts_notBlank m, hwell, ?_, hback, ?_⟩
    · rw [nesting_encode hwell]
      exact hdepth
    · rw [hback]
      rfl

/-- Arrays inside each other. -/
def nested : Nat → Json
  | 0 => .null
  | n + 1 => .array [nested n]

/-- A call whose arguments are arrays inside each other. -/
def nestedCall (n : Nat) : Message := .toolCall ⟨"c1", by decide⟩ ⟨"dig", by decide⟩ (nested n)

/-- A call written as an array, with blanks, an escape, an exponent and a key
that is repeated and out of order. -/
def looseText : String :=
  "[ \"assistant_tool_call\",\t\"c1\", \"look\",
  \x7b\"b\": 1e1, \"a\": [-0.0, 25e-1, 2], \"b\": \"\\u0041\"\x7d ]"

/-- The text of that call. -/
def tightText : String :=
  "\x7b\"type\":\"assistant_tool_call\",\"call_id\":\"c1\",\"tool_name\":\"look\"," ++
    "\"arguments\":\x7b\"a\":[-0.0,2.5,2],\"b\":\"A\"\x7d\x7d"

/-- A call is read off a loose text and back from its own, and 126 arrays
inside each other are the most that comes back. -/
theorem round_trip_of_loose_text :
    (∃ m, decode looseText = .ok m ∧ m.encode = tightText ∧ decode tightText = .ok m) ∧
    decode (nestedCall 126).encode = .ok (nestedCall 126) ∧
    decode (nestedCall 127).encode = .error .malformed := by
  obtain ⟨hsent, hread⟩ := wire_round_trip
  have hwell : ∀ n < 128, (nestedCall n).WellFormed := by
    rintro n hn v ⟨⟩
    have hall : ∀ n < 128, (nested n).wellFormed = true := by decide +kernel
    exact hall n hn
  have hlevel : Json.nesting (nestedCall 126).encode = 127 ∧
      Json.nesting (nestedCall 127).encode = 128 := by
    rw [nesting_encode (hwell 126 (by decide)), nesting_encode (hwell 127 (by decide))]
    decide +kernel
  refine ⟨?_, ?_, ?_⟩
  · have hloose : ((decode looseText).map encode).toOption = some tightText := by decide +kernel
    cases hm : decode looseText with
    | error e =>
      rw [hm] at hloose
      cases hloose
    | ok m =>
      rw [hm] at hloose
      have htext : m.encode = tightText := Option.some.inj hloose
      have hback := (hread looseText m hm).2.2.2.1
      rw [htext] at hback
      exact ⟨m, rfl, htext, hback⟩
  · exact (hsent (nestedCall 126) (hwell 126 (by decide))).1.mpr (by omega)
  · exact (hsent (nestedCall 127) (hwell 127 (by decide))).2.2 (by omega)

end Message

end AgentLoop
