/-
AgentLoop.Proofs.Wire.Specs — descriptions of tools on the wire and back.

* `ParameterSchema.settled`, `ToolSpec.settled` — the description with defaults
  of null left out
* `ParameterSchema.reads`, `ToolSpec.reads` — this is what is read of a
  description that was written
* `ToolSpec.faithful` — descriptions without a default of null are read as they
  were written, and no others are ever read
* `SameUpToNull`, `ToolSpec.validateArguments_settled` — the same arguments are
  accepted, and the same values filled in if null counts as none
* `ToolSpec.property_default`, `ToolSpec.jsonSchema_settled_iff` — a default of
  null is seen in the schema
* `ToolSpec.null_defaults_on_the_wire` — a description comes back as it was sent
  exactly if no default is null

A default of null is written out, and a member that is null is read as one that
is not there. The writer can tell the two apart and the reader cannot.
-/
import AgentLoop.Proofs.Json.Records
import AgentLoop.Tool.Spec

namespace AgentLoop

open Json (Faithful Reads Reader decode nesting)

attribute [local simp] Json.record Json.namedMembers Json.Member.of Json.Given.required
  Json.Given.withDefault Json.Node.fieldsWithin Bind.bind Except.bind Pure.pure Except.pure
  Except.map List.lookup_cons

/-! ## Parameters -/

namespace ParameterSchema

/-- A default, null being none. -/
def settledDefault : Option Json → Option Json
  | some .null => none
  | d => d

/-- A parameter without a default of null. -/
def settled (p : ParameterSchema) : ParameterSchema :=
  { p with default := settledDefault p.default }

/-- The default is a value that a text can stand for. -/
def WellFormed (p : ParameterSchema) : Prop := ∀ v ∈ p.default, v.WellFormed

theorem settledDefault_of_ne {v : Json} (h : v ≠ .null) : settledDefault (some v) = some v := by
  cases v with
  | null => exact absurd rfl h
  | _ => rfl

theorem settledDefault_eq_iff {d : Option Json} : settledDefault d = d ↔ d ≠ some .null := by
  cases d with
  | none => simp [settledDefault]
  | some v =>
    by_cases hv : v = .null
    · simp [hv, settledDefault]
    · simp [settledDefault_of_ne hv, hv]

theorem settled_eq_iff {p : ParameterSchema} : p.settled = p ↔ p.default ≠ some .null := by
  rw [← settledDefault_eq_iff]
  obtain ⟨name, type, description, required, default⟩ := p
  simp [settled]

theorem reads_default {v : Json} (h : v.WellFormed) :
    Reads Reader.value.nullable v (settledDefault (some v)) := by
  by_cases hv : v = .null
  · subst hv
    exact Reads.nullable_none
  · rw [settledDefault_of_ne hv]
    exact (Faithful.value.reads v h).nullable hv

/-- A default of null is not read. -/
theorem reads {p : ParameterSchema} (h : p.WellFormed) : Reads reader p.toJson p.settled := by
  obtain ⟨name, type, description, required, default⟩ := p
  have hname := fun room => Faithful.text.reads name trivial room (Nat.zero_le _)
  have htype := fun room => (Faithful.oneOf ParamType.lookup_name false).reads type trivial room
    (Nat.zero_le _)
  have hdescription := fun room => Faithful.text.reads description trivial room (Nat.zero_le _)
  have hrequired := fun room => Faithful.flag.reads required trivial room (Nat.zero_le _)
  cases default with
  | none =>
    exact Reads.object fun room _ => by
      simp [reader, defaultField, settled, settledDefault, hname room, htype room,
        hdescription room, hrequired room]
  | some v =>
    refine Reads.object fun room hroom => ?_
    have hdefault := reads_default (h v rfl) room (hroom ("default", v) (by simp [defaultField]))
    simp [reader, defaultField, settled, hname room, htype room, hdescription room,
      hrequired room, hdefault]

theorem legible {p : ParameterSchema} (h : p.WellFormed) : p.toJson.Legible := by
  obtain ⟨name, type, description, required, default⟩ := p
  cases default with
  | none => exact Json.legible_object (by simp [defaultField])
  | some v =>
    have hv : v.WellFormed := h v rfl
    exact Json.legible_object (by simp [defaultField, hv.legible])

theorem depth_toJson_le {p : ParameterSchema} {room : Nat} :
    p.toJson.depth ≤ room ↔ 0 < room ∧ ∀ v ∈ p.default, v.depth ≤ room - 1 := by
  obtain ⟨name, type, description, required, default⟩ := p
  rw [toJson, Json.depth_object_le]
  cases default <;> simp [Json.depth, defaultField]

/-- Null is read as the absence of a default, so no default that is read is
null. -/
theorem default_faithful :
    Faithful Json.ofOption Reader.value.nullable (fun d => ∀ v ∈ d, v.WellFormed ∧ v ≠ .null)
      0 where
  legible d h := by
    cases d with
    | none => exact Json.legible_null
    | some v => exact (h v rfl).1.legible
  reads d h := by
    cases d with
    | none => exact Reads.nullable_none
    | some v => exact (Faithful.value.reads v (h v rfl).1).nullable (h v rfl).2
  sound := by
    intro room n d hn hread
    rcases Json.nullable_ok hread with rfl | ⟨hwritten, v, rfl, hv⟩
    · exact ⟨by simp, Nat.zero_le _⟩
    · obtain ⟨hwell, hdepth⟩ := Faithful.value.sound hn hv
      refine ⟨?_, hdepth⟩
      rintro w ⟨⟩
      refine ⟨hwell, ?_⟩
      -- the value null has one tree only, and this is the one that was ruled out
      rintro rfl
      exact hwritten (Json.null_of_sound hn (Json.value_ok hv))

theorem faithful : Faithful toJson reader (fun p => p.WellFormed ∧ p.default ≠ some .null) 0 where
  legible p h := legible h.1
  reads p h := by
    have hread := reads h.1
    rwa [settled_eq_iff.mpr h.2] at hread
  sound := by
    intro room n p hn h
    obtain ⟨g, hg, h⟩ := Json.ok_of_bind h
    obtain ⟨name, -, h⟩ := Json.ok_of_bind h
    obtain ⟨type, -, h⟩ := Json.ok_of_bind h
    obtain ⟨description, -, h⟩ := Json.ok_of_bind h
    obtain ⟨required, -, h⟩ := Json.ok_of_bind h
    obtain ⟨default, hdefault, h⟩ := Json.ok_of_bind h
    cases h
    obtain ⟨hroom, hvalues⟩ := Json.sound_of_record hn hg
    have hnone : (∀ v ∈ (none : Option Json), v.WellFormed ∧ v ≠ .null) ∧
        (Json.ofOption none).depth ≤ 0 := by simp [Json.ofOption, Json.depth]
    obtain ⟨hfit, hdepth⟩ := default_faithful.withDefault hvalues hnone hdefault
    rw [Nat.max_zero] at hdepth ⊢
    refine ⟨⟨fun v hv => (hfit v hv).1, ?_⟩, depth_toJson_le.mpr ⟨hroom, ?_⟩⟩
    · rintro rfl
      exact (hfit .null rfl).2 rfl
    · rintro v ⟨⟩
      exact hdepth

end ParameterSchema

/-! ## Descriptions -/

namespace ToolSpec

/-- A description without defaults of null. -/
def settled (s : ToolSpec) : ToolSpec :=
  { s with parameters := s.parameters.map ParameterSchema.settled }

/-- All defaults are values that a text can stand for. -/
def WellFormed (s : ToolSpec) : Prop := ∀ p ∈ s.parameters, p.WellFormed

theorem settled_eq_iff {s : ToolSpec} :
    s.settled = s ↔ ∀ p ∈ s.parameters, p.default ≠ some .null := by
  obtain ⟨name, description, parameters⟩ := s
  have hall : parameters.map ParameterSchema.settled = parameters ↔
      ∀ p ∈ parameters, p.settled = p := by
    simpa using List.map_inj_left (f := ParameterSchema.settled) (g := id) (l := parameters)
  simp [settled, hall, ParameterSchema.settled_eq_iff]

/-- A description is read back with its defaults of null left out. -/
theorem reads {s : ToolSpec} (h : s.WellFormed) : Reads reader s.toJson s.settled := by
  refine Reads.object fun room hroom => ?_
  have hname := Faithful.text.reads s.name trivial room (Nat.zero_le _)
  have hdescription := Faithful.text.reads s.description trivial room (Nat.zero_le _)
  have hparameters := Reads.list (fun p hp => ParameterSchema.reads (h p hp)) room
    (hroom ("parameters", _) (by simp))
  simp [reader, settled, hname, hdescription, hparameters]

theorem legible {s : ToolSpec} (h : s.WellFormed) : s.toJson.Legible := by
  have hparameters := Json.legible_array (List.forall_mem_map.mpr fun p hp =>
    ParameterSchema.legible (h p hp))
  exact Json.legible_object (by simp [hparameters])

theorem faithful :
    Faithful toJson reader (fun s => s.WellFormed ∧ ∀ p ∈ s.parameters, p.default ≠ some .null)
      2 where
  legible s h := legible h.1
  reads s h := by
    have hread := reads h.1
    rwa [settled_eq_iff.mpr h.2] at hread
  sound := by
    intro room n s hn h
    obtain ⟨g, hg, h⟩ := Json.ok_of_bind h
    obtain ⟨name, -, h⟩ := Json.ok_of_bind h
    obtain ⟨description, -, h⟩ := Json.ok_of_bind h
    obtain ⟨parameters, hparameters, h⟩ := Json.ok_of_bind h
    cases h
    obtain ⟨hroom, hvalues⟩ := Json.sound_of_record hn hg
    have hnil : (∀ p ∈ ([] : List ParameterSchema), p.WellFormed ∧ p.default ≠ some .null) ∧
        (Json.array ([].map ParameterSchema.toJson)).depth ≤ 0 + 1 := ⟨by simp, Nat.le_refl 1⟩
    obtain ⟨hfit, hdepth⟩ :=
      ParameterSchema.faithful.list.withDefault hvalues hnil hparameters
    have hrow : (Json.array (parameters.map ParameterSchema.toJson)).depth ≤
        max room 2 - 1 := by omega
    refine ⟨⟨fun p hp => (hfit p hp).1, fun p hp => (hfit p hp).2⟩, ?_⟩
    rw [toJson, Json.depth_object_le]
    exact ⟨by omega, by simpa [Json.depth] using hrow⟩

end ToolSpec

/-! ## Checking arguments -/

/-- Two rows of arguments have the same values, null being none. -/
def Fields.SameValues (a b : Fields) : Prop :=
  ∀ key, (a.find? key).getD .null = (b.find? key).getD .null

/-- Two checks complain of the same, or find arguments that have the same values,
null being none. -/
def SameUpToNull {ε : Type} : Except ε Fields → Except ε Fields → Prop
  | .ok a, .ok b => a.SameValues b
  | .error v, .error w => v = w
  | _, _ => False

theorem Fields.SameValues.insert {a b : Fields} (h : a.SameValues b) (key : String)
    (value : Json) : (a.insert key value).SameValues (b.insert key value) := by
  intro other
  by_cases hkey : other = key
  · rw [hkey, Fields.find?_insert_self, Fields.find?_insert_self]
  · rw [Fields.find?_insert_of_ne hkey, Fields.find?_insert_of_ne hkey]
    exact h other

/-- A value of null may be filled in where there is none. -/
theorem Fields.SameValues.insert_null {a b : Fields} (h : a.SameValues b) {key : String}
    (hnone : (b.find? key).getD .null = .null) : a.SameValues (b.insert key .null) := by
  intro other
  by_cases hkey : other = key
  · rw [hkey, Fields.find?_insert_self, h key, hnone]
    rfl
  · rw [Fields.find?_insert_of_ne hkey]
    exact h other

namespace ToolSpec

/-- A default of null fills in nothing that counts. -/
theorem checkParameter_settled (p : ParameterSchema) {a b : Fields} (h : a.SameValues b) :
    SameUpToNull (checkParameter p.settled a) (checkParameter p b) := by
  obtain ⟨name, type, description, required, default⟩ := p
  have hsettled : ParameterSchema.settled ⟨name, type, description, required, default⟩ =
      ⟨name, type, description, required, ParameterSchema.settledDefault default⟩ := rfl
  rw [hsettled]
  simp only [checkParameter, h name]
  split
  · rename_i hnone
    cases required with
    | true => rfl
    | false =>
      cases default with
      | none => exact h
      | some v =>
        by_cases hv : v = .null
        · subst hv
          exact h.insert_null hnone
        · rw [ParameterSchema.settledDefault_of_ne hv]
          exact h.insert name v
  · split
    · exact h
    · rfl

theorem checkParameters_settled (ps : List ParameterSchema) {a b : Fields}
    (h : a.SameValues b) :
    (checkParameters (ps.map ParameterSchema.settled) a).1.SameValues (checkParameters ps b).1 ∧
      (checkParameters (ps.map ParameterSchema.settled) a).2 = (checkParameters ps b).2 := by
  induction ps generalizing a b with
  | nil => exact ⟨h, rfl⟩
  | cons p rest ih =>
    have hstep := checkParameter_settled p h
    rw [List.map_cons, checkParameters, checkParameters]
    cases hleft : checkParameter p.settled a with
    | ok filled =>
      cases hright : checkParameter p b with
      | ok filled' =>
        rw [hleft, hright] at hstep
        exact ih hstep
      | error w =>
        rw [hleft, hright] at hstep
        exact hstep.elim
    | error v =>
      cases hright : checkParameter p b with
      | ok filled' =>
        rw [hleft, hright] at hstep
        exact hstep.elim
      | error w =>
        rw [hleft, hright] at hstep
        obtain ⟨hvalues, hviolations⟩ := ih h
        exact ⟨hvalues, congrArg₂ List.cons hstep hviolations⟩

/-- Without its defaults of null a description accepts the same arguments, and
complains of the others in the same words. -/
theorem validateArguments_settled (s : ToolSpec) (arguments : Json) :
    SameUpToNull (s.settled.validateArguments arguments) (s.validateArguments arguments) := by
  have hobject : ∀ fields : Fields, SameUpToNull (s.settled.validateArguments (.object fields))
      (s.validateArguments (.object fields)) := by
    intro fields
    have hrefl : fields.SameValues fields := fun key => rfl
    obtain ⟨hvalues, hviolations⟩ := checkParameters_settled s.parameters hrefl
    simp only [validateArguments, settled]
    cases hleft : checkParameters (s.parameters.map ParameterSchema.settled) fields with
    | mk filled vs =>
      cases hright : checkParameters s.parameters fields with
      | mk filled' ws =>
        rw [hleft, hright] at hvalues hviolations
        obtain rfl : vs = ws := hviolations
        cases vs with
        | nil => exact hvalues
        | cons v rest => rfl
  cases arguments with
  | null => exact hobject []
  | object fields => exact hobject fields
  | _ => rfl

/-! ## Schemas -/

/-- The default of a parameter is seen in its property. -/
theorem property_default (p : ParameterSchema) : p.property.field? "default" = p.default := by
  obtain ⟨name, type, description, required, default⟩ := p
  have hdefault : ("default" : String) ≠ "type" ∧ ("default" : String) ≠ "description" := by decide
  cases default with
  | none =>
    have htype : (Fields.insert "type" (.string type.name) []).find? "default" = none := by
      rw [Fields.find?_insert_of_ne hdefault.1]
      rfl
    exact (Fields.find?_insert_of_ne hdefault.2 _ _).trans htype
  | some v => exact Fields.find?_insert_self "default" v _

theorem find?_properties {ps : List ParameterSchema} (h : (ps.map (·.name)).Nodup)
    {p : ParameterSchema} (hp : p ∈ ps) :
    (Fields.ofList (ps.map fun p => (p.name, p.property))).find? p.name = some p.property := by
  refine Fields.find?_ofList (f := (p.name, p.property)) ?_ (List.mem_map_of_mem hp)
  simpa [Function.comp_def] using h

/-- A default of null is seen in the schema, if no two parameters have one
name. -/
theorem jsonSchema_settled_iff {s : ToolSpec} (h : (s.parameters.map (·.name)).Nodup) :
    s.settled.jsonSchema = s.jsonSchema ↔ ∀ p ∈ s.parameters, p.default ≠ some .null := by
  refine ⟨fun hschema p hp => ?_, fun hnull => by rw [settled_eq_iff.mpr hnull]⟩
  have hnames : (s.settled.parameters.map (·.name)).Nodup := by
    simpa [settled, ParameterSchema.settled, Function.comp_def] using h
  have hsent := find?_properties h hp
  have hread := find?_properties hnames (List.mem_map_of_mem (f := ParameterSchema.settled) hp)
  rw [jsonSchema, jsonSchema, Json.object.injEq] at hschema
  have hproperties := (List.cons.inj hschema).1
  rw [Prod.mk.injEq, Json.object.injEq] at hproperties
  rw [hproperties.2] at hread
  have hproperty : p.settled.property = p.property := Option.some.inj (hread.symm.trans hsent)
  have hdefault : p.settled.default = p.default := by
    rw [← property_default, ← property_default, hproperty]
  exact ParameterSchema.settledDefault_eq_iff.mp hdefault

/-! ## On the wire -/

/-- Descriptions on the wire. A description whose defaults are values that a text
can stand for, and in whose text no more than 127 brackets are open at once, is
read back without its defaults of null: as it was sent exactly if there are
none. What is read accepts the same arguments, complains of the others in the
same words and fills in the same values, null counting as none; if no two
parameters have one name, its schema is that of the description that was sent
exactly if no default is null. A description that was read off any text is read
back from its own. -/
theorem null_defaults_on_the_wire (s : ToolSpec) :
    (s.WellFormed → nesting s.toJson.print ≤ 127 →
      decode reader s.toJson.print = .ok s.settled ∧
      (decode reader s.toJson.print = .ok s ↔ ∀ p ∈ s.parameters, p.default ≠ some .null) ∧
      (∀ arguments, SameUpToNull (s.settled.validateArguments arguments)
        (s.validateArguments arguments)) ∧
      ((s.parameters.map (·.name)).Nodup →
        (s.settled.jsonSchema = s.jsonSchema ↔ ∀ p ∈ s.parameters, p.default ≠ some .null))) ∧
    (∀ w, decode reader w = .ok s →
      (∀ p ∈ s.parameters, p.default ≠ some .null) ∧ decode reader s.toJson.print = .ok s) := by
  refine ⟨fun h hnesting => ?_, fun w hw => ?_⟩
  · rw [Json.nesting_print (legible h)] at hnesting
    have hread := (reads h).decode_print (legible h) hnesting
    refine ⟨hread, ?_, validateArguments_settled s, jsonSchema_settled_iff⟩
    rw [hread, Except.ok.injEq]
    exact settled_eq_iff
  · obtain ⟨n, hroot, hread⟩ := Json.root_of_decode hw
    have hfit := (faithful.sound (Json.Document.root_sound hroot) hread).1
    exact ⟨hfit.2, (faithful.lossless (by decide)).received w s hw⟩

/-- A tool that waits, with a default for when to stop. -/
def waitSpec (default : Json) : ToolSpec :=
  ⟨"wait", "Waits.", [(ParameterSchema.optional "until" .object "When to stop").withDefault default,
    .mandatory "reason" .string "Why"]⟩

theorem wellFormed_waitSpec (default : Json) (h : default.WellFormed) :
    (waitSpec default).WellFormed := by
  intro p hp v hv
  simp only [waitSpec, List.mem_cons, List.not_mem_nil, or_false] at hp
  rcases hp with rfl | rfl
  · cases hv
    exact h
  · cases hv

/-- A default that is an object comes back, and one that is null does not. -/
theorem defaults_kept_unless_null :
    decode reader (waitSpec (.object [("at", .array [.int 7, .null])])).toJson.print =
      .ok (waitSpec (.object [("at", .array [.int 7, .null])])) ∧
    decode reader (waitSpec .null).toJson.print = .ok (waitSpec .null).settled ∧
    decode reader (waitSpec .null).toJson.print ≠ .ok (waitSpec .null) := by
  have hsent := fun s => (null_defaults_on_the_wire s).1
  have hobject := wellFormed_waitSpec (.object [("at", .array [.int 7, .null])]) rfl
  have hnull := wellFormed_waitSpec .null rfl
  have hlevels : nesting (waitSpec (.object [("at", .array [.int 7, .null])])).toJson.print ≤ 127 ∧
      nesting (waitSpec .null).toJson.print ≤ 127 := by
    rw [Json.nesting_print (legible hobject), Json.nesting_print (legible hnull)]
    decide
  refine ⟨?_, (hsent _ hnull hlevels.2).1, ?_⟩
  · refine (hsent _ hobject hlevels.1).2.1.mpr ?_
    simp [waitSpec, ParameterSchema.withDefault, ParameterSchema.optional,
      ParameterSchema.mandatory]
  · rw [ne_eq, (hsent _ hnull hlevels.2).2.1]
    simp [waitSpec, ParameterSchema.withDefault]

/-- What is read of a description with a default of null is another
description: its schema has no default, and none is filled in. -/
theorem null_default_lost :
    (waitSpec .null).WellFormed ∧ nesting (waitSpec .null).toJson.print ≤ 127 ∧
    ∃ s, decode reader (waitSpec .null).toJson.print = .ok s ∧ s ≠ waitSpec .null ∧
      s.jsonSchema ≠ (waitSpec .null).jsonSchema ∧
      s.validateArguments (.object [("reason", .string "rest")]) =
        .ok [("reason", .string "rest")] ∧
      (waitSpec .null).validateArguments (.object [("reason", .string "rest")]) =
        .ok [("reason", .string "rest"), ("until", .null)] := by
  have hwell := wellFormed_waitSpec .null rfl
  have hnull : ¬ ∀ p ∈ (waitSpec .null).parameters, p.default ≠ some .null := by
    simp [waitSpec, ParameterSchema.withDefault]
  have hdepth : (waitSpec .null).toJson.depth ≤ Json.deepest := by decide
  refine ⟨hwell, ?_, (waitSpec .null).settled, ?_, ?_, ?_, ?_, ?_⟩
  · rw [Json.nesting_print (legible hwell)]
    exact hdepth
  · exact (reads hwell).decode_print (legible hwell) hdepth
  · exact fun hsame => hnull (settled_eq_iff.mp hsame)
  · exact fun hsame => hnull ((jsonSchema_settled_iff (by decide)).mp hsame)
  · rfl
  · rfl

end ToolSpec

end AgentLoop
