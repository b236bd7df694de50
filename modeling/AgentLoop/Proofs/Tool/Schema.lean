/-
AgentLoop.Proofs.Tool.Schema — the schema of a tool says what is accepted.

* `Schema.required`, `Schema.property?` — what a schema says, read off the value
  that is sent
* `Schema.Admits` — fields that a schema allows
* `Schema.HasDefault` — what a schema has for a field that is left out
* `ToolSpec.admits_iff`, `ToolSpec.schema_hasDefault_iff` — the schema of a
  description says what the description says
* `Fields.forall₂_of_find?`, `Fields.Completes.unique` — fields in order are known
  by their look-up
* `ToolSpec.schema_is_contract` — what is accepted, and what comes back, is told by
  the schema

Nothing in the notions of a schema speaks of parameters: a service that is sent the
schema can check a call by them.
-/
import AgentLoop.Proofs.Json.Order
import AgentLoop.Proofs.Tool.Violations
import AgentLoop.Proofs.Wire.Specs
import Mathlib.Data.List.Forall2

namespace AgentLoop

/-! ## Fields by their look-up -/

namespace Fields

theorem find?_cons_self (key : String) (value : Json) (fields : Fields) :
    find? ((key, value) :: fields) key = some value :=
  List.lookup_cons_self

theorem find?_cons_of_ne {key other : String} (h : other ≠ key) (value : Json)
    (fields : Fields) : find? ((key, value) :: fields) other = fields.find? other := by
  unfold find?
  rw [List.lookup_cons, beq_eq_false_iff_ne.mpr h]

theorem find?_of_forall_lt {fields : Fields} {key : String} (h : ∀ f ∈ fields, key < f.1) :
    fields.find? key = none := by
  refine List.lookup_eq_none_iff.mpr fun f hf => ?_
  rw [bne_iff_ne]
  rintro rfl
  exact String.lt_irrefl _ (h f hf)

/-- No key that is found is before the first one. -/
theorem Ascending.first_le {key : String} {value : Json} {fields : Fields}
    (h : Ascending ((key, value) :: fields)) {other : String}
    (hfind : find? ((key, value) :: fields) other ≠ none) : key ≤ other := by
  by_contra hlt
  apply hfind
  refine find?_of_forall_lt (List.forall_mem_cons.mpr ⟨String.not_le.mp hlt, ?_⟩)
  intro f hf
  exact String.lt_trans (String.not_le.mp hlt) ((List.pairwise_cons.mp h).1 f hf)

theorem found_iff {R : Json → Json → Prop} {a b : Option Json} (h : Option.Rel R a b) :
    a ≠ none ↔ b ≠ none := by
  cases h <;> simp

/-- Fields in order are related one by one if the values under each key are. -/
theorem forall₂_of_find? {R : Json → Json → Prop} {as bs : Fields} (has : as.Ascending)
    (hbs : bs.Ascending) (h : ∀ key, Option.Rel R (as.find? key) (bs.find? key)) :
    List.Forall₂ (fun f g => f.1 = g.1 ∧ R f.2 g.2) as bs := by
  induction as generalizing bs with
  | nil =>
    cases bs with
    | nil => exact .nil
    | cons g bs => exact absurd rfl ((found_iff (h g.1)).mpr (by simp [find?]))
  | cons f as ih =>
    obtain ⟨k, v⟩ := f
    cases bs with
    | nil => exact absurd rfl ((found_iff (h k)).mp (by simp [find?]))
    | cons g bs =>
      obtain ⟨l, w⟩ := g
      -- each first key is found on the other side, so neither is before the other
      have hlk : l ≤ k := hbs.first_le ((found_iff (h k)).mp (by simp [find?]))
      have hkl : k ≤ l := has.first_le ((found_iff (h l)).mpr (by simp [find?]))
      obtain rfl : k = l := String.le_antisymm hkl hlk
      obtain ⟨hafter, has⟩ := List.pairwise_cons.mp has
      obtain ⟨hbefore, hbs⟩ := List.pairwise_cons.mp hbs
      have hfirst : R v w := by
        have hboth := h k
        rw [find?_cons_self, find?_cons_self] at hboth
        cases hboth
        assumption
      refine .cons ⟨rfl, hfirst⟩ (ih has hbs fun key => ?_)
      by_cases hkey : key = k
      · rw [hkey, find?_of_forall_lt hafter, find?_of_forall_lt hbefore]
        exact .none
      · have hboth := h key
        rwa [find?_cons_of_ne hkey, find?_cons_of_ne hkey] at hboth

/-- Fields that are completed with related defaults are related one by one. -/
theorem Completes.forall₂ {R : Json → Json → Prop} (hrefl : ∀ v, R v v)
    {default default' : String → Json → Prop}
    (hsome : ∀ key d, default key d → ∃ d', default' key d' ∧ R d d')
    (hsome' : ∀ key d', default' key d' → ∃ d, default key d)
    {fields filled filled' : Fields} (hfields : fields.Ascending)
    (h : Completes default fields filled) (h' : Completes default' fields filled') :
    List.Forall₂ (fun f g => f.1 = g.1 ∧ R f.2 g.2) filled filled' := by
  refine forall₂_of_find? (h.ascending hfields) (h'.ascending hfields) fun key => ?_
  by_cases hdefault : ∃ d, default key d ∧ fields.LeftOut key
  · obtain ⟨d, hd, hleft⟩ := hdefault
    obtain ⟨d', hd', hrelated⟩ := hsome key d hd
    rw [h.put_in key d hd hleft, h'.put_in key d' hd' hleft]
    exact .some hrelated
  · have hkept : ∀ d, default key d → ¬ fields.LeftOut key := fun d hd hleft =>
      hdefault ⟨d, hd, hleft⟩
    have hkept' : ∀ d', default' key d' → ¬ fields.LeftOut key := by
      intro d' hd'
      obtain ⟨d, hd⟩ := hsome' key d' hd'
      exact hkept d hd
    rw [h.kept key hkept, h'.kept key hkept']
    cases fields.find? key with
    | none => exact .none
    | some v => exact .some (hrefl v)

/-- There is one way at most to complete fields in order. -/
theorem Completes.unique {default : String → Json → Prop} {fields filled filled' : Fields}
    (hfields : fields.Ascending) (h : Completes default fields filled)
    (h' : Completes default fields filled') : filled = filled' := by
  have hrows := h.forall₂ Eq.refl (fun key d hd => ⟨d, hd, rfl⟩) (fun key d hd => ⟨d, hd⟩)
    hfields h'
  rw [← List.forall₂_eq_eq_eq]
  exact hrows.imp fun f g hsame => Prod.ext hsame.1 hsame.2

end Fields

/-! ## Reading a schema -/

namespace Schema

/-- The names that a schema requires. -/
def required (schema : Json) : List String :=
  (((schema.field? "required").bind Json.items?).getD []).filterMap Json.string?

/-- The property that a schema has for a name. -/
def property? (schema : Json) (name : String) : Option Json :=
  (schema.field? "properties").bind fun properties => properties.field? name

/-- Fields that a schema allows. All that are required are there and not null, and
each one that is there, not null and a property is of the kind that its property
names. -/
structure Admits (schema : Json) (fields : Fields) : Prop where
  complete : ∀ name ∈ required schema, ¬ fields.LeftOut name
  typed : ∀ name property v, property? schema name = some property →
    fields.find? name = some v → v ≠ .null →
      ∃ kind, property.field? "type" = some (.string kind) ∧ v.OfKind kind

/-- What a schema has for a field that is not required. -/
def HasDefault (schema : Json) (name : String) (d : Json) : Prop :=
  name ∉ required schema ∧
    ∃ property, property? schema name = some property ∧ property.field? "default" = some d

end Schema

/-! ## The schema of a description -/

theorem ParameterSchema.property_type (p : ParameterSchema) :
    p.property.field? "type" = some (.string p.type.name) := by
  obtain ⟨name, type, description, required, default⟩ := p
  have hother : ("type" : String) ≠ "description" ∧ ("type" : String) ≠ "default" := by decide
  have htype : (Fields.insert "type" (.string type.name) []).find? "type" =
      some (.string type.name) := Fields.find?_insert_self "type" _ []
  cases default with
  | none => exact (Fields.find?_insert_of_ne hother.1 (.string description) _).trans htype
  | some v =>
    exact (Fields.find?_insert_of_ne hother.2 v _).trans
      ((Fields.find?_insert_of_ne hother.1 (.string description) _).trans htype)

namespace ToolSpec

variable {s : ToolSpec} {fields : Fields}

theorem required_jsonSchema (s : ToolSpec) :
    Schema.required s.jsonSchema = (s.parameters.filter (·.required)).map (·.name) := by
  have hfield : s.jsonSchema.field? "required" =
      some (.ofStrings ((s.parameters.filter (·.required)).map (·.name))) := rfl
  have hstrings : ∀ names : List String,
      (names.map Json.string).filterMap Json.string? = names := by
    intro names
    rw [List.filterMap_map]
    exact List.filterMap_some
  simp only [Schema.required, hfield, Json.ofStrings, Json.items?, Option.bind_some,
    Option.getD_some, hstrings]

theorem property?_jsonSchema (s : ToolSpec) (name : String) :
    Schema.property? s.jsonSchema name =
      (Fields.ofList (s.parameters.map fun p => (p.name, p.property))).find? name := rfl

/-- The properties are those of the parameters. -/
theorem property?_eq_some_iff (h : (s.parameters.map (·.name)).Nodup) {name : String}
    {property : Json} : Schema.property? s.jsonSchema name = some property ↔
      ∃ p ∈ s.parameters, p.name = name ∧ p.property = property := by
  rw [property?_jsonSchema]
  constructor
  · intro hfind
    by_cases hname : name ∈ s.parameters.map (·.name)
    · obtain ⟨p, hp, rfl⟩ := List.mem_map.mp hname
      rw [find?_properties h hp] at hfind
      exact ⟨p, hp, rfl, Option.some.inj hfind⟩
    · rw [Fields.find?_ofList_of_not_mem (by simpa using hname)] at hfind
      cases hfind
  · rintro ⟨p, hp, rfl, rfl⟩
    exact find?_properties h hp

/-- A parameter must be given exactly if its name is required. -/
theorem mem_required_iff (h : (s.parameters.map (·.name)).Nodup) {p : ParameterSchema}
    (hp : p ∈ s.parameters) : p.name ∈ Schema.required s.jsonSchema ↔ p.required = true := by
  rw [required_jsonSchema, List.mem_map]
  constructor
  · rintro ⟨q, hq, hname⟩
    obtain ⟨hq, hrequired⟩ := List.mem_filter.mp hq
    obtain rfl : q = p := List.inj_on_of_nodup_map h hq hp hname
    exact hrequired
  · exact fun hrequired => ⟨p, List.mem_filter.mpr ⟨hp, hrequired⟩, rfl⟩

/-- Nothing is wrong with fields exactly if the schema allows them. -/
theorem admits_iff (h : (s.parameters.map (·.name)).Nodup) :
    Schema.Admits s.jsonSchema fields ↔ Reports fields s.parameters [] := by
  rw [reports_iff, List.filterMap_eq_nil_iff]
  simp only [ParameterSchema.violation?_eq_none_iff_right]
  constructor
  · rintro hadmits p hp violation (⟨hrequired, hleft⟩ | ⟨hpresent, hnull, hother⟩)
    · exact hadmits.complete p.name ((mem_required_iff h hp).mpr hrequired) hleft
    · obtain ⟨kind, hkind, hof⟩ := hadmits.typed p.name p.property _
        ((property?_eq_some_iff h).mpr ⟨p, hp, rfl, rfl⟩) hpresent hnull
      rw [p.property_type, Option.some.injEq, Json.string.injEq] at hkind
      exact hother (hkind ▸ hof)
  · intro hright
    constructor
    case complete =>
      intro name hname hleft
      rw [required_jsonSchema] at hname
      obtain ⟨p, hp, rfl⟩ := List.mem_map.mp hname
      obtain ⟨hp, hrequired⟩ := List.mem_filter.mp hp
      exact hright p hp _ (.missing hrequired hleft)
    case typed =>
      intro name property v hproperty hpresent hnull
      obtain ⟨p, hp, rfl, rfl⟩ := (property?_eq_some_iff h).mp hproperty
      refine ⟨p.type.name, p.property_type, ?_⟩
      by_contra hother
      exact hright p hp _ (.other_kind hpresent hnull hother)

/-- The schema has the defaults of the description. -/
theorem schema_hasDefault_iff (h : (s.parameters.map (·.name)).Nodup) {name : String} {d : Json} :
    Schema.HasDefault s.jsonSchema name d ↔ s.HasDefault name d := by
  constructor
  · rintro ⟨hoptional, property, hproperty, hdefault⟩
    obtain ⟨p, hp, rfl, rfl⟩ := (property?_eq_some_iff h).mp hproperty
    rw [mem_required_iff h hp, Bool.not_eq_true] at hoptional
    rw [property_default] at hdefault
    exact ⟨p, hp, rfl, hoptional, hdefault⟩
  · rintro ⟨p, hp, rfl, hoptional, hdefault⟩
    refine ⟨?_, p.property, (property?_eq_some_iff h).mpr ⟨p, hp, rfl, rfl⟩, ?_⟩
    · rw [mem_required_iff h hp, hoptional]
      exact Bool.false_ne_true
    · rw [property_default, hdefault]

end ToolSpec

/-! ## Equal schemas -/

namespace Json

theorem same_refl (v : Json) : v.same v = true := by
  rw [← cmp_totalOrder.eq_iff]
  cases hcmp : v.cmp v with
  | eq => rfl
  | _ =>
    have hswap := cmp_totalOrder.swap v v
    rw [hcmp] at hswap
    cases hswap

theorem same_symm {a b : Json} (h : a.same b = true) : b.same a = true := by
  rw [← cmp_totalOrder.eq_iff] at h ⊢
  rw [cmp_totalOrder.swap, h]
  rfl

theorem sameItems_iff {as bs : List Json} :
    sameItems as bs = true ↔ List.Forall₂ (fun a b => a.same b = true) as bs := by
  induction as generalizing bs with
  | nil => cases bs <;> simp [sameItems]
  | cons a as ih => cases bs <;> simp [sameItems, ih]

theorem sameFields_iff {as bs : Fields} : sameFields as bs = true ↔
    List.Forall₂ (fun f g => f.1 = g.1 ∧ f.2.same g.2 = true) as bs := by
  induction as generalizing bs with
  | nil => cases bs <;> simp [sameFields]
  | cons a as ih => cases bs <;> simp [sameFields, ih, and_assoc]

theorem find?_same {as bs : Fields} (h : sameFields as bs = true) (key : String) :
    Option.Rel (fun v w => v.same w = true) (as.find? key) (bs.find? key) := by
  rw [sameFields_iff] at h
  induction h with
  | nil => exact .none
  | @cons f g as bs hfirst hrest ih =>
    obtain ⟨k, v⟩ := f
    obtain ⟨l, w⟩ := g
    obtain ⟨rfl, hvalue⟩ := hfirst
    by_cases hkey : key = k
    · rw [hkey, Fields.find?_cons_self, Fields.find?_cons_self]
      exact .some hvalue
    · rw [Fields.find?_cons_of_ne hkey, Fields.find?_cons_of_ne hkey]
      exact ih

theorem field?_same {v w : Json} (h : v.same w = true) (key : String) :
    Option.Rel (fun v w => v.same w = true) (v.field? key) (w.field? key) := by
  cases v with
  | object as =>
    cases w with
    | object bs => exact find?_same (by simpa [same] using h) key
    | _ => simp [same] at h
  | _ =>
    cases w with
    | object bs => simp [same] at h
    | _ => exact .none

/-- What is found in one value has its like in the other. -/
theorem exists_same {a b : Option Json} (h : Option.Rel (fun v w => v.same w = true) a b)
    {v : Json} (hv : a = some v) : ∃ w, b = some w ∧ v.same w = true := by
  subst hv
  cases h with
  | some hvalue => exact ⟨_, rfl, hvalue⟩

theorem eq_string_of_same {s : String} {v : Json} (h : (Json.string s).same v = true) :
    v = .string s := by
  cases v <;> simp_all [same]

end Json

namespace Schema

variable {schema schema' : Json}

theorem strings_same {as bs : List Json} (h : Json.sameItems as bs = true) :
    as.filterMap Json.string? = bs.filterMap Json.string? := by
  rw [Json.sameItems_iff] at h
  induction h with
  | nil => rfl
  | @cons a b as bs hfirst hrest ih =>
    have hstring : a.string? = b.string? := by
      cases a <;> cases b <;> simp_all [Json.same, Json.string?]
    rw [List.filterMap_cons, List.filterMap_cons, hstring, ih]

theorem required_same (h : schema.same schema' = true) : required schema = required schema' := by
  have hfield := Json.field?_same h "required"
  unfold required
  generalize schema.field? "required" = a, schema'.field? "required" = b at hfield
  cases hfield with
  | none => rfl
  | @some v w hvalue =>
    cases v with
    | array as =>
      cases w with
      | array bs => exact strings_same hvalue
      | _ => simp [Json.same] at hvalue
    | _ =>
      cases w with
      | array bs => simp [Json.same] at hvalue
      | _ => rfl

theorem property?_same (h : schema.same schema' = true) (name : String) :
    Option.Rel (fun v w => v.same w = true) (property? schema name) (property? schema' name) := by
  have hfield := Json.field?_same h "properties"
  unfold property?
  generalize schema.field? "properties" = a, schema'.field? "properties" = b at hfield
  cases hfield with
  | none => exact .none
  | some hvalue => exact Json.field?_same hvalue name

theorem Admits.same {fields : Fields} (h : schema.same schema' = true)
    (hadmits : Admits schema fields) : Admits schema' fields where
  complete := by
    rw [← required_same h]
    exact hadmits.complete
  typed := by
    intro name property' v hproperty' hpresent hnull
    obtain ⟨property, hproperty, hlike⟩ :=
      Json.exists_same (property?_same (Json.same_symm h) name) hproperty'
    obtain ⟨kind, hkind, hof⟩ := hadmits.typed name property v hproperty hpresent hnull
    obtain ⟨type, htype, hlike⟩ :=
      Json.exists_same (Json.field?_same (Json.same_symm hlike) "type") hkind
    exact ⟨kind, Json.eq_string_of_same hlike ▸ htype, hof⟩

theorem HasDefault.same {name : String} {d : Json} (h : schema.same schema' = true)
    (hdefault : HasDefault schema name d) :
    ∃ d', HasDefault schema' name d' ∧ d.same d' = true := by
  obtain ⟨hoptional, property, hproperty, hd⟩ := hdefault
  obtain ⟨property', hproperty', hlike⟩ := Json.exists_same (property?_same h name) hproperty
  obtain ⟨d', hd', hlike⟩ := Json.exists_same (Json.field?_same hlike "default") hd
  exact ⟨d', ⟨required_same h ▸ hoptional, property', hproperty', hd'⟩, hlike⟩

end Schema

/-! ## What a schema tells -/

/-- What a schema says of a call with some arguments, without regard to what it was
made of: they are fields that the schema allows, and come back completed with what
the schema has for those that were left out. -/
def Schema.Answers (schema arguments : Json) (filled : Fields) : Prop :=
  ∃ fields, ToolSpec.argumentFields? arguments = some fields ∧ Schema.Admits schema fields ∧
    Fields.Completes (Schema.HasDefault schema) fields filled

namespace ToolSpec

variable {s t : ToolSpec} {arguments : Json}

theorem accepts_iff_admits (h : (s.parameters.map (·.name)).Nodup) :
    (∃ filled, s.validateArguments arguments = .ok filled) ↔
      ∃ fields, argumentFields? arguments = some fields ∧ Schema.Admits s.jsonSchema fields := by
  simp only [validateArguments_ok_iff h, admits_iff h, reports_iff]
  constructor
  · rintro ⟨filled, fields, hfields, hviolations, -⟩
    exact ⟨fields, hfields, hviolations⟩
  · rintro ⟨fields, hfields, hviolations⟩
    exact ⟨s.filled fields, fields, hfields, hviolations, rfl⟩

theorem schema_completes (h : (s.parameters.map (·.name)).Nodup) (fields : Fields) :
    Fields.Completes (Schema.HasDefault s.jsonSchema) fields (s.filled fields) := by
  have hsame : Schema.HasDefault s.jsonSchema = s.HasDefault := by
    funext name d
    exact propext (schema_hasDefault_iff h)
  rw [hsame]
  exact completes_filled h fields

theorem ok_iff_answers (h : (s.parameters.map (·.name)).Nodup) (hwell : arguments.WellFormed)
    {filled : Fields} : s.validateArguments arguments = .ok filled ↔
      Schema.Answers s.jsonSchema arguments filled := by
  rw [validateArguments_ok_iff h]
  constructor
  · rintro ⟨fields, hfields, hviolations, rfl⟩
    exact ⟨fields, hfields, (admits_iff h).mpr (reports_iff.mpr hviolations),
      schema_completes h fields⟩
  · rintro ⟨fields, hfields, hadmits, hcompletes⟩
    refine ⟨fields, hfields, reports_iff.mp ((admits_iff h).mp hadmits), ?_⟩
    exact hcompletes.unique (Registry.ascending_argumentFields hwell hfields)
      (schema_completes h fields)

theorem answers_same (hs : (s.parameters.map (·.name)).Nodup)
    (ht : (t.parameters.map (·.name)).Nodup) (hwell : arguments.WellFormed)
    (hschema : s.jsonSchema.same t.jsonSchema = true) {filled : Fields}
    (hanswer : s.validateArguments arguments = .ok filled) :
    ∃ filled', t.validateArguments arguments = .ok filled' ∧
      (Json.object filled).same (.object filled') = true := by
  obtain ⟨fields, hfields, hadmits, hcompletes⟩ := (ok_iff_answers hs hwell).mp hanswer
  have hcompletes' := schema_completes ht fields
  refine ⟨t.filled fields, ?_, ?_⟩
  · exact (ok_iff_answers ht hwell).mpr ⟨fields, hfields, hadmits.same hschema, hcompletes'⟩
  · refine Json.sameFields_iff.mpr (hcompletes.forall₂ (R := fun v w => v.same w = true)
      Json.same_refl ?_ ?_ (Registry.ascending_argumentFields hwell hfields) hcompletes')
    · exact fun name d hdefault => hdefault.same hschema
    · intro name d' hdefault'
      obtain ⟨d, hdefault, -⟩ := hdefault'.same (Json.same_symm hschema)
      exact ⟨d, hdefault⟩

/-- The schema of a description that can be registered tells which arguments are
accepted, and what comes back of them. Descriptions with one schema therefore give
the same answers, and those with equal schemas accept the same arguments and give
back equal values: schemas are equal that have zeros of two signs. -/
theorem schema_is_contract (h : s.check = .ok ()) :
    (∀ arguments, (∃ filled, s.validateArguments arguments = .ok filled) ↔
      ∃ fields, argumentFields? arguments = some fields ∧ Schema.Admits s.jsonSchema fields) ∧
    (∀ arguments, arguments.WellFormed → ∀ filled,
      s.validateArguments arguments = .ok filled ↔
        Schema.Answers s.jsonSchema arguments filled) ∧
    ∀ t : ToolSpec, t.check = .ok () → ∀ arguments, arguments.WellFormed →
      (s.jsonSchema = t.jsonSchema → ∀ filled, s.validateArguments arguments = .ok filled ↔
        t.validateArguments arguments = .ok filled) ∧
      (s.jsonSchema.same t.jsonSchema = true →
        (∀ filled, s.validateArguments arguments = .ok filled →
          ∃ filled', t.validateArguments arguments = .ok filled' ∧
            (Json.object filled).same (.object filled') = true) ∧
        ∀ filled', t.validateArguments arguments = .ok filled' →
          ∃ filled, s.validateArguments arguments = .ok filled ∧
            (Json.object filled).same (.object filled') = true) := by
  have hs := (check_ok_iff.mp h).2
  refine ⟨fun arguments => accepts_iff_admits hs, fun arguments hwell filled =>
    ok_iff_answers hs hwell, ?_⟩
  intro t hcheck arguments hwell
  have ht := (check_ok_iff.mp hcheck).2
  refine ⟨?_, fun hschema => ⟨fun filled => answers_same hs ht hwell hschema, ?_⟩⟩
  · intro hschema filled
    rw [ok_iff_answers hs hwell, ok_iff_answers ht hwell, hschema]
  · intro filled' hanswer
    obtain ⟨filled, hfilled, hsame⟩ :=
      answers_same ht hs hwell (Json.same_symm hschema) hanswer
    exact ⟨filled, hfilled, Json.same_symm hsame⟩

/-- A zero with a sign. -/
def signedZero (negative : Bool) : Json := .float ⟨negative, 0, by decide⟩

/-- A tool that plans a way, with a parameter that must be given in spite of its
default, and others with a default that is null or a zero. -/
def journeySpec (negative swapped : Bool) : ToolSpec :=
  let goal := (ParameterSchema.mandatory "goal" .string "").withDefault (.string "home")
  let start := (ParameterSchema.optional "start" .number "").withDefault (signedZero negative)
  let stops := (ParameterSchema.optional "stops" .array "").withDefault .null
  ⟨"journey", "Plans a way.", if swapped then [stops, goal, start] else [goal, start, stops]⟩

/-- The arguments of a call. -/
def journeyToSea : Json := .object [("goal", .string "sea"), ("start", .null)]

/-- What they are completed to. -/
def journeyToSeaFrom (start : Json) : Fields :=
  [("goal", .string "sea"), ("start", start), ("stops", .null)]

/-- Parameters in another order make the same schema, and the same answers; with a
zero of the other sign the schema is equal, and so is the answer. -/
theorem answers_of_like_schemas :
    (journeySpec false false).jsonSchema = (journeySpec false true).jsonSchema ∧
    (journeySpec false false).jsonSchema.same (journeySpec true false).jsonSchema = true ∧
    Schema.Answers (journeySpec false false).jsonSchema journeyToSea
      (journeyToSeaFrom (signedZero false)) ∧
    ¬ (∃ fields, argumentFields? .null = some fields ∧
      Schema.Admits (journeySpec false false).jsonSchema fields) ∧
    (journeySpec false true).validateArguments journeyToSea =
      .ok (journeyToSeaFrom (signedZero false)) ∧
    ∃ filled, (journeySpec true false).validateArguments journeyToSea = .ok filled ∧
      (Json.object (journeyToSeaFrom (signedZero false))).same (.object filled) = true := by
  obtain ⟨hadmits, hanswers, hlike⟩ := schema_is_contract (s := journeySpec false false) rfl
  have hwell : journeyToSea.WellFormed := rfl
  have hgiven : (journeySpec false false).validateArguments journeyToSea =
    .ok (journeyToSeaFrom (signedZero false)) := rfl
  refine ⟨rfl, rfl, (hanswers _ hwell _).mp hgiven, ?_, ?_, ?_⟩
  · rw [← hadmits]
    rintro ⟨filled, hfilled⟩
    cases hfilled
  · exact ((hlike (journeySpec false true) rfl _ hwell).1 rfl _).mp hgiven
  · exact ((hlike (journeySpec true false) rfl _ hwell).2 rfl).1 _ hgiven

end ToolSpec

end AgentLoop
