/-
AgentLoop.Proofs.Tool.Arguments — what tools are handed.

* `ParameterSchema.violation?`, `ParameterSchema.putIn?` — what is wrong with an
  argument, and the default that is put in its place
* `ToolSpec.checkParameters_eq` — the check of all parameters, one parameter at
  a time
* `ToolSpec.validateArguments_eq` — arguments are filled if nothing is wrong
* `ToolSpec.find?_filled`, `ToolSpec.filled_filled` — what filling in changes
* `ToolSpec.Conforms`, `ToolSpec.violations_eq_nil_iff` — arguments that are as
  a description declares them
* `ToolSpec.SoundDefaults` — defaults that are as their parameters declare them
* `Registry.handed_arguments` — what is handed to tools conforms up to
  defaults, and always exactly if all defaults are sound

The arguments are checked and filled in one pass. Parameters have distinct
names, so a default that is put in is not looked at by the checks behind it,
and not by its own.
-/
import AgentLoop.Proofs.Tool.Invocation
import Mathlib.Data.List.Nodup

namespace AgentLoop

/-! ## The field of a parameter -/

namespace Fields

/-- The value of a field, null if there is none. -/
def given (fields : Fields) (key : String) : Json := (fields.find? key).getD .null

/-- Putting in a value that is there already changes nothing. -/
theorem insert_of_find? {fields : Fields} (h : fields.Ascending) {key : String} {value : Json}
    (hfind : fields.find? key = some value) : insert key value fields = fields := by
  induction fields with
  | nil => simp [find?] at hfind
  | cons f rest ih =>
    obtain ⟨k, v⟩ := f
    obtain ⟨hfirst, hrest⟩ := List.pairwise_cons.mp h
    unfold find? at hfind
    by_cases heq : key = k
    · subst heq
      simp only [List.lookup_cons_self, Option.some.injEq] at hfind
      rw [insert, if_neg (String.lt_irrefl _), if_pos rfl, hfind]
    · rw [List.lookup_cons, beq_eq_false_iff_ne.mpr heq] at hfind
      obtain ⟨before, after, hsplit, -⟩ := List.lookup_eq_some_iff.mp hfind
      have hmem : (key, value) ∈ rest := by simp [hsplit]
      have hlt : ¬ key < k := String.lt_asymm (hfirst (key, value) hmem)
      rw [insert, if_neg hlt, if_neg heq, ih hrest hfind]

theorem find?_ofList_of_not_mem {fields : List (String × Json)} {key : String}
    (h : key ∉ fields.map (·.1)) : (ofList fields).find? key = none :=
  find?_foldl_insert h

end Fields

namespace ParameterSchema

variable {p : ParameterSchema} {fields : Fields} {name : String}

/-- What is wrong with the value of a parameter. Null counts as left out. -/
def violation? (p : ParameterSchema) : Json → Option FieldViolation
  | .null => if p.required then some (.missing p.name) else none
  | v => if p.type.accepts v then none else some (.wrongKind p.name p.type v)

/-- The default that is put in the place of a value. -/
def putIn? (p : ParameterSchema) : Json → Option Json
  | .null => if p.required then none else p.default
  | _ => none

/-- Arguments in which the default of a parameter is put in. -/
def fill (p : ParameterSchema) (fields : Fields) : Fields :=
  match p.putIn? (fields.given p.name) with
  | some d => fields.insert p.name d
  | none => fields

/-- A parameter is filled in unless something is wrong. -/
theorem checkParameter_eq (p : ParameterSchema) (fields : Fields) :
    ToolSpec.checkParameter p fields =
      match p.violation? (fields.given p.name) with
      | some v => .error v
      | none => .ok (p.fill fields) := by
  unfold ToolSpec.checkParameter fill Fields.given
  cases (fields.find? p.name).getD .null with
  | null =>
    cases hrequired : p.required <;> cases hdefault : p.default <;>
      simp [violation?, putIn?, hrequired, hdefault]
  | _ =>
    simp only [violation?, putIn?]
    split <;> rfl

/-- What is wrong with a parameter is not filled in. -/
theorem putIn?_of_violation? {v : Json} {violation : FieldViolation}
    (h : p.violation? v = some violation) : p.putIn? v = none := by
  cases v with
  | null =>
    cases hrequired : p.required with
    | true => simp [putIn?, hrequired]
    | false => simp [violation?, hrequired] at h
  | _ => rfl

theorem fill_of_violation? {violation : FieldViolation}
    (h : p.violation? (fields.given p.name) = some violation) : p.fill fields = fields := by
  simp [fill, putIn?_of_violation? h]

theorem find?_fill_of_ne (h : name ≠ p.name) : (p.fill fields).find? name = fields.find? name := by
  unfold fill
  split
  · exact Fields.find?_insert_of_ne h _ _
  · rfl

theorem given_fill_of_ne (h : name ≠ p.name) : (p.fill fields).given name = fields.given name := by
  simp [Fields.given, find?_fill_of_ne h]

theorem find?_fill_self :
    (p.fill fields).find? p.name =
      (p.putIn? (fields.given p.name)).or (fields.find? p.name) := by
  unfold fill
  cases p.putIn? (fields.given p.name) with
  | some d => simp [Fields.find?_insert_self]
  | none => simp

theorem ascending_fill (h : fields.Ascending) : (p.fill fields).Ascending := by
  unfold fill
  split
  · exact Fields.ascending_insert _ _ h
  · exact h

/-- Nothing is filled in if what would be put in is there already. -/
theorem fill_eq_self (h : fields.Ascending)
    (hthere : ∀ d, p.putIn? (fields.given p.name) = some d → fields.find? p.name = some d) :
    p.fill fields = fields := by
  unfold fill
  split
  · rename_i d hput
    exact Fields.insert_of_find? h (hthere d hput)
  · rfl

/-- No other default is put in the place of one that was put in. -/
theorem putIn?_putIn? {v d e : Json} (h : p.putIn? v = some d) (h' : p.putIn? d = some e) :
    e = d := by
  cases v with
  | null =>
    cases d with
    | null => exact Option.some.inj (h'.symm.trans h)
    | _ => cases h'
  | _ => cases h

/-- A default is put in for a parameter that may be left out, and was. -/
theorem putIn?_eq_some_iff {v d : Json} :
    p.putIn? v = some d ↔ p.required = false ∧ v = .null ∧ p.default = some d := by
  cases v with
  | null => cases hrequired : p.required <;> simp [putIn?, hrequired]
  | _ => simp [putIn?]

/-! ## Arguments as they are declared -/

/-- The arguments have a parameter as it is declared: one that must be given
has a value of its kind, and any other has one, or null, or none. -/
structure Fits (p : ParameterSchema) (fields : Fields) : Prop where
  mandatory : p.required = true →
    ∃ v, fields.find? p.name = some v ∧ v ≠ .null ∧ p.type.accepts v = true
  optional : p.required = false →
    ∀ v, fields.find? p.name = some v → v = .null ∨ p.type.accepts v = true

theorem accepts_null (t : ParamType) : t.accepts .null = false := by
  cases t <;> rfl

theorem violation?_eq_none_iff {v : Json} :
    p.violation? v = none ↔ v = .null ∧ p.required = false ∨ p.type.accepts v = true := by
  cases v with
  | null => simp [violation?, accepts_null]
  | _ => simp [violation?]

theorem fits_iff : p.Fits fields ↔ p.violation? (fields.given p.name) = none := by
  rw [violation?_eq_none_iff]
  unfold Fields.given
  constructor
  · intro h
    cases hrequired : p.required with
    | true =>
      obtain ⟨v, hv, -, haccepts⟩ := h.mandatory hrequired
      simp [hv, haccepts]
    | false =>
      cases hfind : fields.find? p.name with
      | none => simp
      | some v => simpa using h.optional hrequired v hfind
  · intro h
    constructor
    case mandatory =>
      intro hrequired
      simp only [hrequired, Bool.true_eq_false, and_false, false_or] at h
      cases hfind : fields.find? p.name with
      | none => simp [hfind, accepts_null] at h
      | some v =>
        rw [hfind, Option.getD_some] at h
        refine ⟨v, rfl, ?_, h⟩
        intro hnull
        rw [hnull, accepts_null] at h
        cases h
    case optional =>
      intro hoptional v hfind
      simpa [hfind, hoptional] using h

end ParameterSchema

namespace ToolSpec

variable {s : ToolSpec} {fields : Fields}

/-! ## All parameters -/

/-- The fields that are given: null stands for none. -/
def argumentFields? : Json → Option Fields
  | .null => some []
  | .object fields => some fields
  | _ => none

/-- All that is wrong with some arguments, in the order of the parameters. -/
def violations (s : ToolSpec) (fields : Fields) : List FieldViolation :=
  s.parameters.filterMap fun p => p.violation? (fields.given p.name)

/-- Arguments in which all defaults are put in. -/
def filled (s : ToolSpec) (fields : Fields) : Fields :=
  s.parameters.foldl (fun acc p => p.fill acc) fields

theorem given_fill_of_mem {p : ParameterSchema} {rest : List ParameterSchema}
    (h : p.name ∉ rest.map (·.name)) {q : ParameterSchema} (hq : q ∈ rest) :
    (p.fill fields).given q.name = fields.given q.name := by
  apply ParameterSchema.given_fill_of_ne
  intro hname
  exact h (List.mem_map.mpr ⟨q, hq, hname⟩)

/-- Parameters with distinct names are checked and filled in each on its own. -/
theorem checkParameters_eq {ps : List ParameterSchema} (h : (ps.map (·.name)).Nodup)
    (fields : Fields) : checkParameters ps fields =
      (ps.foldl (fun acc p => p.fill acc) fields,
        ps.filterMap fun p => p.violation? (fields.given p.name)) := by
  induction ps generalizing fields with
  | nil => rfl
  | cons p rest ih =>
    obtain ⟨hfirst, hrest⟩ := List.nodup_cons.mp h
    have hsame : (rest.filterMap fun q => q.violation? ((p.fill fields).given q.name)) =
        rest.filterMap fun q => q.violation? (fields.given q.name) :=
      List.filterMap_congr fun q hq => by rw [given_fill_of_mem hfirst hq]
    rw [checkParameters, ParameterSchema.checkParameter_eq, List.foldl_cons,
      List.filterMap_cons]
    cases hviolation : p.violation? (fields.given p.name) with
    | some violation =>
      simp only [ih hrest, ParameterSchema.fill_of_violation? hviolation]
    | none => simp only [ih hrest, hsame]

/-- Fields are filled if nothing is wrong with them. -/
theorem validateArguments_object (h : (s.parameters.map (·.name)).Nodup) (fields : Fields) :
    s.validateArguments (.object fields) =
      if (s.violations fields).isEmpty then .ok (s.filled fields)
      else .error (s.violations fields) := by
  unfold validateArguments
  dsimp only
  rw [checkParameters_eq h]
  unfold violations filled
  cases s.parameters.filterMap fun p => p.violation? (fields.given p.name) <;> rfl

/-- Arguments are filled if they are fields, or null, and nothing is wrong with
them. -/
theorem validateArguments_eq (h : (s.parameters.map (·.name)).Nodup) (arguments : Json) :
    s.validateArguments arguments =
      match argumentFields? arguments with
      | none => .error [.notAnObject arguments]
      | some fields =>
        if (s.violations fields).isEmpty then .ok (s.filled fields)
        else .error (s.violations fields) := by
  cases arguments with
  | null => exact validateArguments_object h []
  | object fields => exact validateArguments_object h fields
  | _ => rfl

theorem validateArguments_ok_iff (h : (s.parameters.map (·.name)).Nodup) {arguments : Json}
    {accepted : Fields} : s.validateArguments arguments = .ok accepted ↔
      ∃ fields, argumentFields? arguments = some fields ∧ s.violations fields = [] ∧
        accepted = s.filled fields := by
  rw [validateArguments_eq h]
  cases argumentFields? arguments with
  | none => simp
  | some fields =>
    have hsame : s.filled fields = accepted ↔ accepted = s.filled fields := eq_comm
    cases hviolations : s.violations fields with
    | nil => simpa [hviolations] using hsame
    | cons violation rest => simp [hviolations]

/-! ## What filling in changes -/

theorem find?_foldl_fill_of_not_mem {ps : List ParameterSchema} {name : String}
    (h : name ∉ ps.map (·.name)) (fields : Fields) :
    (ps.foldl (fun acc p => p.fill acc) fields).find? name = fields.find? name := by
  induction ps generalizing fields with
  | nil => rfl
  | cons p rest ih =>
    rw [List.map_cons, List.mem_cons, not_or] at h
    rw [List.foldl_cons, ih h.2, ParameterSchema.find?_fill_of_ne h.1]

theorem find?_foldl_fill {ps : List ParameterSchema} (h : (ps.map (·.name)).Nodup)
    {p : ParameterSchema} (hp : p ∈ ps) (fields : Fields) :
    (ps.foldl (fun acc p => p.fill acc) fields).find? p.name =
      (p.putIn? (fields.given p.name)).or (fields.find? p.name) := by
  induction ps generalizing fields with
  | nil => cases hp
  | cons q rest ih =>
    obtain ⟨hfirst, hrest⟩ := List.nodup_cons.mp h
    rw [List.foldl_cons]
    rcases List.mem_cons.mp hp with rfl | hp
    · rw [find?_foldl_fill_of_not_mem hfirst, ParameterSchema.find?_fill_self]
    · have hne : p.name ≠ q.name := by
        intro hname
        exact hfirst (List.mem_map.mpr ⟨p, hp, hname⟩)
      rw [ih hrest hp, ParameterSchema.given_fill_of_ne hne, ParameterSchema.find?_fill_of_ne hne]

/-- A parameter has its default where that is put in, and its own value
otherwise. -/
theorem find?_filled (h : (s.parameters.map (·.name)).Nodup) {p : ParameterSchema}
    (hp : p ∈ s.parameters) (fields : Fields) :
    (s.filled fields).find? p.name =
      (p.putIn? (fields.given p.name)).or (fields.find? p.name) :=
  find?_foldl_fill h hp fields

/-- What is no parameter keeps its value. -/
theorem find?_filled_of_not_mem {name : String} (h : name ∉ s.parameters.map (·.name))
    (fields : Fields) : (s.filled fields).find? name = fields.find? name :=
  find?_foldl_fill_of_not_mem h fields

theorem given_filled (h : (s.parameters.map (·.name)).Nodup) {p : ParameterSchema}
    (hp : p ∈ s.parameters) (fields : Fields) :
    (s.filled fields).given p.name =
      (p.putIn? (fields.given p.name)).getD (fields.given p.name) := by
  unfold Fields.given
  rw [find?_filled h hp, Option.getD_or]
  rfl

theorem ascending_filled (h : fields.Ascending) : (s.filled fields).Ascending := by
  unfold filled
  induction s.parameters generalizing fields with
  | nil => exact h
  | cons p rest ih => exact ih (ParameterSchema.ascending_fill h)

/-- What has been filled in is not filled in again. -/
theorem filled_filled (h : (s.parameters.map (·.name)).Nodup) (hfields : fields.Ascending) :
    s.filled (s.filled fields) = s.filled fields := by
  have hparameter : ∀ p ∈ s.parameters, p.fill (s.filled fields) = s.filled fields := by
    intro p hp
    refine ParameterSchema.fill_eq_self (ascending_filled hfields) ?_
    intro d hput
    rw [given_filled h hp] at hput
    rw [find?_filled h hp]
    cases hfirst : p.putIn? (fields.given p.name) with
    | none => simp [hfirst] at hput
    | some e =>
      rw [hfirst, Option.getD_some] at hput
      rw [ParameterSchema.putIn?_putIn? hfirst hput]
      rfl
  generalize s.filled fields = result at hparameter
  unfold filled
  generalize s.parameters = ps at hparameter
  induction ps with
  | nil => rfl
  | cons p rest ih =>
    obtain ⟨hp, hrest⟩ := List.forall_mem_cons.mp hparameter
    rw [List.foldl_cons, hp]
    exact ih hrest

/-! ## Arguments that are handed on -/

/-- The arguments have all parameters as they are declared. -/
def Conforms (s : ToolSpec) (fields : Fields) : Prop := ∀ p ∈ s.parameters, p.Fits fields

/-- What a parameter gets if it is left out is as the parameter is declared. -/
def SoundDefaults (s : ToolSpec) : Prop :=
  ∀ p ∈ s.parameters, p.required = false →
    ∀ d, p.default = some d → d = .null ∨ p.type.accepts d = true

/-- Nothing is found wrong with arguments exactly if they are as declared. -/
theorem violations_eq_nil_iff : s.violations fields = [] ↔ s.Conforms fields := by
  unfold violations Conforms
  rw [List.filterMap_eq_nil_iff]
  exact forall₂_congr fun p _ => ParameterSchema.fits_iff.symm

/-- Arguments that were filled in pass a second time exactly if they are as
declared, and then nothing is changed. -/
theorem validateArguments_filled_iff (h : (s.parameters.map (·.name)).Nodup)
    (hfields : fields.Ascending) :
    s.validateArguments (.object (s.filled fields)) = .ok (s.filled fields) ↔
      s.Conforms (s.filled fields) := by
  rw [validateArguments_ok_iff h, ← violations_eq_nil_iff]
  constructor
  · intro hagain
    obtain ⟨again, hagain, hnone, -⟩ := hagain
    cases hagain
    exact hnone
  · intro hnone
    exact ⟨s.filled fields, rfl, hnone, (filled_filled h hfields).symm⟩

/-- What was accepted fits, but for defaults that do not. -/
theorem fits_filled_iff (h : (s.parameters.map (·.name)).Nodup)
    (haccepted : s.violations fields = [])
    {p : ParameterSchema} (hp : p ∈ s.parameters) :
    p.Fits (s.filled fields) ↔
      ∀ d, p.putIn? (fields.given p.name) = some d → d = .null ∨ p.type.accepts d = true := by
  rw [ParameterSchema.fits_iff, given_filled h hp]
  cases hput : p.putIn? (fields.given p.name) with
  | none =>
    have hfits := violations_eq_nil_iff.mp haccepted p hp
    simpa using ParameterSchema.fits_iff.mp hfits
  | some d =>
    obtain ⟨hoptional, -, -⟩ := ParameterSchema.putIn?_eq_some_iff.mp hput
    simp [ParameterSchema.violation?_eq_none_iff, hoptional]

end ToolSpec

/-! ## Arguments without what may be left out -/

/-- A value of a kind. -/
def ParamType.sample : ParamType → Json
  | .string => .string ""
  | .number => .int 0
  | .integer => .int 0
  | .boolean => .bool false
  | .object => .object []
  | .array => .array []

theorem ParamType.accepts_sample (t : ParamType) : t.accepts t.sample = true := by
  cases t <;> rfl

theorem ParamType.wellFormed_sample (t : ParamType) : t.sample.WellFormed := by
  cases t <;> rfl

namespace ToolSpec

variable {s : ToolSpec}

/-- A value for each parameter that must be given, and nothing else. -/
def samples (s : ToolSpec) : List (String × Json) :=
  (s.parameters.filter (·.required)).map fun p => (p.name, p.type.sample)

theorem samples_nodup (h : (s.parameters.map (·.name)).Nodup) : (s.samples.map (·.1)).Nodup := by
  have hsublist : (s.samples.map (·.1)).Sublist (s.parameters.map (·.name)) := by
    unfold samples
    rw [List.map_map]
    exact List.filter_sublist.map _
  exact hsublist.nodup h

theorem wellFormed_samples (s : ToolSpec) : (Json.object (Fields.ofList s.samples)).WellFormed := by
  rw [Json.wellFormed_object]
  refine ⟨Fields.ofList_ascending s.samples, ?_⟩
  intro f hf
  obtain ⟨p, -, rfl⟩ := List.mem_map.mp (Fields.mem_of_mem_ofList hf)
  exact p.type.wellFormed_sample

theorem find?_samples (h : (s.parameters.map (·.name)).Nodup) {p : ParameterSchema}
    (hp : p ∈ s.parameters) : (Fields.ofList s.samples).find? p.name =
      if p.required = true then some p.type.sample else none := by
  split
  · rename_i hrequired
    have hmem : (p.name, p.type.sample) ∈ s.samples :=
      List.mem_map_of_mem (f := fun p => (p.name, p.type.sample))
        (List.mem_filter.mpr ⟨hp, hrequired⟩)
    exact Fields.find?_ofList (samples_nodup h) hmem
  · rename_i hoptional
    apply Fields.find?_ofList_of_not_mem
    intro hname
    unfold samples at hname
    simp only [List.map_map, List.mem_map, List.mem_filter, Function.comp_apply] at hname
    obtain ⟨q, ⟨hq, hrequired⟩, hname⟩ := hname
    have hsame : q = p := List.inj_on_of_nodup_map h hq hp hname
    exact hoptional (hsame ▸ hrequired)

theorem conforms_samples (h : (s.parameters.map (·.name)).Nodup) :
    s.Conforms (Fields.ofList s.samples) := by
  intro p hp
  have hfind := find?_samples h hp
  constructor
  case mandatory =>
    intro hrequired
    rw [hrequired, if_pos rfl] at hfind
    refine ⟨p.type.sample, hfind, ?_, p.type.accepts_sample⟩
    cases p.type <;> simp [ParamType.sample]
  case optional =>
    intro hoptional v hv
    simp [hfind, hoptional] at hv

end ToolSpec

/-! ## What tools are handed -/

namespace Registry

variable {σ : Type} {r : Registry (Executor σ)} {request : ToolCallRequest}
  {tool : RegisteredTool (Executor σ)} {arguments : Fields}

/-- What a run is handed: the arguments of its call, filled in. -/
theorem Built.handed (h : r.Built) (hruns : r.Runs request tool arguments) :
    ∃ fields, ToolSpec.argumentFields? request.arguments = some fields ∧
      tool.spec.violations fields = [] ∧ arguments = tool.spec.filled fields :=
  (ToolSpec.validateArguments_ok_iff (h.parameters_nodup hruns.registered)).mp hruns.accepted

theorem ascending_argumentFields {v : Json} (hwell : v.WellFormed) {fields : Fields}
    (h : ToolSpec.argumentFields? v = some fields) : fields.Ascending := by
  cases v with
  | null =>
    cases h
    exact List.Pairwise.nil
  | object given =>
    cases h
    exact (Json.wellFormed_object.mp hwell).1
  | _ => cases h

theorem given_of_argumentFields {v : Json} {fields : Fields}
    (h : ToolSpec.argumentFields? v = some fields) (name : String) :
    fields.given name = (v.field? name).getD .null := by
  cases v with
  | null =>
    cases h
    rfl
  | object given =>
    cases h
    rfl
  | _ => cases h

/-- Whatever a call starts is handed arguments that are as its tool declares
them; checked again they are accepted as they are. -/
def HandsConforming (r : Registry (Executor σ)) (world : σ) : Prop :=
  ∀ limit request name arguments, request.arguments.WellFormed →
    (name, arguments) ∈ r.starts limit request world →
    ∃ tool ∈ r.tools, tool.spec.name = name ∧ tool.spec.Conforms arguments ∧
      tool.spec.validateArguments (.object arguments) = .ok arguments

theorem Built.fits_or_default (h : r.Built) (hruns : r.Runs request tool arguments)
    {p : ParameterSchema} (hp : p ∈ tool.spec.parameters) :
    p.Fits arguments ∨
      p.required = false ∧ (request.arguments.field? p.name).getD .null = .null ∧
        ∃ d, p.default = some d ∧ arguments.find? p.name = some d := by
  have hnames := h.parameters_nodup hruns.registered
  obtain ⟨fields, hgiven, haccepted, rfl⟩ := h.handed hruns
  cases hput : p.putIn? (fields.given p.name) with
  | none =>
    refine Or.inl ((ToolSpec.fits_filled_iff hnames haccepted hp).mpr ?_)
    simp [hput]
  | some d =>
    obtain ⟨hoptional, hnull, hdefault⟩ := ParameterSchema.putIn?_eq_some_iff.mp hput
    rw [given_of_argumentFields hgiven] at hnull
    refine Or.inr ⟨hoptional, hnull, d, hdefault, ?_⟩
    rw [ToolSpec.find?_filled hnames hp, hput]
    rfl

theorem Built.accepted_again_iff (h : r.Built) (hruns : r.Runs request tool arguments)
    (hwell : request.arguments.WellFormed) :
    tool.spec.validateArguments (.object arguments) = .ok arguments ↔
      tool.spec.Conforms arguments := by
  obtain ⟨fields, hgiven, -, rfl⟩ := h.handed hruns
  exact ToolSpec.validateArguments_filled_iff (h.parameters_nodup hruns.registered)
    (ascending_argumentFields hwell hgiven)

theorem Built.conforms_of_sound (h : r.Built) (hruns : r.Runs request tool arguments)
    (hsound : tool.spec.SoundDefaults) : tool.spec.Conforms arguments := by
  intro p hp
  obtain ⟨fields, -, haccepted, rfl⟩ := h.handed hruns
  refine (ToolSpec.fits_filled_iff (h.parameters_nodup hruns.registered) haccepted hp).mpr ?_
  intro d hput
  obtain ⟨hoptional, -, hdefault⟩ := ParameterSchema.putIn?_eq_some_iff.mp hput
  exact hsound p hp hoptional d hdefault

/-- A tool can be run without anything that may be left out. -/
theorem Built.runs_samples (h : r.Built) (htool : tool ∈ r.tools) (id : CallId) :
    r.Runs ⟨id, tool.spec.name, .object (Fields.ofList tool.spec.samples)⟩ tool
      (tool.spec.filled (Fields.ofList tool.spec.samples)) where
  registered := htool
  named := rfl
  accepted := by
    have hnames := h.parameters_nodup htool
    rw [ToolSpec.validateArguments_ok_iff hnames]
    exact ⟨_, rfl, ToolSpec.violations_eq_nil_iff.mpr (ToolSpec.conforms_samples hnames), rfl⟩

theorem Built.sound_of_handsConforming (h : r.Built) {world : σ} (hall : r.HandsConforming world)
    (htool : tool ∈ r.tools) : tool.spec.SoundDefaults := by
  intro p hp hoptional d hdefault
  have hnames := h.parameters_nodup htool
  have hruns := h.runs_samples htool (.numbered 0)
  obtain ⟨other, hother, hname, hconforms, -⟩ := hall none _ _ _
    (ToolSpec.wellFormed_samples tool.spec)
    ((h.mem_starts_iff none world).mpr ⟨rfl, tool, hruns⟩)
  rw [h.tool_unique hother htool hname] at hconforms
  have hfind := ToolSpec.find?_samples hnames hp
  have hput : p.putIn? ((Fields.ofList tool.spec.samples).given p.name) = some d := by
    rw [ParameterSchema.putIn?_eq_some_iff]
    exact ⟨hoptional, by simp [Fields.given, hfind, hoptional], hdefault⟩
  have haccepted := ToolSpec.violations_eq_nil_iff.mpr (ToolSpec.conforms_samples hnames)
  exact (ToolSpec.fits_filled_iff hnames haccepted hp).mp (hconforms p hp) d hput

/-- What is handed to tools is as they declare it, but for defaults that are
put in where a parameter was left out; if it is, and only then, it is accepted
again as it is. It always is exactly if every default is null or of the kind of
its parameter. -/
theorem handed_arguments (h : r.Built) (world : σ) :
    (∀ limit request name arguments, request.arguments.WellFormed →
      (name, arguments) ∈ r.starts limit request world →
      ∃ tool ∈ r.tools, tool.spec.name = name ∧
        (∀ p ∈ tool.spec.parameters, p.Fits arguments ∨
          p.required = false ∧ (request.arguments.field? p.name).getD .null = .null ∧
            ∃ d, p.default = some d ∧ arguments.find? p.name = some d) ∧
        (tool.spec.validateArguments (.object arguments) = .ok arguments ↔
          tool.spec.Conforms arguments)) ∧
    (r.HandsConforming world ↔ ∀ tool ∈ r.tools, tool.spec.SoundDefaults) := by
  refine ⟨?_, ?_, ?_⟩
  · intro limit request name arguments hwell hstarts
    obtain ⟨rfl, tool, hruns⟩ := (h.mem_starts_iff limit world).mp hstarts
    exact ⟨tool, hruns.registered, hruns.named, fun p hp => h.fits_or_default hruns hp,
      h.accepted_again_iff hruns hwell⟩
  · intro hall tool htool
    exact h.sound_of_handsConforming hall htool
  · intro hsound limit request name arguments hwell hstarts
    obtain ⟨rfl, tool, hruns⟩ := (h.mem_starts_iff limit world).mp hstarts
    have hconforms := h.conforms_of_sound hruns (hsound tool hruns.registered)
    exact ⟨tool, hruns.registered, hruns.named, hconforms,
      (h.accepted_again_iff hruns hwell).mpr hconforms⟩

/-- A tool that looks something up, with a default for how much it finds. -/
def searchTool (default : Json) : RegisteredTool (Executor Unit) where
  spec := ⟨"search", "", [.mandatory "query" .string "",
    (ParameterSchema.optional "limit" .integer "").withDefault default]⟩
  executor := fun arguments world => (⟨none, some (0, .value (.object arguments))⟩, world)

/-- That tool on offer. -/
def searching (default : Json) : Registry (Executor Unit) := empty.registered (searchTool default)

theorem built_searching (default : Json) : (searching default).Built := .register _ .empty

theorem soundDefaults_searchTool {default : Json} :
    (searchTool default).spec.SoundDefaults ↔
      default = .null ∨ ParamType.integer.accepts default = true := by
  simp [ToolSpec.SoundDefaults, searchTool, ParameterSchema.mandatory, ParameterSchema.optional,
    ParameterSchema.withDefault]

/-- All arguments that the tool is handed are right if its default is, and with
a wrong default those that have the field are. -/
theorem handed_with_sound_default :
    (searching (.int 10)).HandsConforming () ∧ ¬ (searching (.string "ten")).HandsConforming () ∧
      ∃ tool ∈ (searching (.string "ten")).tools, tool.spec.name = "search" ∧
        (tool.spec.validateArguments (.object [("limit", .int 3), ("query", .string "lean")]) =
            .ok [("limit", .int 3), ("query", .string "lean")] ↔
          tool.spec.Conforms [("limit", .int 3), ("query", .string "lean")]) := by
  have hten := handed_arguments (built_searching (.int 10)) ()
  have hword := handed_arguments (built_searching (.string "ten")) ()
  refine ⟨hten.2.mpr ?_, ?_, ?_⟩
  · intro tool htool
    rw [List.mem_singleton.mp htool]
    exact soundDefaults_searchTool.mpr (Or.inr rfl)
  · intro hall
    have hsound := hword.2.mp hall (searchTool (.string "ten")) List.mem_cons_self
    rw [soundDefaults_searchTool] at hsound
    simp [ParamType.accepts] at hsound
  · obtain ⟨tool, htool, hname, -, hagain⟩ := hword.1 none
      ⟨.numbered 1, "search", .object [("limit", .int 3), ("query", .string "lean")]⟩ "search"
      [("limit", .int 3), ("query", .string "lean")] rfl List.mem_cons_self
    exact ⟨tool, htool, hname, hagain⟩

/-- A default of another kind reaches the tool, which is refused where it is
given. -/
theorem unsound_default_handed :
    (searching (.string "ten")).Built ∧
    (searching (.string "ten")).starts none
        ⟨.numbered 1, "search", .object [("query", .string "lean")]⟩ () =
      [("search", [("limit", .string "ten"), ("query", .string "lean")])] ∧
    (searchTool (.string "ten")).spec.validateArguments
        (.object [("limit", .string "ten"), ("query", .string "lean")]) =
      .error [.wrongKind "limit" .integer (.string "ten")] ∧
    ¬ (searching (.string "ten")).HandsConforming () := by
  refine ⟨built_searching _, rfl, rfl, ?_⟩
  intro hall
  obtain ⟨tool, htool, -, -, hagain⟩ := hall none
    ⟨.numbered 1, "search", .object [("query", .string "lean")]⟩ "search"
    [("limit", .string "ten"), ("query", .string "lean")] rfl List.mem_cons_self
  rw [List.mem_singleton.mp htool] at hagain
  cases hagain

end Registry

end AgentLoop
