/-
AgentLoop.Proofs.Tool.Violations — what a check of arguments reports, and what
it changes.

* `Json.OfKind`, `ParamType.accepts_iff` — the values of a kind
* `Fields.LeftOut` — a field that is absent or null
* `ParameterSchema.Violated` — what can be wrong with an argument
* `Reports` — all that is wrong, one violation for each parameter
* `Fields.Completes` — fields in which what was left out has its default
* `ToolSpec.validateArguments_exact` — a check reports exactly what is wrong, and
  otherwise completes what it was given

The rules are stated on the fields as they were given. That a default may be put
in before the next parameter is looked at is no part of them: parameters have
distinct names, so it is seen nowhere.
-/
import AgentLoop.Proofs.Tool.Arguments

namespace AgentLoop

/-! ## Kinds and fields -/

/-- The values of the kind with a name. A whole number is an integer, and any
number is a number. -/
def Json.OfKind (kind : String) : Json → Prop
  | .null => False
  | .bool _ => kind = "boolean"
  | .int _ => kind = "integer" ∨ kind = "number"
  | .float _ => kind = "number"
  | .string _ => kind = "string"
  | .array _ => kind = "array"
  | .object _ => kind = "object"

/-- A parameter takes the values of the kind that it is declared with. -/
theorem ParamType.accepts_iff {t : ParamType} {v : Json} :
    t.accepts v = true ↔ v.OfKind t.name := by
  cases t <;> cases v <;> simp [accepts, name, Json.OfKind]

namespace Fields

/-- A field is absent or null. -/
def LeftOut (fields : Fields) (key : String) : Prop :=
  ∀ v, fields.find? key = some v → v = .null

theorem leftOut_iff {fields : Fields} {key : String} :
    fields.LeftOut key ↔ fields.given key = .null := by
  unfold LeftOut given
  cases fields.find? key <;> simp

/-- The fields `filled` are the fields `fields` in which each one that was left
out has its default, if there is one. Every other field has the value that it
had. -/
structure Completes (default : String → Json → Prop) (fields filled : Fields) : Prop where
  put_in : ∀ key d, default key d → fields.LeftOut key → filled.find? key = some d
  kept : ∀ key, (∀ d, default key d → ¬ fields.LeftOut key) →
    filled.find? key = fields.find? key
  ascending : fields.Ascending → filled.Ascending

end Fields

/-! ## What is wrong -/

/-- What can be wrong with the argument of a parameter: it must be given and is
absent or null, or it is given and is of another kind. -/
inductive ParameterSchema.Violated (p : ParameterSchema) (fields : Fields) :
    FieldViolation → Prop
  | missing (required : p.required = true) (left_out : fields.LeftOut p.name) :
      Violated p fields ⟨p.name, "missing required field"⟩
  | other_kind {v : Json} (present : fields.find? p.name = some v) (not_null : v ≠ .null)
      (other : ¬ v.OfKind p.type.name) :
      Violated p fields ⟨p.name, "expected " ++ p.type.name ++ ", got " ++ v.kindName⟩

/-- One violation for each parameter with which something is wrong, in the order
of the parameters. -/
inductive Reports (fields : Fields) : List ParameterSchema → List FieldViolation → Prop
  | nil : Reports fields [] []
  | wrong {p : ParameterSchema} {ps : List ParameterSchema} {violation : FieldViolation}
      {violations : List FieldViolation} (here : p.Violated fields violation)
      (rest : Reports fields ps violations) : Reports fields (p :: ps) (violation :: violations)
  | right {p : ParameterSchema} {ps : List ParameterSchema} {violations : List FieldViolation}
      (here : ∀ violation, ¬ p.Violated fields violation)
      (rest : Reports fields ps violations) : Reports fields (p :: ps) violations

namespace ParameterSchema

variable {p : ParameterSchema} {fields : Fields}

theorem violation?_eq_some_iff {violation : FieldViolation} :
    p.violation? (fields.given p.name) = some violation ↔ p.Violated fields violation := by
  constructor
  · intro h
    cases hgiven : fields.given p.name with
    | null =>
      rw [hgiven] at h
      cases hrequired : p.required with
      | true =>
        simp only [violation?, hrequired, if_true, Option.some.injEq] at h
        subst h
        exact .missing hrequired (Fields.leftOut_iff.mpr hgiven)
      | false => simp [violation?, hrequired] at h
    | _ =>
      have hpresent : fields.find? p.name = some (fields.given p.name) := by
        unfold Fields.given at hgiven ⊢
        cases hfind : fields.find? p.name with
        | none => simp [hfind] at hgiven
        | some v => rfl
      rw [hgiven] at h hpresent
      simp only [violation?, Option.ite_none_left_eq_some, Option.some.injEq] at h
      obtain ⟨hother, rfl⟩ := h
      exact .other_kind hpresent (by simp) fun hkind => hother (ParamType.accepts_iff.mpr hkind)
  · intro h
    cases h with
    | missing required left_out =>
      rw [Fields.leftOut_iff.mp left_out]
      simp [violation?, required, FieldViolation.missing]
    | @other_kind v present not_null other =>
      have hgiven : fields.given p.name = v := by simp [Fields.given, present]
      have hrefused : ¬ p.type.accepts v = true := fun haccepts =>
        other (ParamType.accepts_iff.mp haccepts)
      rw [hgiven]
      cases v with
      | null => exact absurd rfl not_null
      | _ => simp only [violation?, if_neg hrefused, FieldViolation.wrongKind]

theorem violation?_eq_none_iff_right :
    p.violation? (fields.given p.name) = none ↔ ∀ violation, ¬ p.Violated fields violation := by
  rw [Option.eq_none_iff_forall_ne_some]
  exact forall_congr' fun violation => not_congr violation?_eq_some_iff

end ParameterSchema

/-- What is reported is what is found wrong with one parameter after the other. -/
theorem reports_iff {fields : Fields} {ps : List ParameterSchema}
    {violations : List FieldViolation} : Reports fields ps violations ↔
      ps.filterMap (fun p => p.violation? (fields.given p.name)) = violations := by
  constructor
  · intro h
    induction h with
    | nil => rfl
    | wrong here rest ih =>
      simp only [List.filterMap_cons, ParameterSchema.violation?_eq_some_iff.mpr here, ih]
    | right here rest ih =>
      simp only [List.filterMap_cons, ParameterSchema.violation?_eq_none_iff_right.mpr here, ih]
  · rintro rfl
    induction ps with
    | nil => exact .nil
    | cons p rest ih =>
      rw [List.filterMap_cons]
      cases hviolation : p.violation? (fields.given p.name) with
      | some violation => exact .wrong (ParameterSchema.violation?_eq_some_iff.mp hviolation) ih
      | none => exact .right (ParameterSchema.violation?_eq_none_iff_right.mp hviolation) ih

/-! ## What is put in -/

namespace ToolSpec

variable {s : ToolSpec} {fields : Fields}

/-- What a parameter has if it may be left out, and is. -/
def HasDefault (s : ToolSpec) (key : String) (d : Json) : Prop :=
  ∃ p ∈ s.parameters, p.name = key ∧ p.required = false ∧ p.default = some d

/-- Defaults are put in where parameters were left out, and nothing else is
changed. -/
theorem completes_filled (h : (s.parameters.map (·.name)).Nodup) (fields : Fields) :
    Fields.Completes s.HasDefault fields (s.filled fields) where
  put_in := by
    rintro key d ⟨p, hp, rfl, hoptional, hdefault⟩ hleft
    have hput : p.putIn? (fields.given p.name) = some d :=
      ParameterSchema.putIn?_eq_some_iff.mpr ⟨hoptional, Fields.leftOut_iff.mp hleft, hdefault⟩
    rw [find?_filled h hp, hput]
    rfl
  kept := by
    intro key hnone
    by_cases hkey : key ∈ s.parameters.map (·.name)
    · obtain ⟨p, hp, rfl⟩ := List.mem_map.mp hkey
      rw [find?_filled h hp]
      cases hput : p.putIn? (fields.given p.name) with
      | none => rfl
      | some d =>
        obtain ⟨hoptional, hnull, hdefault⟩ := ParameterSchema.putIn?_eq_some_iff.mp hput
        exact absurd (Fields.leftOut_iff.mpr hnull) (hnone d ⟨p, hp, rfl, hoptional, hdefault⟩)
    · exact find?_filled_of_not_mem hkey fields
  ascending := ascending_filled

/-- A check of arguments against parameters with distinct names. What is neither
null nor an object has one violation, on `$`. Of the fields of an object, and of
none if it is null, exactly the violations are reported that there are, in the
order of the parameters; if there are none, the fields are handed on with the
defaults of what was left out, and otherwise as they were given. -/
theorem validateArguments_exact (h : (s.parameters.map (·.name)).Nodup) (arguments : Json) :
    (argumentFields? arguments = none → s.validateArguments arguments =
      .error [⟨"$", "expected an object of arguments, got " ++ arguments.kindName⟩]) ∧
    ∀ fields, argumentFields? arguments = some fields →
      (∀ violations, s.validateArguments arguments = .error violations ↔
        violations ≠ [] ∧ Reports fields s.parameters violations) ∧
      ((∃ filled, s.validateArguments arguments = .ok filled) ↔
        Reports fields s.parameters []) ∧
      ∀ filled, s.validateArguments arguments = .ok filled →
        Fields.Completes s.HasDefault fields filled := by
  rw [validateArguments_eq h]
  constructor
  · intro hnone
    rw [hnone]
    rfl
  · intro fields hfields
    have hreports : ∀ violations, Reports fields s.parameters violations ↔
        s.violations fields = violations := fun violations => reports_iff
    simp only [hfields, hreports]
    cases hviolations : s.violations fields with
    | nil =>
      refine ⟨?_, by simp, ?_⟩
      · intro violations
        simp only [List.isEmpty_nil, if_true, reduceCtorEq, false_iff, not_and]
        exact fun hne hnil => hne hnil.symm
      · intro filled hfilled
        simp only [List.isEmpty_nil, if_true, Except.ok.injEq] at hfilled
        rw [← hfilled]
        exact completes_filled h fields
    | cons violation rest =>
      refine ⟨?_, by simp, by simp⟩
      intro violations
      simp only [List.isEmpty_cons, Bool.false_eq_true, if_false, Except.error.injEq]
      constructor
      · rintro rfl
        exact ⟨by simp, rfl⟩
      · exact fun hsame => hsame.2

/-- A tool whose parameters must be given, may be left out for a default, null or
nothing. -/
def surveySpec : ToolSpec :=
  ⟨"survey", "Counts what it finds.", [.mandatory "query" .string "What to count",
    (ParameterSchema.optional "limit" .integer "How much").withDefault (.int 10),
    .optional "site" .string "Where", (ParameterSchema.optional "by" .object "").withDefault .null,
    (ParameterSchema.mandatory "exact" .boolean "").withDefault (.bool true)]⟩

theorem hasDefault_surveySpec {key : String} {d : Json} :
    surveySpec.HasDefault key d ↔ "limit" = key ∧ .int 10 = d ∨ "by" = key ∧ .null = d := by
  simp [HasDefault, surveySpec, ParameterSchema.mandatory, ParameterSchema.optional,
    ParameterSchema.withDefault]

/-- Both what is missing and what is of another kind is reported, a default does
not stand for what must be given, and what is accepted is completed. -/
theorem survey_checked :
    (surveySpec.parameters.map (·.name)).Nodup ∧
    surveySpec.validateArguments (.array []) =
      .error [⟨"$", "expected an object of arguments, got array"⟩] ∧
    surveySpec.validateArguments
        (.object [("exact", .null), ("limit", .string "ten"), ("query", .string "lean")]) =
      .error [⟨"limit", "expected integer, got string"⟩, ⟨"exact", "missing required field"⟩] ∧
    ∃ filled, surveySpec.validateArguments (.object [("exact", .bool false), ("limit", .null),
        ("mode", .int 1), ("query", .string "lean")]) = .ok filled ∧
      filled.find? "limit" = some (.int 10) ∧ filled.find? "by" = some .null ∧
      filled.find? "mode" = some (.int 1) ∧ filled.find? "site" = none := by
  have hnames : (surveySpec.parameters.map (·.name)).Nodup := by decide
  have hexact := validateArguments_exact hnames
  refine ⟨hnames, (hexact (.array [])).1 rfl, ?_, ?_⟩
  · exact (((hexact (.object _)).2 _ rfl).1 _).mpr ⟨by simp, reports_iff.mpr rfl⟩
  · obtain ⟨-, haccepted, hcompletes⟩ := (hexact (.object [("exact", .bool false),
      ("limit", .null), ("mode", .int 1), ("query", .string "lean")])).2 _ rfl
    obtain ⟨filled, hfilled⟩ := haccepted.mpr (reports_iff.mpr rfl)
    have hfields := hcompletes filled hfilled
    refine ⟨filled, hfilled, ?_, ?_, ?_, ?_⟩
    · exact hfields.put_in "limit" (.int 10) (hasDefault_surveySpec.mpr (.inl ⟨rfl, rfl⟩))
        (Fields.leftOut_iff.mpr rfl)
    · exact hfields.put_in "by" .null (hasDefault_surveySpec.mpr (.inr ⟨rfl, rfl⟩))
        (Fields.leftOut_iff.mpr rfl)
    · exact hfields.kept "mode" fun d hdefault => by simp [hasDefault_surveySpec] at hdefault
    · exact hfields.kept "site" fun d hdefault => by simp [hasDefault_surveySpec] at hdefault

end ToolSpec

end AgentLoop
