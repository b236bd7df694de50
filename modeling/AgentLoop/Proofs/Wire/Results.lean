/-
AgentLoop.Proofs.Wire.Results — what comes of tool calls, on the wire and back.

* `ToolCallResult.WellFormed` — the content is a value that a text can stand for
* `FieldViolation.faithful`, `ToolFailure.faithful`, `ToolCallResult.faithful` —
  violations, failures and results are read as they were written, and what is
  read can be written

A failure without violations is written without the field. The list that is
read in its place is the empty one.
-/
import AgentLoop.Proofs.Wire.Replies
import AgentLoop.Tool.Result

namespace AgentLoop

open Json (Faithful Reads)

attribute [local simp] Json.record Json.namedMembers Json.Member.of Json.Given.required
  Json.Given.withDefault Json.Node.fieldsWithin Bind.bind Except.bind Pure.pure Except.pure
  Except.map List.lookup_cons

namespace FieldViolation

theorem depth_toJson (v : FieldViolation) : v.toJson.depth = 1 := rfl

theorem faithful : Faithful toJson reader (fun _ => True) 1 where
  legible v _ := Json.legible_object (by simp)
  reads v _ := Reads.object fun room _ => by
    have hfield := Faithful.text.reads v.field trivial room (Nat.zero_le _)
    have hreason := Faithful.text.reads v.reason trivial room (Nat.zero_le _)
    simp [reader, hfield, hreason]
  sound _ _ := ⟨trivial, Nat.le_max_right _ _⟩

end FieldViolation

namespace ToolFailure

theorem violations_faithful :
    Faithful (fun vs => .array (vs.map FieldViolation.toJson)) FieldViolation.reader.list
      (fun vs => ∀ v ∈ vs, True) 2 :=
  FieldViolation.faithful.list

/-- The field of the violations is left out if there are none. -/
theorem toJson_eq (kind : ToolErrorKind) (message : String) (violations : List FieldViolation) :
    toJson ⟨kind, message, violations⟩ = .object (("kind", .string kind.name) ::
      ("message", .string message) ::
      match violations with
      | [] => []
      | _ :: _ => [("violations", .array (violations.map FieldViolation.toJson))]) := by
  cases violations <;> rfl

theorem depth_toJson_le (f : ToolFailure) : f.toJson.depth ≤ 3 := by
  obtain ⟨kind, message, violations⟩ := f
  have hrow : (Json.array (violations.map FieldViolation.toJson)).depth ≤ 2 := by
    rw [Json.depth_array_le, List.forall_mem_map]
    exact ⟨Nat.two_pos, fun v _ => Nat.le_of_eq v.depth_toJson⟩
  rw [toJson_eq, Json.depth_object_le]
  cases violations with
  | nil => simp [Json.depth]
  | cons v rest => simpa [Json.depth] using hrow

theorem faithful : Faithful toJson reader (fun _ => True) 3 where
  legible f _ := by
    obtain ⟨kind, message, violations⟩ := f
    have hrow := violations_faithful.legible violations fun _ _ => trivial
    rw [toJson_eq]
    cases violations with
    | nil => exact Json.legible_object (by simp)
    | cons v rest => exact Json.legible_object (by simpa using hrow)
  reads f _ := by
    obtain ⟨kind, message, violations⟩ := f
    have hlist := violations_faithful.reads violations fun _ _ => trivial
    rw [toJson_eq]
    refine Reads.object fun room hroom => ?_
    have hkind := (Faithful.oneOf ToolErrorKind.lookup_name false).reads kind trivial room
      (Nat.zero_le _)
    have hmessage := Faithful.text.reads message trivial room (Nat.zero_le _)
    cases violations with
    | nil => simp [reader, hkind, hmessage]
    | cons v rest =>
      have hrow := hlist room (hroom ("violations", _) (by simp))
      rw [List.map_cons] at hrow
      simp [reader, hkind, hmessage, hrow]
  sound _ _ := ⟨trivial, Nat.le_trans (depth_toJson_le _) (Nat.le_max_right _ _)⟩

end ToolFailure

namespace ToolCallResult

/-- The content is a value that a text can stand for. -/
def WellFormed (r : ToolCallResult) : Prop := r.content.WellFormed

theorem depth_toJson_le {r : ToolCallResult} {room : Nat} :
    r.toJson.depth ≤ room ↔ 0 < room ∧ r.content.depth ≤ room - 1 := by
  rw [toJson, Json.depth_object_le]
  simp [Json.depth]

theorem faithful : Faithful toJson reader WellFormed 0 where
  legible r h := Json.legible_object (by simp [Json.WellFormed.legible h])
  reads r h := Reads.object fun room hroom => by
    have hid := CallId.faithful.reads r.callId trivial room (Nat.zero_le _)
    have hstatus := (Faithful.oneOf ToolStatus.lookup_name false).reads r.status trivial room
      (Nat.zero_le _)
    have hcontent := Faithful.value.reads r.content h room
      (hroom ("content", r.content) (by simp))
    simp [reader, hid, hstatus, hcontent]
  sound := by
    intro room n r hn h
    obtain ⟨g, hg, h⟩ := Json.ok_of_bind h
    obtain ⟨id, -, h⟩ := Json.ok_of_bind h
    obtain ⟨status, -, h⟩ := Json.ok_of_bind h
    obtain ⟨content, hcontent, h⟩ := Json.ok_of_bind h
    cases h
    obtain ⟨hroom, hvalues⟩ := Json.sound_of_record hn hg
    obtain ⟨hwell, hdepth⟩ := Faithful.value.required hvalues hcontent
    rw [Nat.max_zero] at hdepth ⊢
    exact ⟨hwell, depth_toJson_le.mpr ⟨hroom, hdepth⟩⟩

end ToolCallResult

end AgentLoop
