/-
AgentLoop.Proofs.Wire.Turns — how turns end, on the wire and back.

* `TurnErrorKind.faithful` — kinds of failure are read as they were written,
  whether they stand alone or were kept aside with the outcome around them
* `TurnOutcome.faithful` — so are the outcomes of turns

A kind of failure is told by a tag with the kind of the backend's failure beside
it, and stands inside a record with a tag of its own.
-/
import AgentLoop.Proofs.Wire.Replies
import AgentLoop.Turn.Outcome

namespace AgentLoop

open Json (Faithful Reads)

attribute [local simp] Json.record Json.namedMembers Json.Member.of Json.Given.required
  Json.Given.withDefault Json.Node.fieldsWithin Bind.bind Except.bind Pure.pure Except.pure
  Except.map List.lookup_cons

namespace TurnErrorKind

theorem depth_toJson (k : TurnErrorKind) : k.toJson.depth = 1 := by
  cases k <;> rfl

theorem reads_provider (kept : Bool) (kind : ProviderErrorKind) :
    Reads (reader kept) (toJson (.provider kind)) (.provider kind) :=
  Reads.object fun room _ => by
    have hkind := (Faithful.oneOf ProviderErrorKind.lookup_name kept).reads kind trivial room
      (Nat.zero_le _)
    have htag : (Json.Reader.oneOf tags kept) (Json.Node.within (.string "provider_error") room) =
        .ok none := rfl
    simp [reader, tag, hkind, htag]

theorem faithful (kept : Bool) : Faithful toJson (reader kept) (fun _ => True) 1 where
  legible k _ := by
    cases k <;> exact Json.legible_object (by simp)
  reads k _ := by
    cases k with
    | provider kind => exact reads_provider kept kind
    | _ => exact Reads.object fun room _ => rfl
  sound _ _ := ⟨trivial, by rw [depth_toJson]; exact Nat.le_max_right _ _⟩

end TurnErrorKind

namespace TurnOutcome

theorem depth_toJson_le (o : TurnOutcome) : o.toJson.depth ≤ 2 := by
  cases o with
  | finalAnswer text => exact Nat.le_succ 1
  | errored kind message =>
    rw [toJson, Json.depth_object_le]
    simp [Json.depth, TurnErrorKind.depth_toJson]

theorem faithful : Faithful toJson reader (fun _ => True) 2 where
  legible o _ := by
    cases o with
    | finalAnswer text => exact Json.legible_object (by simp)
    | errored kind message =>
      have hkind := (TurnErrorKind.faithful true).legible kind trivial
      exact Json.legible_object (by simp [hkind])
  reads o _ := by
    cases o with
    | finalAnswer text =>
      refine Reads.tagged [("text", .string text)] (by simp) fun room n _ htagged => ?_
      have htext := Faithful.text.reads text trivial room (Nat.zero_le _)
      simp [reader, htagged, htext]
    | errored kind message =>
      refine Reads.tagged [("kind", kind.toJson), ("message", .string message)] (by simp)
        fun room n hroom htagged => ?_
      have hkind := (TurnErrorKind.faithful true).reads kind trivial room
        (hroom ("kind", kind.toJson) (by simp))
      have hmessage := Faithful.text.reads message trivial room (Nat.zero_le _)
      simp [reader, htagged, hkind, hmessage]
  sound _ _ := ⟨trivial, Nat.le_trans (depth_toJson_le _) (Nat.le_max_right _ _)⟩

end TurnOutcome

end AgentLoop
