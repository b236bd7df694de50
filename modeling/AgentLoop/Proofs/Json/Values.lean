/-
AgentLoop.Proofs.Json.Values — values that a text can stand for.

* `induct` — induction on a value, with all items and all fields at once
* `wellFormed_array`, `wellFormed_object` — what is asked of the parts
* `depth_array_le`, `depth_object_le` — how deep the parts are
* `Fields.Ascending`, `Fields.ofList_ascending` — fields that are filled one by
  one are in order
* `Fields.ofList_of_ascending` — fields in order are left as they are
* `Fields.find?_ofList` — fields with distinct keys keep their values
-/
import AgentLoop.Json.Basic

namespace AgentLoop

namespace Fields

/-- The keys of some fields ascend. -/
def Ascending (fields : Fields) : Prop := fields.Pairwise fun f g => f.1 < g.1

theorem mem_insert {key : String} {value : Json} {fields : Fields} {f : String × Json}
    (h : f ∈ insert key value fields) : f = (key, value) ∨ f ∈ fields := by
  induction fields with
  | nil => simpa [insert] using h
  | cons g rest ih =>
    obtain ⟨k, v⟩ := g
    simp only [insert] at h
    split at h
    · simpa using h
    · split at h
      · rcases List.mem_cons.mp h with h | h
        · exact Or.inl h
        · exact Or.inr (List.mem_cons_of_mem _ h)
      · rcases List.mem_cons.mp h with rfl | h
        · exact Or.inr List.mem_cons_self
        · exact (ih h).imp_right (List.mem_cons_of_mem _)

theorem ascending_insert (key : String) (value : Json) {fields : Fields} (h : fields.Ascending) :
    (insert key value fields).Ascending := by
  induction fields with
  | nil => exact List.pairwise_singleton _ _
  | cons g rest ih =>
    obtain ⟨k, v⟩ := g
    obtain ⟨hfirst, hrest⟩ := List.pairwise_cons.mp h
    simp only [insert]
    split
    · rename_i hlt
      refine List.pairwise_cons.mpr ⟨?_, h⟩
      intro f hf
      rcases List.mem_cons.mp hf with rfl | hf
      · exact hlt
      · exact String.lt_trans hlt (hfirst f hf)
    · split
      · rename_i heq
        subst heq
        exact List.pairwise_cons.mpr ⟨hfirst, hrest⟩
      · rename_i hge hne
        have hgt : k < key := Std.lt_of_le_of_ne (String.not_lt.mp hge) (Ne.symm hne)
        refine List.pairwise_cons.mpr ⟨?_, ih hrest⟩
        intro f hf
        rcases mem_insert hf with rfl | hf
        · exact hgt
        · exact hfirst f hf

theorem ascending_foldl_insert {acc : Fields} (h : acc.Ascending)
    (fields : List (String × Json)) :
    (fields.foldl (fun acc f => insert f.1 f.2 acc) acc).Ascending := by
  induction fields generalizing acc with
  | nil => exact h
  | cons f rest ih => exact ih (ascending_insert f.1 f.2 h)

/-- Fields that are filled one by one are in order. -/
theorem ofList_ascending (fields : List (String × Json)) : (ofList fields).Ascending :=
  ascending_foldl_insert List.Pairwise.nil fields

theorem mem_foldl_insert {acc : Fields} {fields : List (String × Json)} {f : String × Json}
    (h : f ∈ fields.foldl (fun acc f => insert f.1 f.2 acc) acc) : f ∈ acc ∨ f ∈ fields := by
  induction fields generalizing acc with
  | nil => exact Or.inl h
  | cons g rest ih =>
    rcases ih h with h | h
    · rcases mem_insert h with rfl | h
      · exact Or.inr List.mem_cons_self
      · exact Or.inl h
    · exact Or.inr (List.mem_cons_of_mem _ h)

theorem mem_of_mem_ofList {fields : List (String × Json)} {f : String × Json}
    (h : f ∈ ofList fields) : f ∈ fields :=
  (mem_foldl_insert h).resolve_left List.not_mem_nil

theorem insert_last {key : String} {value : Json} {fields : Fields}
    (h : ∀ f ∈ fields, f.1 < key) : insert key value fields = fields ++ [(key, value)] := by
  induction fields with
  | nil => rfl
  | cons g rest ih =>
    obtain ⟨k, v⟩ := g
    have hk : k < key := h (k, v) List.mem_cons_self
    have hnlt : ¬ key < k := String.lt_asymm hk
    have hne : key ≠ k := fun heq => String.lt_irrefl k (heq ▸ hk)
    rw [insert, if_neg hnlt, if_neg hne, ih fun f hf => h f (List.mem_cons_of_mem _ hf)]
    rfl

theorem foldl_insert_of_ascending {acc fields : Fields} (h : (acc ++ fields).Ascending) :
    fields.foldl (fun acc f => insert f.1 f.2 acc) acc = acc ++ fields := by
  induction fields generalizing acc with
  | nil => simp
  | cons f rest ih =>
    have hlast : ∀ g ∈ acc, g.1 < f.1 := fun g hg =>
      (List.pairwise_append.mp h).2.2 g hg f List.mem_cons_self
    rw [List.foldl_cons, insert_last hlast, ih (by simpa [Ascending] using h)]
    simp

/-- Fields in order are left as they are. -/
theorem ofList_of_ascending {fields : Fields} (h : fields.Ascending) : ofList fields = fields :=
  @foldl_insert_of_ascending [] fields h

theorem find?_foldl_insert {acc : Fields} {fields : List (String × Json)} {key : String}
    (h : key ∉ fields.map (·.1)) :
    find? (fields.foldl (fun acc f => insert f.1 f.2 acc) acc) key = acc.find? key := by
  induction fields generalizing acc with
  | nil => rfl
  | cons f rest ih =>
    rw [List.map_cons, List.mem_cons, not_or] at h
    rw [List.foldl_cons, ih h.2, find?_insert_of_ne h.1]

theorem find?_foldl_insert_of_mem {acc : Fields} {fields : List (String × Json)}
    (h : (fields.map (·.1)).Nodup) {f : String × Json} (hf : f ∈ fields) :
    find? (fields.foldl (fun acc f => insert f.1 f.2 acc) acc) f.1 = some f.2 := by
  induction fields generalizing acc with
  | nil => cases hf
  | cons g rest ih =>
    obtain ⟨hfirst, hrest⟩ := List.nodup_cons.mp h
    rcases List.mem_cons.mp hf with rfl | hf
    · rw [List.foldl_cons, find?_foldl_insert hfirst, find?_insert_self]
    · exact ih hrest hf

/-- Fields with distinct keys keep their values when they are filled in one by
one. -/
theorem find?_ofList {fields : List (String × Json)} (h : (fields.map (·.1)).Nodup)
    {f : String × Json} (hf : f ∈ fields) : (ofList fields).find? f.1 = some f.2 :=
  find?_foldl_insert_of_mem h hf

end Fields

namespace Json

/-- Induction on a value: what holds of all items holds of their array, and
what holds of the values of all fields of their object. -/
@[elab_as_elim]
theorem induct {P : Json → Prop} (null : P .null) (bool : ∀ b, P (.bool b))
    (int : ∀ n, P (.int n)) (float : ∀ x, P (.float x)) (string : ∀ s, P (.string s))
    (array : ∀ items, (∀ v ∈ items, P v) → P (.array items))
    (object : ∀ fields, (∀ f ∈ fields, P f.2) → P (.object fields)) (v : Json) : P v :=
  @Json.rec P (fun items => ∀ v ∈ items, P v) (fun fields => ∀ f ∈ fields, P f.2)
    (fun f => P f.2) null bool int float string array object
    (by simp) (fun _ _ hv hrest => List.forall_mem_cons.mpr ⟨hv, hrest⟩)
    (by simp) (fun _ _ hf hrest => List.forall_mem_cons.mpr ⟨hf, hrest⟩) (fun _ _ hv => hv) v

/-! ## The parts of a value -/

theorem wellFormedItems_iff {items : List Json} :
    wellFormedItems items = true ↔ ∀ v ∈ items, v.WellFormed := by
  induction items with
  | nil => simp [wellFormedItems]
  | cons v rest ih => simp [wellFormedItems, ih, WellFormed]

theorem wellFormed_array {items : List Json} :
    (Json.array items).WellFormed ↔ ∀ v ∈ items, v.WellFormed := by
  rw [WellFormed, wellFormed, wellFormedItems_iff]

theorem wellFormedFields_iff {after : Option String} {fields : Fields} :
    wellFormedFields after fields = true ↔
      (∀ k, after = some k → ∀ f ∈ fields, k < f.1) ∧ fields.Ascending ∧
        ∀ f ∈ fields, f.2.WellFormed := by
  induction fields generalizing after with
  | nil => simp [wellFormedFields, Fields.Ascending]
  | cons f rest ih =>
    obtain ⟨key, v⟩ := f
    have hstep : wellFormedFields after ((key, v) :: rest) = true ↔
        ((∀ k, after = some k → k < key) ∧ v.WellFormed) ∧
          wellFormedFields (some key) rest = true := by
      cases after <;> simp [wellFormedFields, WellFormed]
    rw [hstep, ih, Fields.Ascending, Fields.Ascending, List.pairwise_cons]
    constructor
    · rintro ⟨⟨hafter, hv⟩, hkeys, hrest, hvalues⟩
      have hlater := hkeys key rfl
      refine ⟨?_, ⟨hlater, hrest⟩, List.forall_mem_cons.mpr ⟨hv, hvalues⟩⟩
      intro k hk
      exact List.forall_mem_cons.mpr ⟨hafter k hk, fun f hf =>
        String.lt_trans (hafter k hk) (hlater f hf)⟩
    · rintro ⟨hafter, ⟨hlater, hrest⟩, hvalues⟩
      obtain ⟨hv, hvalues⟩ := List.forall_mem_cons.mp hvalues
      refine ⟨⟨fun k hk => hafter k hk (key, v) List.mem_cons_self, hv⟩, ?_, hrest, hvalues⟩
      rintro k ⟨⟩
      exact hlater

theorem wellFormed_object {fields : Fields} :
    (Json.object fields).WellFormed ↔ fields.Ascending ∧ ∀ f ∈ fields, f.2.WellFormed := by
  rw [WellFormed, wellFormed, wellFormedFields_iff]
  simp

theorem wellFormed_int {n : Int} : (Json.int n).WellFormed ↔ minInt ≤ n ∧ n ≤ maxInt := by
  simp [WellFormed, wellFormed]

theorem depthItems_le {items : List Json} {n : Nat} :
    depthItems items ≤ n ↔ ∀ v ∈ items, v.depth ≤ n := by
  induction items with
  | nil => simp [depthItems]
  | cons v rest ih => rw [depthItems, Nat.max_le, ih, List.forall_mem_cons]

theorem depthFields_le {fields : Fields} {n : Nat} :
    depthFields fields ≤ n ↔ ∀ f ∈ fields, f.2.depth ≤ n := by
  induction fields with
  | nil => simp [depthFields]
  | cons f rest ih => rw [depthFields, Nat.max_le, ih, List.forall_mem_cons]

theorem depth_array_le {items : List Json} {n : Nat} :
    (Json.array items).depth ≤ n ↔ 0 < n ∧ ∀ v ∈ items, v.depth ≤ n - 1 := by
  rw [depth, ← depthItems_le]
  omega

theorem depth_object_le {fields : Fields} {n : Nat} :
    (Json.object fields).depth ≤ n ↔ 0 < n ∧ ∀ f ∈ fields, f.2.depth ≤ n - 1 := by
  rw [depth, ← depthFields_le]
  omega

end Json

end AgentLoop
