/-
AgentLoop.Proofs.Json.Records — typed values, written and read back.

* `given_of_record`, `contents_of_tagged` — a reader finds what it reads in the
  tree that it reads
* `sound_of_record`, `sound_of_tagged` — and this is as sound as the tree
* `tagged_within` — the tree of a record gives the kind back
* `Reads` — a value is read off the tree of what was written
* `Faithful` — every value of a kind is, and whatever is read can be written
* `Faithful.text`, `Faithful.value`, `Faithful.list`, … — the single values
* `Lossless`, `Faithful.lossless` — values that come back as they were sent

What is sent and what is received are different questions: a record may be
written in an array, with blanks or with members left out, and none of this is
seen in what is read. `Reads` starts from the value, and `Faithful.sound` from
the tree, of which nothing is known but that it is the tree of some text.
-/
import AgentLoop.Json.Reader
import AgentLoop.Number.Limits
import AgentLoop.Proofs.Json.Assembly
import AgentLoop.Proofs.Json.Trees

namespace AgentLoop.Json

variable {α β : Type}

/-! ## What readers read -/

theorem ok_of_bind {x : Except DecodeError α} {f : α → Except DecodeError β} {b : β}
    (h : x >>= f = .ok b) : ∃ a, x = .ok a ∧ f a = .ok b := by
  cases x with
  | error e => cases h
  | ok a => exact ⟨a, rfl, h⟩

theorem namedMembers_values {members : List Member} {seen values : List (String × Node)}
    {fields : List (Option String × Node)} (h : namedMembers members seen fields = .ok values) :
    ∀ p ∈ values, p ∈ seen ∨ p.2 ∈ fields.map (·.2) := by
  induction fields generalizing seen with
  | nil =>
    cases h
    exact fun p hp => Or.inl hp
  | cons f rest ih =>
    obtain ⟨key, n⟩ := f
    cases key with
    | none => cases h
    | some k =>
      rw [namedMembers] at h
      split at h
      · split at h
        · exact fun p hp => (ih h p hp).imp_right (List.mem_cons_of_mem n)
        · cases h
      · split at h
        · cases h
        · split at h
          · cases h
          · intro p hp
            rcases ih h p hp with hseen | hlater
            · rcases List.mem_append.mp hseen with hseen | hnew
              · exact Or.inl hseen
              · rw [List.mem_singleton.mp hnew]
                exact Or.inr List.mem_cons_self
            · exact Or.inr (List.mem_cons_of_mem n hlater)

theorem orderedMembers_values {members : List Member} {nodes : List Node}
    {values : List (String × Node)} (h : orderedMembers members nodes = .ok values) :
    ∀ p ∈ values, p.2 ∈ nodes := by
  induction nodes generalizing members values with
  | nil =>
    have hnone : values = [] := by
      cases members <;> cases h <;> rfl
    simp [hnone]
  | cons n rest ih =>
    cases members with
    | nil => cases h
    | cons m members =>
      rw [orderedMembers] at h
      split at h
      · cases h
      · cases hrest : orderedMembers members rest with
        | error e =>
          rw [hrest] at h
          cases h
        | ok others =>
          rw [hrest] at h
          cases h
          intro p hp
          rcases List.mem_cons.mp hp with rfl | hp
          · exact List.mem_cons_self
          · exact List.mem_cons_of_mem n (ih hrest p hp)

/-- The members of a record stand in its tree. -/
theorem given_of_record {members : List Member} {n : Node} {g : Given}
    (h : record members n = .ok g) : ∀ p ∈ g.values, p.2 ∈ n.contents := by
  cases n with
  | object fields closed =>
    simp only [record] at h
    split at h
    · cases h
    · rename_i values hvalues
      split at h
      · cases h
        intro p hp
        exact (namedMembers_values hvalues p hp).resolve_left List.not_mem_nil
      · cases h
  | array items closed =>
    simp only [record] at h
    split at h
    · cases h
    · rename_i values hvalues
      split at h
      · cases h
        exact orderedMembers_values hvalues
      · cases h
  | _ => cases h

/-- What is left of a tagged record stands in its tree. -/
theorem contents_of_tagged {tag kind : String} {n content : Node}
    (h : tagged tag n = .ok (kind, content)) : ∀ m ∈ content.contents, m ∈ n.contents := by
  unfold tagged at h
  split at h
  · split at h
    · cases h
      intro m hm
      obtain ⟨f, hf, rfl⟩ := List.mem_map.mp hm
      exact List.mem_map_of_mem ((List.mem_filter.mp hf).1)
    · cases h
  · cases h
    exact fun m hm => List.mem_cons_of_mem _ hm
  · cases h

theorem required_ok {g : Given} {name : String} {r : Reader α} {a : α}
    (h : g.required name r = .ok a) : ∃ p ∈ g.values, r p.2 = .ok a := by
  unfold Given.required at h
  split at h
  · rename_i n hlookup
    obtain ⟨before, after, hsplit, -⟩ := List.lookup_eq_some_iff.mp hlookup
    exact ⟨(name, n), by rw [hsplit]; simp, h⟩
  · cases h

theorem withDefault_ok {g : Given} {name : String} {r : Reader α} {default a : α}
    (h : g.withDefault name r default = .ok a) : a = default ∨ ∃ p ∈ g.values, r p.2 = .ok a := by
  unfold Given.withDefault at h
  split at h
  · rename_i n hlookup
    obtain ⟨before, after, hsplit, -⟩ := List.lookup_eq_some_iff.mp hlookup
    exact Or.inr ⟨(name, n), by rw [hsplit]; simp, h⟩
  · cases h
    exact Or.inl rfl

theorem value_ok {n : Node} {v : Json} (h : Reader.value n = .ok v) : n.toJson? = some v := by
  unfold Reader.value at h
  split at h
  · cases h
    assumption
  · cases h

theorem nullable_ok {r : Reader α} {n : Node} {o : Option α} (h : r.nullable n = .ok o) :
    o = none ∨ n ≠ .null ∧ ∃ a, o = some a ∧ r n = .ok a := by
  unfold Reader.nullable at h
  split at h
  · cases h
    exact Or.inl rfl
  · rename_i hn
    cases hread : r n with
    | error e =>
      rw [hread] at h
      cases h
    | ok a =>
      rw [hread] at h
      cases h
      exact Or.inr ⟨hn, a, rfl, rfl⟩

theorem items_ok {r : Reader α} {ns : List Node} {as : List α} (h : r.items ns = .ok as) :
    ∀ a ∈ as, ∃ n ∈ ns, r n = .ok a := by
  induction ns generalizing as with
  | nil =>
    cases h
    exact fun a ha => absurd ha List.not_mem_nil
  | cons n rest ih =>
    rw [Reader.items] at h
    split at h
    · cases h
    · rename_i first hfirst
      cases hrest : r.items rest with
      | error e =>
        rw [hrest] at h
        cases h
      | ok others =>
        rw [hrest] at h
        cases h
        intro a ha
        rcases List.mem_cons.mp ha with rfl | ha
        · exact ⟨n, List.mem_cons_self, hfirst⟩
        · obtain ⟨m, hm, hread⟩ := ih hrest a ha
          exact ⟨m, List.mem_cons_of_mem n hm, hread⟩

/-- A free value that a record must have stands in its tree. -/
theorem value_of_required {members : List Member} {n : Node} {g : Given} {name : String} {v : Json}
    (hg : record members n = .ok g) (h : g.required name Reader.value = .ok v) :
    ∃ c ∈ n.contents, c.toJson? = some v := by
  obtain ⟨p, hp, hv⟩ := required_ok h
  exact ⟨p.2, given_of_record hg p hp, value_ok hv⟩

/-- What is read off a text is read off its tree. -/
theorem root_of_decode {r : Reader α} {w : String} {a : α} (h : decode r w = .ok a) :
    ∃ n, (Document.ofText w).root = some n ∧ r n = .ok a := by
  rw [decode] at h
  split at h
  · cases h
  · rename_i n hroot
    refine ⟨n, hroot, ?_⟩
    split at h
    · cases h
    · rename_i b hread
      split at h
      · cases h
      · cases h
        exact hread

/-! ## What readers read of a sound tree -/

/-- Only a bracket that was closed is read as a record. -/
theorem sound_of_record {members : List Member} {n : Node} {g : Given} {room : Nat}
    (hn : n.Sound room) (h : record members n = .ok g) :
    0 < room ∧ ∀ p ∈ g.values, p.2.Sound (room - 1) := by
  refine ⟨?_, fun p hp => hn.contents p.2 (given_of_record h p hp)⟩
  cases hn with
  | array hroom hitems | object hroom hfields =>
    simp only [record] at h
    split at h
    · cases h
    · split at h
      · rename_i hclosed
        exact hroom hclosed
      · cases h
  | _ => cases h

theorem sound_of_tagged {tag kind : String} {n content : Node} {room : Nat} (hn : n.Sound room)
    (h : tagged tag n = .ok (kind, content)) : content.Sound room := by
  have hinside : ∀ m ∈ content.contents, m.Sound (room - 1) := fun m hm =>
    hn.contents m (contents_of_tagged h m hm)
  unfold tagged at h
  split at h
  · split at h
    · cases h
      cases hn with
      | object hroom hfields => exact .object hroom hinside
    · cases h
  · cases h
    cases hn with
    | array hroom hitems => exact .array hroom hinside
  · cases h

/-- A tree that stands for null is written so. -/
theorem null_of_sound {n : Node} {room : Nat} (hn : n.Sound room) (h : n.toJson? = some .null) :
    n = .null := by
  cases hn with
  | null => rfl
  | number hwell hnumber =>
    cases h
    cases hnumber
  | array hroom hitems | object hroom hfields =>
    rename_i closed
    cases closed <;> simp [Node.toJson?] at h
  | _ => cases h

/-! ## Writing -/

/-- The text of a value is cut into the tokens of the value. -/
def Legible (v : Json) : Prop := Spells v.chars v.tokensOf

theorem WellFormed.legible {v : Json} (h : v.WellFormed) : v.Legible := spells_chars h

@[simp] theorem legible_null : Legible .null := spells_null

@[simp] theorem legible_bool (b : Bool) : (Json.bool b).Legible := WellFormed.legible rfl

@[simp] theorem legible_string (s : String) : (Json.string s).Legible := spells_quoted s

@[simp] theorem legible_float (x : Number.Finite Number.binary64) : (Json.float x).Legible :=
  spells_float x

theorem legible_ofNat {n : Nat} (h : n ≤ Number.max64) : (Json.ofNat n).Legible := by
  refine spells_int (n := n) ?_ ?_
  · simp only [minInt]
    omega
  · simp only [Number.max64] at h
    simp only [maxInt]
    omega

theorem legible_array {items : List Json} (h : ∀ v ∈ items, v.Legible) :
    (Json.array items).Legible :=
  spells_array h

/-- The fields of a record stand in the order of their declaration. -/
theorem legible_object {fields : List (String × Json)} (h : ∀ f ∈ fields, f.2.Legible) :
    (Json.object fields).Legible :=
  spells_object h

/-! ## Reading what was written -/

/-- A value is read off the tree of what was written, wherever there is room
for its brackets. -/
def Reads (r : Reader α) (v : Json) (a : α) : Prop :=
  ∀ room, v.depth ≤ room → r (Node.within v room) = .ok a

/-- What is read where it was written is read off the value itself, too. -/
theorem Reads.ofJson {r : Reader α} {v : Json} {a : α} (h : Reads r v a) :
    r (Node.ofJson v) = .ok a := by
  rw [Node.ofJson_eq_within (Nat.le_refl v.depth)]
  exact h v.depth (Nat.le_refl v.depth)

/-- The kind of a record that is written with it in front. -/
theorem tagged_within {tag : String} (kind : String) {fields : List (String × Json)} {room : Nat}
    (htag : ∀ f ∈ fields, f.1 ≠ tag) (hroom : ∀ f ∈ fields, f.2.depth ≤ room) :
    tagged tag (Node.within (.object ((tag, .string kind) :: fields)) (room + 1)) =
      .ok (kind, .object (Node.fieldsWithin fields room) true) := by
  have hdepth : (Json.object ((tag, .string kind) :: fields)).depth ≤ room + 1 := by
    rw [depth_object_le, List.forall_mem_cons]
    exact ⟨room.succ_pos, Nat.zero_le _, hroom⟩
  -- the keys are in the order of their declaration, so the value is another one
  obtain ⟨v, hv⟩ := Option.isSome_iff_exists.mp (Node.isSome_toJson?_within.mpr hdepth)
  have hnone := Node.keys_fieldsWithin htag room
  have hrest : (Node.fieldsWithin fields room).filter (fun f => f.1 ≠ some tag) =
      Node.fieldsWithin fields room :=
    List.filter_eq_self.mpr fun f hf => by simpa using hnone f hf
  have htagged : (Node.fieldsWithin fields room).filter (fun f => f.1 = some tag) = [] :=
    List.filter_eq_nil_iff.mpr fun f hf => by simpa using hnone f hf
  simp only [Node.within, Nat.zero_lt_succ, if_true, Nat.add_sub_cancel, Node.fieldsWithin]
    at hv ⊢
  simp only [tagged, hv, List.filter_cons, decide_true, if_true, htagged, ne_eq, not_true_eq_false,
    decide_false, Bool.false_eq_true, if_false]
  rw [hrest]

namespace Reads

variable {r : Reader α} {a : α}

/-- A record is read off its fields. -/
theorem object {fields : List (String × Json)}
    (h : ∀ room, (∀ f ∈ fields, f.2.depth ≤ room) →
      r (.object (Node.fieldsWithin fields room) true) = .ok a) :
    Reads r (.object fields) a := by
  intro room hroom
  obtain ⟨hpos, hfields⟩ := depth_object_le.mp hroom
  rw [Node.within, if_pos hpos]
  exact h (room - 1) hfields

/-- A tagged record is read off its other fields, once its kind is known. -/
theorem tagged {tag kind : String} (fields : List (String × Json))
    (htag : ∀ f ∈ fields, f.1 ≠ tag)
    (h : ∀ room n, (∀ f ∈ fields, f.2.depth ≤ room) →
      Json.tagged tag n = .ok (kind, .object (Node.fieldsWithin fields room) true) →
      r n = .ok a) :
    Reads r (.object ((tag, .string kind) :: fields)) a := by
  intro room hroom
  obtain ⟨hpos, hfields⟩ := depth_object_le.mp hroom
  have hrest := (List.forall_mem_cons.mp hfields).2
  have htagged := tagged_within kind htag hrest
  rw [Nat.sub_add_cancel hpos] at htagged
  exact h (room - 1) _ hrest htagged

theorem items {f : β → Json} {g : β → α} {bs : List β} {room : Nat}
    (h : ∀ b ∈ bs, r (Node.within (f b) room) = .ok (g b)) :
    r.items (Node.itemsWithin (bs.map f) room) = .ok (bs.map g) := by
  induction bs with
  | nil => rfl
  | cons b rest ih =>
    obtain ⟨hb, hrest⟩ := List.forall_mem_cons.mp h
    rw [List.map_cons, Node.itemsWithin, Reader.items, hb, ih hrest]
    rfl

/-- A list is read item by item. -/
theorem list {f : β → Json} {g : β → α} {bs : List β} (h : ∀ b ∈ bs, Reads r (f b) (g b)) :
    Reads r.list (.array (bs.map f)) (bs.map g) := by
  intro room hroom
  obtain ⟨hpos, hitems⟩ := depth_array_le.mp hroom
  have hread := items (g := g) fun b hb =>
    h b hb (room - 1) (hitems (f b) (List.mem_map_of_mem hb))
  rw [Node.within, if_pos hpos, Reader.list, hread]
  rfl

theorem nullable_none : Reads r.nullable .null none := fun _ _ => rfl

theorem nullable {v : Json} (h : Reads r v a) (hv : v ≠ .null) : Reads r.nullable v (some a) := by
  intro room hroom
  have hread := h room hroom
  unfold Reader.nullable
  split
  · rename_i hnull
    cases v with
    | null => exact absurd rfl hv
    | array items | object fields =>
      rw [Node.within] at hnull
      split at hnull <;> cases hnull
    | _ => cases hnull
  · rw [hread]
    rfl

/-- What is read off the text of a value. -/
theorem decode_print {v : Json} (h : Reads r v a) (hlegible : v.Legible)
    (hdepth : v.depth ≤ deepest) : decode r v.print = .ok a := by
  have hdocument : Document.ofText v.print = ⟨some (Node.within v deepest), false⟩ := by
    rw [Document.ofText, print, String.toList_ofList]
    exact Document.ofChars_chars hlegible
  rw [decode, hdocument]
  simp [h deepest hdepth]

end Reads

/-! ## Kinds of values -/

/-- Every value of a kind that is fit to be written is read as it was written,
and whatever is read off a sound tree is fit to be written: no deeper than the
tree, or than a record of its kind has to be if members were left out. -/
structure Faithful (toJson : α → Json) (reader : Reader α) (Fit : α → Prop) (least : Nat) :
    Prop where
  legible : ∀ a, Fit a → (toJson a).Legible
  reads : ∀ a, Fit a → Reads reader (toJson a) a
  sound : ∀ {room : Nat} {n : Node} {a : α}, n.Sound room → reader n = .ok a →
    Fit a ∧ (toJson a).depth ≤ max room least

namespace Faithful

variable {toJson : α → Json} {reader : Reader α} {Fit : α → Prop} {least room : Nat} {a : α}

/-- A member that must be there. -/
theorem required (h : Faithful toJson reader Fit least) {g : Given} {name : String}
    (hg : ∀ p ∈ g.values, p.2.Sound room) (ha : g.required name reader = .ok a) :
    Fit a ∧ (toJson a).depth ≤ max room least := by
  obtain ⟨p, hp, hread⟩ := required_ok ha
  exact h.sound (hg p hp) hread

/-- A member that has a default. -/
theorem withDefault (h : Faithful toJson reader Fit least) {g : Given} {name : String}
    {default : α} (hg : ∀ p ∈ g.values, p.2.Sound room)
    (hdefault : Fit default ∧ (toJson default).depth ≤ least)
    (ha : g.withDefault name reader default = .ok a) :
    Fit a ∧ (toJson a).depth ≤ max room least := by
  rcases withDefault_ok ha with rfl | ⟨p, hp, hread⟩
  · exact ⟨hdefault.1, Nat.le_trans hdefault.2 (Nat.le_max_right room least)⟩
  · exact h.sound (hg p hp) hread

theorem text : Faithful Json.string Reader.text (fun _ => True) 0 where
  legible s _ := legible_string s
  reads _ _ _ _ := rfl
  sound _ _ := ⟨trivial, Nat.zero_le _⟩

theorem flag : Faithful Json.bool Reader.flag (fun _ => True) 0 where
  legible b _ := legible_bool b
  reads _ _ _ _ := rfl
  sound _ _ := ⟨trivial, Nat.zero_le _⟩

/-- Counts up to some greatest one of at most 64 bits. -/
theorem whole {top : Nat} (htop : top ≤ Number.max64) :
    Faithful Json.ofNat (Reader.whole top) (· ≤ top) 0 where
  legible _ h := legible_ofNat (Nat.le_trans h htop)
  reads n h _ _ := if_pos h
  sound := by
    intro room n a _ h
    refine ⟨?_, Nat.zero_le _⟩
    unfold Reader.whole at h
    split at h
    · split at h
      · rename_i hle
        cases h
        exact hle
      · cases h
    · cases h

theorem whole32 :
    Faithful Json.ofNat (Reader.whole Number.max32) (· ≤ Number.max32) 0 :=
  whole (by decide)

theorem whole64 :
    Faithful Json.ofNat (Reader.whole Number.max64) (· ≤ Number.max64) 0 :=
  whole (Nat.le_refl _)

/-- Free values that a text can stand for. -/
theorem value : Faithful (fun v => v) Reader.value WellFormed 0 where
  legible _ h := h.legible
  reads v h room hroom := by
    rw [Reader.value, Node.toJson?_within h, if_pos hroom]
  sound hn h := by
    obtain ⟨hwell, hdepth⟩ := hn.stands _ (value_ok h)
    exact ⟨hwell, Nat.le_trans hdepth (Nat.le_max_left _ _)⟩

/-- Names. -/
theorem oneOf {name : α → String} {names : List (String × α)}
    (h : ∀ a, names.lookup (name a) = some a) (kept : Bool) :
    Faithful (fun a => .string (name a)) (Reader.oneOf names kept) (fun _ => True) 0 where
  legible a _ := legible_string (name a)
  reads a _ _ _ := by simp [Node.within, Reader.oneOf, h]
  sound _ _ := ⟨trivial, Nat.zero_le _⟩

/-- Lists. -/
theorem list (h : Faithful toJson reader Fit least) :
    Faithful (fun as => .array (as.map toJson)) reader.list (fun as => ∀ a ∈ as, Fit a)
      (least + 1) where
  legible as has := legible_array (List.forall_mem_map.mpr fun a ha => h.legible a (has a ha))
  reads as has := by
    simpa using Reads.list (g := id) fun a ha => h.reads a (has a ha)
  sound := by
    intro room n as hn hread
    unfold Reader.list at hread
    split at hread
    · split at hread
      · cases hread
      · rename_i found hfound
        split at hread
        · rename_i hclosed
          cases hread
          cases hn with
          | array hroom hitems =>
            have hall : ∀ a ∈ as, Fit a ∧ (toJson a).depth ≤ max (room - 1) least := by
              intro a ha
              obtain ⟨m, hm, hread⟩ := items_ok hfound a ha
              exact h.sound (hitems m hm) hread
            -- the bracket of an empty list takes room, too
            have hpos := hroom hclosed
            refine ⟨fun a ha => (hall a ha).1, ?_⟩
            rw [depth_array_le, List.forall_mem_map]
            refine ⟨by omega, fun a ha => ?_⟩
            have hdepth := (hall a ha).2
            omega
        · cases hread
    · cases hread

/-- Values that may be missing; null stands for their absence. -/
theorem nullable (h : Faithful toJson reader Fit least) (hnull : ∀ a, Fit a → toJson a ≠ .null) :
    Faithful (fun o => ofOption (o.map toJson)) reader.nullable (fun o => ∀ a ∈ o, Fit a)
      least where
  legible o ho := by
    cases o with
    | none => exact legible_null
    | some a => exact h.legible a (ho a rfl)
  reads o ho := by
    cases o with
    | none => exact Reads.nullable_none
    | some a => exact (h.reads a (ho a rfl)).nullable (hnull a (ho a rfl))
  sound := by
    intro room n o hn hread
    rcases nullable_ok hread with rfl | ⟨-, a, rfl, ha⟩
    · exact ⟨nofun, Nat.zero_le _⟩
    · obtain ⟨hfit, hdepth⟩ := h.sound hn ha
      exact ⟨fun b hb => Option.some.inj hb ▸ hfit, hdepth⟩

end Faithful

/-! ## Whole texts -/

/-- Values come back as they were sent. What is sent is read as it was and
written with the same text again, if no more than 127 brackets are open in its
text at once; what was received, however its text was written, is read back from
its own text. -/
structure Lossless (toJson : α → Json) (reader : Reader α) (Fit : α → Prop) : Prop where
  sent : ∀ a, Fit a → nesting (toJson a).print ≤ 127 →
    decode reader (toJson a).print = .ok a ∧
    (decode reader (toJson a).print).map (fun b => (toJson b).print) = .ok (toJson a).print
  received : ∀ w a, decode reader w = .ok a → decode reader (toJson a).print = .ok a

variable {toJson : α → Json} {reader : Reader α} {Fit : α → Prop} {least : Nat}

theorem Faithful.lossless (h : Faithful toJson reader Fit least) (hleast : least ≤ deepest) :
    Lossless toJson reader Fit where
  sent a ha hnesting := by
    rw [nesting_print (h.legible a ha)] at hnesting
    have hread := (h.reads a ha).decode_print (h.legible a ha) hnesting
    rw [hread]
    exact ⟨rfl, rfl⟩
  received w a hw := by
    obtain ⟨n, hroot, hread⟩ := root_of_decode hw
    obtain ⟨hfit, hdepth⟩ := h.sound (Document.root_sound hroot) hread
    rw [Nat.max_eq_left hleast] at hdepth
    exact (h.reads a hfit).decode_print (h.legible a hfit) hdepth

/-- Fewer values to be sent. -/
theorem Lossless.of_fit {Fit' : α → Prop} (h : Lossless toJson reader Fit)
    (hfit : ∀ a, Fit' a → Fit a) : Lossless toJson reader Fit' where
  sent a ha := h.sent a (hfit a ha)
  received := h.received

end AgentLoop.Json
