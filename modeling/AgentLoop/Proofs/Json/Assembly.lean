/-
AgentLoop.Proofs.Json.Assembly — the tokens of a value, put together again.

* `Node.within` — the tree of a value where so many brackets may be opened
* `Assembles`, `assembles` — the tokens of a value are put together to its
  tree, inside whatever brackets are open
* `Document.ofChars_chars` — the tree of the text of a value
* `Node.toJson?_within` — that tree has the value if there is room for it, and
  no value otherwise
* `Node.isSome_toJson?_within` — it has some value even if the keys are out of
  order
* `Node.ofJson_eq_within` — where there is room, it is the tree that the value
  has without any text

A bracket that opens too deep inside others is not looked at before it closes,
so the tree of a value depends on how many brackets are open around it. Nothing
else around it matters.
-/
import AgentLoop.Json.Node
import AgentLoop.Proofs.Json.Lexing

namespace AgentLoop.Json

namespace Node

mutual

/-- The tree of a value where so many brackets may still be opened. -/
def within : Json → Nat → Node
  | .null, _ => .null
  | .bool b, _ => .bool b
  | .int n, _ => .number (.int n)
  | .float x, _ => .number (.float x)
  | .string s, _ => .text s
  | .array items, room =>
    if 0 < room then .array (itemsWithin items (room - 1)) true else .unreadable
  | .object fields, room =>
    if 0 < room then .object (fieldsWithin fields (room - 1)) true else .unreadable

/-- The trees of items. -/
def itemsWithin : List Json → Nat → List Node
  | [], _ => []
  | v :: rest, room => within v room :: itemsWithin rest room

/-- The trees of fields. -/
def fieldsWithin : List (String × Json) → Nat → List (Option String × Node)
  | [], _ => []
  | (k, v) :: rest, room => (some k, within v room) :: fieldsWithin rest room

end

end Node

/-! ## One step at a time -/

namespace Assembly

variable {stack rest : List Frame} {root : Option Node}

theorem put_array (done : List Node) (e : Expect) (n : Node) :
    put ⟨.array done :: rest, e, root, false⟩ n =
      ⟨.array (n :: done) :: rest, .commaOrBracket, root, false⟩ := rfl

theorem put_object (done : List (Option String × Node)) (key : Option String) (e : Expect)
    (n : Node) :
    put ⟨.object done key :: rest, e, root, false⟩ n =
      ⟨.object ((key, n) :: done) none :: rest, .commaOrBrace, root, false⟩ := rfl

theorem put_expect (e e' : Expect) (n : Node) :
    put ⟨stack, e, root, false⟩ n = put ⟨stack, e', root, false⟩ n := by
  cases stack with
  | nil => rfl
  | cons frame rest => cases frame <;> rfl

/-- Where a value may stand every token but a closing bracket begins one. -/
theorem step_value {e : Expect} (he : e = .value ∨ e = .valueOrClose) {t : Token}
    (ht : t ≠ .closeBracket) :
    step ⟨stack, e, root, false⟩ t = value ⟨stack, e, root, false⟩ t := by
  rcases he with rfl | rfl
  · rfl
  · cases t <;> first | rfl | exact absurd rfl ht

/-- The inmost bracket closes. -/
theorem close_frame (frame : Frame) (e : Expect) :
    close ⟨frame :: rest, e, root, false⟩ = put ⟨rest, .value, root, false⟩
      (if rest.length < deepest then Frame.node true frame else .unreadable) :=
  put_expect e .value _

end Assembly

/-! ## Whole values -/

open Assembly in
/-- The tokens of a value are put together to its tree. -/
def Assembles (v : Json) : Prop :=
  ∀ (stack : List Frame) (root : Option Node) (e : Expect), e = .value ∨ e = .valueOrClose →
    v.tokensOf.foldl step ⟨stack, e, root, false⟩ =
      put ⟨stack, .value, root, false⟩ (Node.within v (deepest - stack.length))

namespace Assembly

theorem foldl_itemTokens {items : List Json} (h : ∀ v ∈ items, Assembles v) (done : List Node)
    (rest : List Frame) (root : Option Node) {e : Expect}
    (he : e = .valueOrClose ∨ e = .value ∧ items ≠ []) :
    (itemTokens items).foldl step ⟨.array done :: rest, e, root, false⟩ =
      put ⟨rest, .value, root, false⟩
        (if rest.length < deepest then
          .array (done.reverse ++ Node.itemsWithin items (deepest - (rest.length + 1))) true
        else .unreadable) := by
  induction items generalizing done e with
  | nil =>
    rcases he with rfl | ⟨-, hnone⟩
    · simpa [itemTokens, Node.itemsWithin, Frame.node, step] using
        close_frame (.array done) .valueOrClose
    · exact absurd rfl hnone
  | cons v others ih =>
    obtain ⟨hv, hothers⟩ := List.forall_mem_cons.mp h
    have hvalue := hv (.array done :: rest) root e (he.symm.imp_left And.left)
    rw [put_array, List.length_cons] at hvalue
    cases others with
    | nil =>
      rw [itemTokens, List.foldl_append, hvalue]
      have hclose := @close_frame rest root
        (.array (Node.within v (deepest - (rest.length + 1)) :: done)) .commaOrBracket
      simpa [Node.itemsWithin, Frame.node, step] using hclose
    | cons w others =>
      rw [itemTokens, List.foldl_append, hvalue, List.foldl_cons]
      have hmore := ih hothers (Node.within v (deepest - (rest.length + 1)) :: done)
        (e := .value) (Or.inr ⟨rfl, List.cons_ne_nil w others⟩)
      rw [Node.itemsWithin]
      simpa [step] using hmore

theorem foldl_fieldTokens {fields : List (String × Json)} (h : ∀ f ∈ fields, Assembles f.2)
    (done : List (Option String × Node)) (rest : List Frame) (root : Option Node) {e : Expect}
    (he : e = .keyOrClose ∨ e = .key ∧ fields ≠ []) :
    (fieldTokens fields).foldl step ⟨.object done none :: rest, e, root, false⟩ =
      put ⟨rest, .value, root, false⟩
        (if rest.length < deepest then
          .object (done.reverse ++ Node.fieldsWithin fields (deepest - (rest.length + 1))) true
        else .unreadable) := by
  induction fields generalizing done e with
  | nil =>
    rcases he with rfl | ⟨-, hnone⟩
    · simpa [fieldTokens, Node.fieldsWithin, Frame.node, step] using
        close_frame (.object done none) .keyOrClose
    · exact absurd rfl hnone
  | cons f others ih =>
    obtain ⟨k, v⟩ := f
    obtain ⟨hv, hothers⟩ := List.forall_mem_cons.mp h
    have hkey : step ⟨.object done none :: rest, e, root, false⟩ (.text (some k)) =
        ⟨.object done (some k) :: rest, .colon, root, false⟩ := by
      rcases he with rfl | ⟨rfl, -⟩ <;> rfl
    have hcolon : step ⟨.object done (some k) :: rest, .colon, root, false⟩ .colon =
        ⟨.object done (some k) :: rest, .value, root, false⟩ := rfl
    have hvalue := hv (.object done (some k) :: rest) root .value (Or.inl rfl)
    rw [put_object, List.length_cons] at hvalue
    cases others with
    | nil =>
      rw [fieldTokens, List.foldl_cons, hkey, List.foldl_cons, hcolon, List.foldl_append, hvalue]
      have hclose := @close_frame rest root
        (.object ((some k, Node.within v (deepest - (rest.length + 1))) :: done) none)
        .commaOrBrace
      simpa [Node.fieldsWithin, Frame.node, step] using hclose
    | cons g others =>
      rw [fieldTokens, List.foldl_cons, hkey, List.foldl_cons, hcolon, List.foldl_append, hvalue,
        List.foldl_cons]
      have hmore := ih hothers ((some k, Node.within v (deepest - (rest.length + 1))) :: done)
        (e := .key) (Or.inr ⟨rfl, List.cons_ne_nil g others⟩)
      rw [Node.fieldsWithin]
      simpa [step] using hmore

end Assembly

open Assembly in
theorem assembles (v : Json) : Assembles v := by
  induction v using Json.induct with
  | null => exact fun stack root e he => (step_value he (by simp)).trans (put_expect e .value _)
  | bool b => exact fun stack root e he => (step_value he (by simp)).trans (put_expect e .value _)
  | int n => exact fun stack root e he => (step_value he (by simp)).trans (put_expect e .value _)
  | float x => exact fun stack root e he => (step_value he (by simp)).trans (put_expect e .value _)
  | string s => exact fun stack root e he => (step_value he (by simp)).trans (put_expect e .value _)
  | array items ih =>
    intro stack root e he
    rw [tokensOf, List.foldl_cons, step_value he (by simp)]
    have hitems := foldl_itemTokens ih [] stack root (Or.inl rfl)
    rw [Node.within, Nat.sub_sub]
    simpa [value, push, Nat.sub_pos_iff_lt] using hitems
  | object fields ih =>
    intro stack root e he
    rw [tokensOf, List.foldl_cons, step_value he (by simp)]
    have hfields := foldl_fieldTokens ih [] stack root (Or.inl rfl)
    rw [Node.within, Nat.sub_sub]
    simpa [value, push, Nat.sub_pos_iff_lt] using hfields

/-- The tree of the text of a value. -/
theorem Document.ofChars_chars {v : Json} (h : Spells v.chars v.tokensOf) :
    Document.ofChars v.chars = ⟨some (Node.within v deepest), false⟩ := by
  rw [Document.ofChars, tokens_of_spells h, Assembly.start, assembles v [] none .value (Or.inl rfl)]
  rfl

/-! ## The value of the tree -/

namespace Node

theorem itemsToJson?_within {items : List Json} {room : Nat}
    (h : ∀ v ∈ items, toJson? (within v room) = if v.depth ≤ room then some v else none) :
    itemsToJson? (itemsWithin items room) =
      if depthItems items ≤ room then some items else none := by
  induction items with
  | nil => simp [itemsWithin, itemsToJson?, depthItems]
  | cons v rest ih =>
    obtain ⟨hv, hrest⟩ := List.forall_mem_cons.mp h
    have hmax : Nat.max v.depth (depthItems rest) ≤ room ↔
        v.depth ≤ room ∧ depthItems rest ≤ room := Nat.max_le
    rw [itemsWithin, itemsToJson?, hv, ih hrest, depthItems]
    by_cases hfirst : v.depth ≤ room <;> by_cases hmore : depthItems rest ≤ room <;>
      simp [hmax, hfirst, hmore]

theorem fieldsToJson?_of_toJson? {fields : List (String × Json)} {room : Nat}
    (h : ∀ f ∈ fields, toJson? (within f.2 room) = if f.2.depth ≤ room then some f.2 else none) :
    fieldsToJson? (fieldsWithin fields room) =
      if depthFields fields ≤ room then some fields else none := by
  induction fields with
  | nil => simp [fieldsWithin, fieldsToJson?, depthFields]
  | cons f rest ih =>
    obtain ⟨k, v⟩ := f
    obtain ⟨hv, hrest⟩ := List.forall_mem_cons.mp h
    have hmax : Nat.max v.depth (depthFields rest) ≤ room ↔
        v.depth ≤ room ∧ depthFields rest ≤ room := Nat.max_le
    rw [fieldsWithin, fieldsToJson?, hv, ih hrest, depthFields]
    by_cases hfirst : v.depth ≤ room <;> by_cases hmore : depthFields rest ≤ room <;>
      simp [hmax, hfirst, hmore]

/-- The tree of a value has the value if there is room for all its brackets,
and no value otherwise. -/
theorem toJson?_within {v : Json} (h : v.WellFormed) (room : Nat) :
    toJson? (within v room) = if v.depth ≤ room then some v else none := by
  induction v using Json.induct generalizing room with
  | null => simp [within, toJson?, depth]
  | bool b => simp [within, toJson?, depth]
  | int n => simp [within, toJson?, depth]
  | float x => simp [within, toJson?, depth]
  | string s => simp [within, toJson?, depth]
  | array items ih =>
    have hitems := wellFormed_array.mp h
    have hparts := itemsToJson?_within fun v hv => ih v hv (hitems v hv) (room - 1)
    rw [within, depth]
    cases room with
    | zero => simp [toJson?]
    | succ room =>
      rw [Nat.add_sub_cancel] at hparts
      simp only [Nat.zero_lt_succ, if_true, Nat.add_sub_cancel, toJson?, hparts,
        Nat.add_le_add_iff_right]
      split <;> rfl
  | object fields ih =>
    obtain ⟨hascending, hfields⟩ := wellFormed_object.mp h
    have hparts := fieldsToJson?_of_toJson? fun f hf => ih f hf (hfields f hf) (room - 1)
    rw [within, depth]
    cases room with
    | zero => simp [toJson?]
    | succ room =>
      rw [Nat.add_sub_cancel] at hparts
      simp only [Nat.zero_lt_succ, if_true, Nat.add_sub_cancel, toJson?, hparts,
        Nat.add_le_add_iff_right]
      split
      · rw [Option.map_some, Fields.ofList_of_ascending hascending]
      · rfl

/-- So have the trees of its fields, whatever their order. -/
theorem fieldsToJson?_within {fields : List (String × Json)}
    (h : ∀ f ∈ fields, f.2.WellFormed) (room : Nat) :
    fieldsToJson? (fieldsWithin fields room) =
      if depthFields fields ≤ room then some fields else none :=
  fieldsToJson?_of_toJson? fun f hf => toJson?_within (h f hf) room

theorem itemsWithin_eq_map (items : List Json) (room : Nat) :
    itemsWithin items room = items.map (within · room) := by
  induction items with
  | nil => rfl
  | cons v rest ih => rw [itemsWithin, ih, List.map_cons]

theorem fieldsWithin_eq_map (fields : List (String × Json)) (room : Nat) :
    fieldsWithin fields room = fields.map fun f => (some f.1, within f.2 room) := by
  induction fields with
  | nil => rfl
  | cons f rest ih => rw [fieldsWithin, ih, List.map_cons]

theorem isSome_itemsToJson? {items : List Node} :
    (itemsToJson? items).isSome ↔ ∀ n ∈ items, (toJson? n).isSome := by
  induction items with
  | nil => simp [itemsToJson?]
  | cons n rest ih =>
    rw [List.forall_mem_cons, ← ih, itemsToJson?]
    cases toJson? n <;> cases itemsToJson? rest <;> simp

theorem isSome_fieldsToJson? {fields : List (Option String × Node)} :
    (fieldsToJson? fields).isSome ↔ ∀ f ∈ fields, f.1.isSome ∧ (toJson? f.2).isSome := by
  induction fields with
  | nil => simp [fieldsToJson?]
  | cons f rest ih =>
    obtain ⟨k, n⟩ := f
    rw [List.forall_mem_cons, ← ih]
    cases k with
    | none => simp [fieldsToJson?]
    | some k =>
      rw [fieldsToJson?]
      cases toJson? n <;> cases fieldsToJson? rest <;> simp

/-- The tree of any value has some value exactly if there is room for all its
brackets. -/
theorem isSome_toJson?_within {v : Json} {room : Nat} :
    (toJson? (within v room)).isSome ↔ v.depth ≤ room := by
  induction v using Json.induct generalizing room with
  | null => simp [within, toJson?, depth]
  | bool b => simp [within, toJson?, depth]
  | int n => simp [within, toJson?, depth]
  | float x => simp [within, toJson?, depth]
  | string s => simp [within, toJson?, depth]
  | array items ih =>
    rw [within, depth_array_le]
    split
    · rename_i hroom
      have hparts : (∀ n ∈ itemsWithin items (room - 1), (toJson? n).isSome) ↔
          ∀ v ∈ items, v.depth ≤ room - 1 := by
        rw [itemsWithin_eq_map, List.forall_mem_map]
        exact forall₂_congr fun v hv => ih v hv
      rw [toJson?, Option.isSome_map, isSome_itemsToJson?, hparts]
      exact (and_iff_right hroom).symm
    · rename_i hnone
      simp [toJson?, hnone]
  | object fields ih =>
    rw [within, depth_object_le]
    split
    · rename_i hroom
      have hparts : (∀ f ∈ fieldsWithin fields (room - 1), f.1.isSome ∧ (toJson? f.2).isSome) ↔
          ∀ f ∈ fields, f.2.depth ≤ room - 1 := by
        rw [fieldsWithin_eq_map, List.forall_mem_map]
        exact forall₂_congr fun f hf => by simpa using ih f hf
      rw [toJson?, Option.isSome_map, isSome_fieldsToJson?, hparts]
      exact (and_iff_right hroom).symm
    · rename_i hnone
      simp [toJson?, hnone]

theorem itemsOfJson_eq_map (items : List Json) : itemsOfJson items = items.map ofJson := by
  induction items with
  | nil => rfl
  | cons v rest ih => rw [itemsOfJson, ih, List.map_cons]

theorem fieldsOfJson_eq_map (fields : List (String × Json)) :
    fieldsOfJson fields = fields.map fun f => (some f.1, ofJson f.2) := by
  induction fields with
  | nil => rfl
  | cons f rest ih => rw [fieldsOfJson, ih, List.map_cons]

/-- Where there is room for all its brackets, the tree of a value is the same
as the one that is made without a text. -/
theorem ofJson_eq_within {v : Json} {room : Nat} (h : v.depth ≤ room) :
    ofJson v = within v room := by
  induction v using Json.induct generalizing room with
  | null => rfl
  | bool b => rfl
  | int n => rfl
  | float x => rfl
  | string s => rfl
  | array items ih =>
    obtain ⟨hroom, hitems⟩ := depth_array_le.mp h
    rw [ofJson, within, if_pos hroom, itemsOfJson_eq_map, itemsWithin_eq_map]
    simp only [array.injEq, and_true]
    exact List.map_congr_left fun v hv => ih v hv (hitems v hv)
  | object fields ih =>
    obtain ⟨hroom, hfields⟩ := depth_object_le.mp h
    rw [ofJson, within, if_pos hroom, fieldsOfJson_eq_map, fieldsWithin_eq_map]
    simp only [object.injEq, and_true]
    exact List.map_congr_left fun f hf => by rw [ih f hf (hfields f hf)]

theorem keys_fieldsWithin {tag : String} {fields : List (String × Json)}
    (h : ∀ f ∈ fields, f.1 ≠ tag) (room : Nat) :
    ∀ f ∈ fieldsWithin fields room, f.1 ≠ some tag := by
  induction fields with
  | nil => simp [fieldsWithin]
  | cons f rest ih =>
    obtain ⟨hf, hrest⟩ := List.forall_mem_cons.mp h
    rw [fieldsWithin]
    exact List.forall_mem_cons.mpr ⟨fun htag => hf (Option.some.inj htag), ih hrest⟩

end Node

end AgentLoop.Json
