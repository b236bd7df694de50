/-
AgentLoop.Proofs.Json.Trees — what the trees of texts stand for.

* `sound_tokens` — no text has a number that no text can stand for
* `Node.Stands` — the value of a tree, if it has one, is well-formed and no
  deeper than there is room
* `Node.Sound`, `Node.Sound.stands` — a tree whose numbers are those of texts
  and that has room for its brackets; it stands for such a value
* `Assembly.Sound`, `Assembly.sound_step` — all that stands in the open brackets
  is sound, and stays so from token to token
* `Document.root_sound`, `Document.contents_stand` — the tree of any text is
  sound, so its parts stand for well-formed values that are not too deep

Nothing is asked of the text: it may break off, repeat keys or go on behind
its value. The room of a part is fixed by the brackets around it, so it is
known before the part is complete.
-/
import AgentLoop.Json.Node
import AgentLoop.Proofs.Json.Numerals
import AgentLoop.Proofs.Json.Values

namespace AgentLoop.Json

/-! ## Tokens -/

namespace Lexer

/-- All tokens so far are sound. -/
def Sound (l : Lexer) : Prop := ∀ t ∈ l.done, t.Sound

variable {l : Lexer}

theorem sound_emit (h : l.Sound) {t : Token} (ht : t.Sound) : (l.emit t).Sound :=
  List.forall_mem_cons.mpr ⟨ht, h⟩

theorem sound_stop (h : l.Sound) : l.stop.Sound := List.forall_mem_cons.mpr ⟨trivial, h⟩

theorem sound_settle (h : l.Sound) {t : Token} (ht : t.Sound) : (l.settle t).Sound := by
  unfold settle
  split
  · exact sound_stop h
  · exact sound_emit h ht

theorem sound_wordToken (cs : List Char) : (wordToken cs).Sound := by
  unfold wordToken
  repeat' split
  all_goals trivial

theorem sound_mark? {c : Char} {t : Token} (h : mark? c = some t) : t.Sound := by
  unfold mark? at h
  split at h <;> cases h <;> trivial

theorem sound_stepBetween (h : l.Sound) (c : Char) : (l.stepBetween c).Sound := by
  unfold stepBetween
  split
  · exact h
  · split
    · exact sound_emit h (sound_mark? ‹_›)
    · split
      · exact h
      · split
        · exact h
        · split
          · exact h
          · exact sound_stop h

/-- A token that has come to its end, and the character behind it. -/
theorem sound_behind (h : l.Sound) {t : Token} (ht : t.Sound) (c : Char) :
    (match (l.settle t).mode with
      | .stopped => l.settle t
      | _ => (l.settle t).stepBetween c).Sound := by
  have hsettled := sound_settle h ht
  split
  · exact hsettled
  · exact sound_stepBetween hsettled c

theorem sound_step (h : l.Sound) (c : Char) : (l.step c).Sound := by
  unfold step
  split
  · exact h
  · exact sound_stepBetween h c
  · split
    · exact h
    · exact sound_behind h (sound_numberToken _) c
  · split
    · exact h
    · exact sound_behind h (sound_wordToken _) c
  · split
    · exact sound_emit h trivial
    · split
      · exact h
      · split
        · exact sound_stop h
        · exact h
  · split
    · exact h
    · split
      · exact h
      · exact sound_stop h
  · split
    · exact sound_stop h
    · dsimp only
      split
      · exact h
      · exact h

theorem sound_foldl (h : l.Sound) (cs : List Char) : (cs.foldl step l).Sound := by
  induction cs generalizing l with
  | nil => exact h
  | cons c rest ih => exact ih (sound_step h c)

theorem sound_finish (h : l.Sound) : l.finish.Sound := by
  unfold finish
  split
  · exact h
  · exact h
  · exact sound_settle h (sound_numberToken _)
  · exact sound_settle h (sound_wordToken _)
  all_goals exact sound_stop h

end Lexer

/-- No text has a number that no text can stand for. -/
theorem sound_tokens (cs : List Char) : ∀ t ∈ tokens cs, t.Sound := by
  have hstart : Lexer.start.Sound := fun t ht => absurd ht List.not_mem_nil
  intro t ht
  exact Lexer.sound_finish (Lexer.sound_foldl hstart cs) t (List.mem_reverse.mp ht)

/-! ## Trees -/

namespace Node

/-- The value of a tree, if it has one, is well-formed and no deeper than
there is room. -/
def Stands (room : Nat) (n : Node) : Prop :=
  ∀ v, n.toJson? = some v → v.WellFormed ∧ v.depth ≤ room

/-- What stands in a tree, one bracket further in. -/
def contents : Node → List Node
  | .array items _ => items
  | .object fields _ => fields.map (·.2)
  | _ => []

theorem mem_of_itemsToJson? {items : List Node} {vs : List Json}
    (h : itemsToJson? items = some vs) {v : Json} (hv : v ∈ vs) :
    ∃ n ∈ items, n.toJson? = some v := by
  induction items generalizing vs with
  | nil =>
    cases h
    cases hv
  | cons n rest ih =>
    rw [itemsToJson?] at h
    split at h
    · rename_i first others hfirst hothers
      cases h
      rcases List.mem_cons.mp hv with rfl | hv
      · exact ⟨n, List.mem_cons_self, hfirst⟩
      · obtain ⟨m, hm, hvalue⟩ := ih hothers hv
        exact ⟨m, List.mem_cons_of_mem n hm, hvalue⟩
    · cases h

theorem mem_of_fieldsToJson? {fields : List (Option String × Node)}
    {fs : List (String × Json)} (h : fieldsToJson? fields = some fs) {f : String × Json}
    (hf : f ∈ fs) : ∃ n ∈ fields.map (·.2), n.toJson? = some f.2 := by
  induction fields generalizing fs with
  | nil =>
    cases h
    cases hf
  | cons g rest ih =>
    obtain ⟨k, n⟩ := g
    cases k with
    | none => cases h
    | some k =>
      rw [fieldsToJson?] at h
      split at h
      · rename_i first others hfirst hothers
        cases h
        rcases List.mem_cons.mp hf with rfl | hf
        · exact ⟨n, List.mem_cons_self, hfirst⟩
        · obtain ⟨m, hm, hvalue⟩ := ih hothers hf
          exact ⟨m, List.mem_cons_of_mem n hm, hvalue⟩
      · cases h

theorem stands_array {items : List Node} {room : Nat} (h : ∀ n ∈ items, n.Stands room) :
    (Node.array items true).Stands (room + 1) := by
  intro v hv
  rw [toJson?] at hv
  obtain ⟨vs, hvs, rfl⟩ := Option.map_eq_some_iff.mp hv
  have hparts : ∀ w ∈ vs, w.WellFormed ∧ w.depth ≤ room := by
    intro w hw
    obtain ⟨n, hn, hvalue⟩ := mem_of_itemsToJson? hvs hw
    exact h n hn w hvalue
  refine ⟨wellFormed_array.mpr fun w hw => (hparts w hw).1, ?_⟩
  exact depth_array_le.mpr ⟨Nat.succ_pos room, fun w hw => (hparts w hw).2⟩

/-- Keys may be repeated and in any order. -/
theorem stands_object {fields : List (Option String × Node)} {room : Nat}
    (h : ∀ n ∈ fields.map (·.2), n.Stands room) : (Node.object fields true).Stands (room + 1) := by
  intro v hv
  rw [toJson?] at hv
  obtain ⟨fs, hfs, rfl⟩ := Option.map_eq_some_iff.mp hv
  have hparts : ∀ f ∈ Fields.ofList fs, f.2.WellFormed ∧ f.2.depth ≤ room := by
    intro f hf
    obtain ⟨n, hn, hvalue⟩ := mem_of_fieldsToJson? hfs (Fields.mem_of_mem_ofList hf)
    exact h n hn f.2 hvalue
  refine ⟨wellFormed_object.mpr ⟨Fields.ofList_ascending fs, fun f hf => (hparts f hf).1⟩, ?_⟩
  exact depth_object_le.mpr ⟨Nat.succ_pos room, fun f hf => (hparts f hf).2⟩

/-- A tree whose numbers are those of texts, with room for all the brackets
that are closed in it. -/
inductive Sound : Nat → Node → Prop
  | null {room : Nat} : Sound room .null
  | bool {room : Nat} {b : Bool} : Sound room (.bool b)
  | number {room : Nat} {v : Json} (hwell : v.WellFormed) (hnumber : v.IsNumber) :
    Sound room (.number v)
  | text {room : Nat} {s : String} : Sound room (.text s)
  | array {room : Nat} {items : List Node} {closed : Bool} (hroom : closed = true → 0 < room)
    (hitems : ∀ n ∈ items, Sound (room - 1) n) : Sound room (.array items closed)
  | object {room : Nat} {fields : List (Option String × Node)} {closed : Bool}
    (hroom : closed = true → 0 < room)
    (hfields : ∀ n ∈ fields.map (·.2), Sound (room - 1) n) : Sound room (.object fields closed)
  | unreadable {room : Nat} : Sound room .unreadable

theorem Sound.contents {n : Node} {room : Nat} (h : n.Sound room) :
    ∀ m ∈ n.contents, m.Sound (room - 1) := by
  cases h with
  | array hroom hitems => exact hitems
  | object hroom hfields => exact hfields
  | _ => exact fun m hm => absurd hm List.not_mem_nil

/-- A sound tree stands for a well-formed value for which there is room. -/
theorem Sound.stands {n : Node} {room : Nat} (h : n.Sound room) : n.Stands room := by
  have hscalar : ∀ {n : Node} {v : Json} {room : Nat}, n.toJson? = some v → v.WellFormed →
      v.depth = 0 → n.Stands room := by
    intro n v room hv hwell hdepth w hw
    rw [hv, Option.some.injEq] at hw
    rw [← hw]
    exact ⟨hwell, by omega⟩
  induction h with
  | null => exact hscalar rfl rfl rfl
  | bool => exact hscalar rfl rfl rfl
  | number hwell hnumber =>
    rename_i v
    refine hscalar rfl hwell ?_
    cases v <;> first | rfl | cases hnumber
  | text => exact hscalar rfl rfl rfl
  | array hroom hitems ih =>
    rename_i room items closed
    cases closed with
    | false => rintro v ⟨⟩
    | true =>
      have hvalue := stands_array ih
      rwa [Nat.sub_add_cancel (hroom rfl)] at hvalue
  | object hroom hfields ih =>
    rename_i room fields closed
    cases closed with
    | false => rintro v ⟨⟩
    | true =>
      have hvalue := stands_object ih
      rwa [Nat.sub_add_cancel (hroom rfl)] at hvalue
  | unreadable => rintro v ⟨⟩

end Node

/-! ## Open brackets -/

/-- What stands in an open bracket. -/
def Frame.contents : Frame → List Node
  | .array items => items
  | .object fields _ => fields.map (·.2)

namespace Assembly

/-- All that stands in some open brackets, inmost first, is sound where it
is. -/
def FramesSound : List Frame → Prop
  | [] => True
  | frame :: rest =>
    (∀ n ∈ frame.contents, n.Sound (deepest - 1 - rest.length)) ∧ FramesSound rest

/-- All that is there of a tree is sound. -/
structure Sound (a : Assembly) : Prop where
  frames : FramesSound a.stack
  root : ∀ n, a.root = some n → n.Sound deepest

/-- A bracket is as sound as what stands in it. -/
theorem sound_node {frame : Frame} {level : Nat} {closed : Bool}
    (hroom : closed = true → level < deepest)
    (h : ∀ n ∈ frame.contents, n.Sound (deepest - 1 - level)) :
    (Frame.node closed frame).Sound (deepest - level) := by
  have hlevel : deepest - 1 - level = deepest - level - 1 := Nat.sub_right_comm _ _ _
  have hopen : closed = true → 0 < deepest - level := fun hclosed =>
    Nat.sub_pos_of_lt (hroom hclosed)
  rw [hlevel] at h
  cases frame with
  | array items => exact .array hopen fun n hn => h n (List.mem_reverse.mp hn)
  | object fields key =>
    refine .object hopen fun n hn => h n ?_
    simpa [Json.Frame.contents] using hn

theorem sound_adopt {child : Node} {frame : Frame} {room : Nat} (hchild : child.Sound room)
    (h : ∀ n ∈ frame.contents, n.Sound room) :
    ∀ n ∈ (Frame.adopt child frame).contents, n.Sound room := by
  cases frame <;> exact List.forall_mem_cons.mpr ⟨hchild, h⟩

variable {a : Assembly}

theorem sound_put (h : a.Sound) {n : Node} (hn : n.Sound (deepest - a.stack.length)) :
    (a.put n).Sound := by
  obtain ⟨stack, e, root, broken⟩ := a
  cases stack with
  | nil =>
    refine ⟨trivial, ?_⟩
    rintro m ⟨⟩
    exact hn
  | cons frame rest =>
    obtain ⟨hframe, hrest⟩ := h.frames
    rw [List.length_cons, Nat.add_comm, ← Nat.sub_sub] at hn
    cases frame with
    | array items => exact ⟨⟨List.forall_mem_cons.mpr ⟨hn, hframe⟩, hrest⟩, h.root⟩
    | object fields key => exact ⟨⟨List.forall_mem_cons.mpr ⟨hn, hframe⟩, hrest⟩, h.root⟩

theorem sound_close (h : a.Sound) : a.close.Sound := by
  obtain ⟨stack, e, root, broken⟩ := a
  cases stack with
  | nil => exact ⟨h.frames, h.root⟩
  | cons frame rest =>
    obtain ⟨hframe, hrest⟩ := h.frames
    have hbase : Sound ⟨rest, e, root, broken⟩ := ⟨hrest, h.root⟩
    simp only [close]
    split
    · rename_i hroom
      exact sound_put hbase (sound_node (fun _ => hroom) hframe)
    · exact sound_put hbase .unreadable

theorem sound_push (h : a.Sound) {frame : Frame} (hnone : frame.contents = []) (e : Expect) :
    (a.push frame e).Sound := by
  refine ⟨⟨?_, h.frames⟩, h.root⟩
  rw [hnone]
  exact fun n hn => absurd hn List.not_mem_nil

theorem sound_value (h : a.Sound) {t : Token} (ht : t.Sound) : (a.value t).Sound := by
  unfold value
  split
  · exact sound_put h .null
  · exact sound_put h .bool
  · exact sound_put h (.number ht.1 ht.2)
  · exact sound_put h .unreadable
  · exact sound_put h .text
  · exact sound_put h .unreadable
  · exact sound_push h rfl _
  · exact sound_push h rfl _
  · exact ⟨h.frames, h.root⟩

theorem sound_key (h : a.Sound) (t : Token) : (a.key t).Sound := by
  unfold key
  split
  · split
    · rename_i hstack
      have hframes := h.frames
      rw [hstack] at hframes
      exact ⟨hframes, h.root⟩
    · exact ⟨h.frames, h.root⟩
  · exact ⟨h.frames, h.root⟩

theorem sound_step (h : a.Sound) {t : Token} (ht : t.Sound) : (a.step t).Sound := by
  unfold step
  split
  · exact h
  · split
    · exact sound_value h ht
    · exact sound_close h
    · exact sound_value h ht
    · exact ⟨h.frames, h.root⟩
    · exact sound_close h
    · exact sound_close h
    · exact sound_key h _
    · exact sound_key h _
    · exact ⟨h.frames, h.root⟩
    · exact ⟨h.frames, h.root⟩
    · exact sound_close h
    · exact ⟨h.frames, h.root⟩

theorem sound_foldl (h : a.Sound) {ts : List Token} (hts : ∀ t ∈ ts, t.Sound) :
    (ts.foldl step a).Sound := by
  induction ts generalizing a with
  | nil => exact h
  | cons t rest ih =>
    obtain ⟨ht, hrest⟩ := List.forall_mem_cons.mp hts
    exact ih (sound_step h ht) hrest

/-- Brackets that were never closed are put into each other. -/
theorem sound_collapse {stack : List Frame} (h : FramesSound stack) {child : Option Node}
    (hchild : ∀ c, child = some c → c.Sound (deepest - stack.length)) {n : Node}
    (hn : collapse child stack = some n) : n.Sound deepest := by
  induction stack generalizing child with
  | nil => exact hchild n hn
  | cons frame rest ih =>
    obtain ⟨hframe, hrest⟩ := h
    rw [List.length_cons, Nat.add_comm, ← Nat.sub_sub] at hchild
    simp only [collapse] at hn
    refine ih hrest ?_ hn
    rintro c ⟨⟩
    refine sound_node nofun ?_
    cases child with
    | none => exact hframe
    | some c => exact sound_adopt (hchild c rfl) hframe

end Assembly

/-- The tree of any text is sound. -/
theorem Document.root_sound {cs : List Char} {n : Node}
    (h : (Document.ofChars cs).root = some n) : n.Sound deepest := by
  have hstart : Assembly.start.Sound := ⟨trivial, nofun⟩
  have hsound := Assembly.sound_foldl hstart (sound_tokens cs)
  rw [Document.ofChars] at h
  generalize (tokens cs).foldl Assembly.step Assembly.start = a at h hsound
  rw [Assembly.finish] at h
  split at h
  · rename_i root hroot
    cases h
    exact hsound.root _ hroot
  · exact Assembly.sound_collapse hsound.frames (by rintro c ⟨⟩) h

/-- The parts of the tree of any text stand for well-formed values that are
not too deep. -/
theorem Document.contents_stand {cs : List Char} {n : Node}
    (h : (Document.ofChars cs).root = some n) : ∀ m ∈ n.contents, m.Stands (deepest - 1) :=
  fun m hm => ((root_sound h).contents m hm).stands

end AgentLoop.Json
