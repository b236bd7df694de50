/-
AgentLoop.Proofs.Tool.Registry — what registrations make of a registry.

* `ToolSpec.check_ok_iff` — the descriptions that can be registered
* `Registry.Built` — the registries that registrations make of an empty one
* `Registry.Coherent`, `Built.coherent` — the index has the place of each tool
  under its name, and nothing else
* `Built.find?_eq_some_iff`, `Built.find?_eq_none_iff` — a tool is found under
  the name that it was registered with, and under no other name
* `Built.tool_unique`, `Built.parameters_nodup` — names are distinct

Tools and index grow together: a new name gets the place that the new tool is
about to take. As no name is registered twice, the places of the others stay
right.
-/
import AgentLoop.Tool.Registry

namespace AgentLoop

/-! ## Descriptions that can be registered -/

namespace ToolSpec

/-- No name is found a second time if there is none. -/
theorem firstRepeated_eq_none_iff {seen names : List String} :
    firstRepeated seen names = none ↔ names.Nodup ∧ ∀ n ∈ names, n ∉ seen := by
  induction names generalizing seen with
  | nil => simp [firstRepeated]
  | cons n rest ih =>
    by_cases hseen : n ∈ seen
    · simp [firstRepeated, hseen]
    · simp only [firstRepeated, List.contains_eq_mem, hseen, decide_false, Bool.false_eq_true,
        if_false, ih, List.nodup_cons]
      rw [List.forall_mem_cons]
      simp only [List.mem_cons, not_or]
      constructor
      · rintro ⟨hrest, hnew⟩
        exact ⟨⟨fun hmem => (hnew n hmem).1 rfl, hrest⟩, hseen, fun m hm => (hnew m hm).2⟩
      · rintro ⟨⟨hfirst, hrest⟩, -, hnew⟩
        refine ⟨hrest, fun m hm => ⟨?_, hnew m hm⟩⟩
        rintro rfl
        exact hfirst hm

/-- A description can be registered if its name is not blank and its
parameters have distinct names. -/
theorem check_ok_iff {s : ToolSpec} :
    s.check = .ok () ↔ Text.isBlank s.name = false ∧ (s.parameters.map (·.name)).Nodup := by
  have hnames := @firstRepeated_eq_none_iff [] (s.parameters.map (·.name))
  simp only [List.not_mem_nil, not_false_eq_true, implies_true, and_true] at hnames
  unfold check
  rw [← hnames]
  cases hblank : Text.isBlank s.name with
  | true => simp
  | false =>
    cases firstRepeated [] (s.parameters.map (·.name)) with
    | none => simp
    | some p => simp

end ToolSpec

/-! ## Registries -/

namespace Registry

variable {ε : Type} {r r' : Registry ε}

/-- The registry behind a registration. One that is refused leaves it as it
was. -/
def registered (r : Registry ε) (tool : RegisteredTool ε) : Registry ε :=
  (r.register tool.spec tool.executor).toOption.getD r

/-- The registries that registrations make of an empty one. -/
inductive Built : Registry ε → Prop
  | empty : Built empty
  | register {r : Registry ε} (tool : RegisteredTool ε) (before : Built r) :
      Built (r.registered tool)

/-- A registration that is not refused adds a tool at the end, and its name to
the index. -/
theorem register_ok_iff {spec : ToolSpec} {executor : ε} :
    r.register spec executor = .ok r' ↔
      spec.check = .ok () ∧ r.index.lookup spec.name = none ∧
        r' = { tools := r.tools ++ [⟨spec, executor⟩]
               index := (spec.name, r.tools.length) :: r.index } := by
  unfold register
  cases hcheck : spec.check with
  | error e => simp
  | ok u =>
    cases hlookup : r.index.lookup spec.name with
    | some i => simp
    | none => simp [eq_comm]

theorem getElem?_tools_added {tools : List (RegisteredTool ε)} {tool other : RegisteredTool ε}
    {i : Nat} : (tools ++ [tool])[i]? = some other ↔
      tools[i]? = some other ∨ i = tools.length ∧ tool = other := by
  rcases Nat.lt_trichotomy i tools.length with hlt | rfl | hgt
  · simp [List.getElem?_append_left hlt, Nat.ne_of_lt hlt]
  · simp
  · have hbeyond : (tools ++ [tool])[i]? = none := by
      rw [List.getElem?_eq_none_iff, List.length_append, List.length_singleton]
      exact hgt
    simp [hbeyond, Nat.le_of_lt hgt, Nat.ne_of_gt hgt]

/-- The index has the place of each tool under its name and nothing else, and
every description can be registered. -/
structure Coherent (r : Registry ε) : Prop where
  index : ∀ name i, r.index.lookup name = some i ↔
    ∃ tool, r.tools[i]? = some tool ∧ tool.spec.name = name
  checked : ∀ tool ∈ r.tools, tool.spec.check = .ok ()

namespace Coherent

theorem empty : (Registry.empty : Registry ε).Coherent where
  index := by simp [Registry.empty]
  checked := by simp [Registry.empty]

theorem register (h : r.Coherent) {spec : ToolSpec} {executor : ε}
    (ok : r.register spec executor = .ok r') : r'.Coherent := by
  obtain ⟨hcheck, hnew, rfl⟩ := register_ok_iff.mp ok
  constructor
  case checked =>
    intro tool htool
    rcases List.mem_append.mp htool with htool | htool
    · exact h.checked tool htool
    · rw [List.mem_singleton.mp htool]
      exact hcheck
  case index =>
    intro name i
    have hold := h.index name i
    by_cases hname : name = spec.name
    · -- no tool has the new name yet, so the place of the new one is the only one
      subst hname
      have hfree : ∀ tool, r.tools[i]? = some tool → tool.spec.name ≠ spec.name := by
        intro tool htool hname
        rw [hold.mpr ⟨tool, htool, hname⟩] at hnew
        cases hnew
      simp only [List.lookup_cons_self, getElem?_tools_added, Option.some.injEq]
      constructor
      · rintro rfl
        exact ⟨_, Or.inr ⟨rfl, rfl⟩, rfl⟩
      · rintro ⟨tool, htool | ⟨hplace, -⟩, hname⟩
        · exact absurd hname (hfree tool htool)
        · exact hplace.symm
    · simp only [List.lookup_cons, beq_eq_false_iff_ne.mpr hname, hold, getElem?_tools_added]
      constructor
      · rintro ⟨tool, htool, hname⟩
        exact ⟨tool, Or.inl htool, hname⟩
      · rintro ⟨tool, htool | ⟨-, rfl⟩, hother⟩
        · exact ⟨tool, htool, hother⟩
        · exact absurd hother.symm hname

theorem registered (h : r.Coherent) (tool : RegisteredTool ε) : (r.registered tool).Coherent := by
  unfold Registry.registered
  cases hregister : r.register tool.spec tool.executor with
  | error e => exact h
  | ok r' => exact h.register hregister

end Coherent

theorem Built.coherent (h : r.Built) : r.Coherent := by
  induction h with
  | empty => exact .empty
  | register tool before ih => exact ih.registered tool

/-- A tool is found under the name that it was registered with. -/
theorem Built.find?_eq_some_iff (h : r.Built) {name : String} {tool : RegisteredTool ε} :
    r.find? name = some tool ↔ tool ∈ r.tools ∧ tool.spec.name = name := by
  have hindex := h.coherent.index name
  simp only [find?, Option.bind_eq_some_iff, hindex]
  constructor
  · rintro ⟨i, ⟨other, hother, hname⟩, htool⟩
    rw [hother, Option.some.injEq] at htool
    rw [← htool]
    exact ⟨List.mem_of_getElem? hother, hname⟩
  · rintro ⟨hmem, hname⟩
    obtain ⟨i, hi⟩ := List.getElem?_of_mem hmem
    exact ⟨i, ⟨tool, hi, hname⟩, hi⟩

/-- Nothing is found under a name that no tool was registered with. -/
theorem Built.find?_eq_none_iff (h : r.Built) {name : String} :
    r.find? name = none ↔ ∀ tool ∈ r.tools, tool.spec.name ≠ name := by
  rw [Option.eq_none_iff_forall_ne_some]
  constructor
  · intro hnone tool htool hname
    exact hnone tool (h.find?_eq_some_iff.mpr ⟨htool, hname⟩)
  · intro hnone tool hfind
    obtain ⟨htool, hname⟩ := h.find?_eq_some_iff.mp hfind
    exact hnone tool htool hname

/-- There is one tool of a name. -/
theorem Built.tool_unique (h : r.Built) {tool other : RegisteredTool ε}
    (htool : tool ∈ r.tools) (hother : other ∈ r.tools) (hname : tool.spec.name = other.spec.name) :
    tool = other := by
  have hfind := h.find?_eq_some_iff.mpr ⟨htool, hname⟩
  have hfind' := h.find?_eq_some_iff.mpr ⟨hother, rfl⟩
  exact Option.some.inj (hfind.symm.trans hfind')

/-- The parameters of a registered tool have distinct names. -/
theorem Built.parameters_nodup (h : r.Built) {tool : RegisteredTool ε} (htool : tool ∈ r.tools) :
    (tool.spec.parameters.map (·.name)).Nodup :=
  (ToolSpec.check_ok_iff.mp (h.coherent.checked tool htool)).2

end Registry

end AgentLoop
