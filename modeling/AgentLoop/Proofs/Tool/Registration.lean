/-
AgentLoop.Proofs.Tool.Registration — a registry from its first registration on.

* `Registry.registering`, `run_registering` — a registration as it is carried out
  on a registry in place; this comes to the same as `Registry.register`
* `registeredAll`, `accepted` — what registrations make of a registry, and those of
  them that are not refused
* `Built.registers_iff` — when a registration is not refused
* `Registry.Holds`, `Built.holds` — a registry has just some tools, in their order,
  and finds each of them under its name
* `registrations_coherent` — a registry holds the registrations that it did not
  refuse

A registration looks at everything before it changes anything, so a refused one
has nothing to undo. The index and the tools are changed one after the other; in
between a name has a place that no tool has yet.
-/
import AgentLoop.Proofs.InPlace
import AgentLoop.Proofs.Tool.Invocation

namespace AgentLoop

namespace Registry

variable {ε : Type} {r r' : Registry ε}

/-! ## In place -/

/-- A registration on a registry in place. The index gets the name first, with the
place that the tool is about to take. -/
def registering (spec : ToolSpec) (executor : ε) : InPlace RegisterError (Registry ε) Unit := do
  liftExcept (spec.check.mapError RegisterError.badSpec)
  if ((← get).index.lookup spec.name).isSome then
    throw (.nameTaken spec.name)
  modify fun r => { r with index := (spec.name, r.tools.length) :: r.index }
  modify fun r => { r with tools := r.tools ++ [⟨spec, executor⟩] }

/-- In place, a registration puts the new registry where the old one was, or
breaks off before anything has changed. -/
theorem run_registering (spec : ToolSpec) (executor : ε) (r : Registry ε) :
    (registering spec executor).run.run r = InPlace.commit r (r.register spec executor) := by
  rw [registering, InPlace.run_liftExcept_bind, register]
  cases spec.check with
  | error e => rfl
  | ok _ =>
    dsimp only [Except.mapError]
    rw [InPlace.run_get_bind]
    split
    · rfl
    · rfl

/-! ## One registration after the other -/

/-- The registry behind some registrations; those that are refused leave it as it
is. -/
def registeredAll (r : Registry ε) (tools : List (RegisteredTool ε)) : Registry ε :=
  tools.foldl registered r

/-- The registrations that are not refused. -/
def accepted (r : Registry ε) : List (RegisteredTool ε) → List (RegisteredTool ε)
  | [] => []
  | tool :: rest =>
    match r.register tool.spec tool.executor with
    | .ok r' => tool :: r'.accepted rest
    | .error _ => r.accepted rest

theorem Built.registeredAll (h : r.Built) (tools : List (RegisteredTool ε)) :
    (r.registeredAll tools).Built := by
  induction tools generalizing r with
  | nil => exact h
  | cons tool rest ih => exact ih (h.register tool)

/-- Registrations add those of them that are not refused, in their order. -/
theorem tools_registeredAll (r : Registry ε) (tools : List (RegisteredTool ε)) :
    (r.registeredAll tools).tools = r.tools ++ r.accepted tools := by
  induction tools generalizing r with
  | nil => exact (List.append_nil _).symm
  | cons tool rest ih =>
    show ((r.registered tool).registeredAll rest).tools = _
    rw [ih, registered, accepted]
    cases hregister : r.register tool.spec tool.executor with
    | error e => rfl
    | ok r' =>
      obtain ⟨-, -, rfl⟩ := register_ok_iff.mp hregister
      simp [Except.toOption]

/-! ## What a registry holds -/

/-- A name is free if no tool has it. -/
theorem Built.lookup_eq_none_iff (h : r.Built) {name : String} :
    r.index.lookup name = none ↔ ∀ tool ∈ r.tools, tool.spec.name ≠ name := by
  rw [Option.eq_none_iff_forall_ne_some]
  constructor
  · intro hnone tool htool hname
    obtain ⟨i, hi⟩ := List.getElem?_of_mem htool
    exact hnone i ((h.coherent.index name i).mpr ⟨tool, hi, hname⟩)
  · intro hnone i hlookup
    obtain ⟨tool, htool, hname⟩ := (h.coherent.index name i).mp hlookup
    exact hnone tool (List.mem_of_getElem? htool) hname

/-- A registration is not refused if its description can be registered and its name
is free. -/
theorem Built.registers_iff (h : r.Built) {spec : ToolSpec} {executor : ε} :
    (∃ r', r.register spec executor = .ok r') ↔
      Text.isBlank spec.name = false ∧ (spec.parameters.map (·.name)).Nodup ∧
        ∀ tool ∈ r.tools, tool.spec.name ≠ spec.name := by
  rw [← h.lookup_eq_none_iff, ← and_assoc, ← ToolSpec.check_ok_iff]
  constructor
  · rintro ⟨r', ok⟩
    obtain ⟨hcheck, hfree, -⟩ := register_ok_iff.mp ok
    exact ⟨hcheck, hfree⟩
  · rintro ⟨hcheck, hfree⟩
    exact ⟨_, register_ok_iff.mpr ⟨hcheck, hfree, rfl⟩⟩

/-- The index has the place of each name. -/
theorem Built.lookup_eq_some_iff (h : r.Built) {name : String} {i : Nat} :
    r.index.lookup name = some i ↔ r.names[i]? = some name := by
  rw [h.coherent.index, names, List.getElem?_map, Option.map_eq_some_iff]

/-- A name has one place, so it stands there once. -/
theorem Built.names_nodup (h : r.Built) : r.names.Nodup := by
  rw [List.Nodup, List.pairwise_iff_getElem]
  intro i j hi hj hlt hsame
  have hfirst := h.lookup_eq_some_iff.mpr (List.getElem?_eq_getElem hi)
  rw [hsame, h.lookup_eq_some_iff.mpr (List.getElem?_eq_getElem hj), Option.some.injEq] at hfirst
  omega

/-- A registry has just some tools, in their order. The index has the place of each
name and nothing else, so a tool is found, and run, under its name, and nothing is
found under any other. -/
structure Holds {σ : Type} (r : Registry (Executor σ))
    (tools : List (RegisteredTool (Executor σ))) : Prop where
  described : r.describeAll = tools.map (·.spec)
  named : r.names = tools.map (·.spec.name)
  distinct : r.names.Nodup
  index : ∀ name i, r.index.lookup name = some i ↔ r.names[i]? = some name
  in_range : ∀ name i, r.index.lookup name = some i → i < r.tools.length
  found : ∀ tool ∈ tools, r.find? tool.spec.name = some tool ∧
    r.get? tool.spec.name = some tool.spec
  not_found : ∀ name, name ∉ r.names → r.find? name = none ∧ r.get? name = none
  runs : ∀ tool ∈ tools, ∀ limit request world, request.toolName = tool.spec.name →
    r.invoke limit request world =
      match tool.spec.validateArguments request.arguments with
      | .error vs => (.refused request.callId (.schemaViolation request.toolName vs), world)
      | .ok arguments =>
        (.ofExecution request.callId request.toolName limit (tool.executor arguments world).1,
          (tool.executor arguments world).2)
  runs_nothing : ∀ limit request world, request.toolName ∉ r.names →
    r.invoke limit request world =
      (.refused request.callId (.unknownTool request.toolName r.names), world)

theorem Built.holds {σ : Type} {r : Registry (Executor σ)} (h : r.Built) : r.Holds r.tools := by
  have hnone : ∀ name, name ∉ r.names → ∀ tool ∈ r.tools, tool.spec.name ≠ name := by
    rintro name hname tool htool rfl
    exact hname (List.mem_map_of_mem htool)
  have hfound : ∀ tool ∈ r.tools, r.find? tool.spec.name = some tool := fun tool htool =>
    h.find?_eq_some_iff.mpr ⟨htool, rfl⟩
  refine {
    described := rfl, named := rfl, distinct := h.names_nodup
    index := fun _ _ => h.lookup_eq_some_iff
    in_range := ?_, found := ?_, not_found := ?_, runs := ?_, runs_nothing := ?_ }
  · intro name i hlookup
    obtain ⟨tool, htool, -⟩ := (h.coherent.index name i).mp hlookup
    exact (List.getElem?_eq_some_iff.mp htool).1
  · intro tool htool
    rw [get?, hfound tool htool]
    exact ⟨rfl, rfl⟩
  · intro name hname
    rw [get?, h.find?_eq_none_iff.mpr (hnone name hname)]
    exact ⟨rfl, rfl⟩
  · intro tool htool limit request world hname
    cases haccepted : tool.spec.validateArguments request.arguments with
    | error vs => exact h.invoke_rejected htool hname.symm haccepted limit world
    | ok arguments => exact h.invoke_runs ⟨htool, hname.symm, haccepted⟩ limit world
  · intro limit request world hname
    exact h.invoke_unknown (hnone _ hname) limit world

/-- Behind any registrations on a new registry, it holds those that it did not
refuse. It refuses one more exactly if that has a blank name, or two parameters of
one name, or the name of one that it did not refuse. In place, a refused one leaves
the registry as it was. -/
theorem registrations_coherent {σ : Type} (tools : List (RegisteredTool (Executor σ))) :
    let r := empty.registeredAll tools
    let held := empty.accepted tools
    r.tools = held ∧ r.Holds held ∧
      ∀ spec executor,
        ((∃ r', r.register spec executor = .ok r') ↔
          Text.isBlank spec.name = false ∧ (spec.parameters.map (·.name)).Nodup ∧
            ∀ tool ∈ held, tool.spec.name ≠ spec.name) ∧
        (registering spec executor).run.run r =
          InPlace.commit r (r.register spec executor) := by
  intro r held
  have hbuilt : r.Built := Built.empty.registeredAll tools
  have hheld : r.tools = held := tools_registeredAll empty tools
  refine ⟨hheld, ?_, fun spec executor => ⟨?_, run_registering spec executor r⟩⟩
  · rw [← hheld]
    exact hbuilt.holds
  · rw [← hheld]
    exact hbuilt.registers_iff

/-- A tool without a name. -/
def namelessTool : RegisteredTool (Executor Unit) := ⟨⟨" ", "", []⟩, slowTool.executor⟩

/-- Two tools, one of them once more, and one without a name. The first two are held,
and one with a parameter that is declared twice would not be. -/
theorem quick_and_slow_held :
    let twice : ToolSpec := ⟨"twice", "", [.mandatory "x" .string "", .optional "x" .number ""]⟩
    let r := empty.registeredAll [quickTool, slowTool, quickTool, namelessTool]
    r.tools = [quickTool, slowTool] ∧ r.names = ["quick", "slow"] ∧
      r.index.lookup "slow" = some 1 ∧ r.find? "slow" = some slowTool ∧ r.get? "loud" = none ∧
      (¬ ∃ r', r.register twice slowTool.executor = .ok r') ∧
      ∃ e, (registering quickTool.spec quickTool.executor).run.run r = (.error e, r) := by
  intro twice r
  obtain ⟨htools, hholds, hnext⟩ :=
    registrations_coherent [quickTool, slowTool, quickTool, namelessTool]
  have hheld : empty.accepted [quickTool, slowTool, quickTool, namelessTool] =
      [quickTool, slowTool] := rfl
  rw [hheld] at htools hholds
  have hnames : r.names = ["quick", "slow"] := hholds.named
  refine ⟨htools, hnames, (hholds.index "slow" 1).mpr ?_, (hholds.found slowTool ?_).1,
    (hholds.not_found "loud" ?_).2, ?_, ?_⟩
  · rw [hnames]
    rfl
  · exact List.mem_cons_of_mem _ List.mem_cons_self
  · rw [hnames]
    decide
  · rw [(hnext twice slowTool.executor).1]
    rintro ⟨-, hdistinct, -⟩
    exact absurd hdistinct (by decide)
  · have hrefused : ¬ ∃ r', r.register quickTool.spec quickTool.executor = .ok r' := by
      rw [(hnext quickTool.spec quickTool.executor).1, hheld]
      rintro ⟨-, -, hfree⟩
      exact hfree quickTool List.mem_cons_self rfl
    cases hregister : r.register quickTool.spec quickTool.executor with
    | ok r' => exact absurd ⟨r', hregister⟩ hrefused
    | error e => exact ⟨e, (hnext _ _).2.trans (congrArg (InPlace.commit r) hregister)⟩

end Registry

end AgentLoop
