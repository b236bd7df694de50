/-
AgentLoop.Proofs.Tool.Invocation — what becomes of a call.

* `ToolFailure.toValue_eq_toJson` — a failure is spelled out field by field as
  its record
* `ToolCallResult.failureDetails_failure` — the failure is read back from the
  result that spells it out
* `Registry.Runs` — the tool and the arguments that a call is run with
* `Registry.invoke_unknown`, `Built.invoke_rejected`, `Built.invoke_runs`,
  `Built.call_cases`, `Built.invoke_cases` — the ways that a call can go
* `Registry.starts` — what a call starts, as watched tools note it
* `Built.invoke_classified` — a call has one result, and it is of the right kind

A tool is a function of the world that it is run in, so a call that runs it
twice, or not at all, leaves another world behind. Watched tools note their
starts next to the world and are otherwise the same.
-/
import AgentLoop.Message.FreshId
import AgentLoop.Proofs.Tool.Batch
import AgentLoop.Proofs.Tool.Registry
import AgentLoop.Proofs.Wire.Results

namespace AgentLoop

/-! ## Failures as the model is told of them -/

namespace FieldViolation

theorem wellFormed_toJson (v : FieldViolation) : v.toJson.WellFormed := rfl

end FieldViolation

namespace ToolFailure

/-- The fields of a failure are in order as they are. -/
theorem wellFormed_toJson (f : ToolFailure) : f.toJson.WellFormed := by
  have hrow : (Json.array (f.violations.map FieldViolation.toJson)).WellFormed := by
    rw [Json.wellFormed_array, List.forall_mem_map]
    intro v _
    exact v.wellFormed_toJson
  unfold toJson
  rw [Json.wellFormed_object]
  split
  · have hkeys : ["kind", "message"].Pairwise (· < ·) := by decide
    refine ⟨List.pairwise_map.mp hkeys, ?_⟩
    intro g hg
    simp only [List.append_nil, List.mem_cons, List.not_mem_nil, or_false] at hg
    rcases hg with rfl | rfl
    · rfl
    · rfl
  · have hkeys : ["kind", "message", "violations"].Pairwise (· < ·) := by decide
    refine ⟨List.pairwise_map.mp hkeys, ?_⟩
    intro g hg
    simp only [List.cons_append, List.nil_append, List.mem_cons, List.not_mem_nil, or_false] at hg
    rcases hg with rfl | rfl | rfl
    · rfl
    · rfl
    · exact hrow

/-- A failure is spelled out field by field as its record. -/
theorem toValue_eq_toJson (f : ToolFailure) : f.toValue = f.toJson := by
  have hfields := Fields.ofList_of_ascending
    (Json.wellFormed_object.mp f.wellFormed_toJson).1
  simp only [toValue, toJson]
  rw [← hfields]
  simp only [Fields.ofList, List.foldl_append]
  split <;> rfl

end ToolFailure

/-- The failure is read back from the result that spells it out. -/
theorem ToolCallResult.failureDetails_failure (id : CallId) (f : ToolFailure) :
    (failure id f).failureDetails = some f := by
  have hread := (ToolFailure.faithful.reads f True.intro).ofJson
  simp [failureDetails, failure, ToolFailure.toValue_eq_toJson, hread, Except.toOption]

/-! ## A run under a time limit -/

namespace Execution

/-- A run ends within the time that it is given. -/
def EndsWithin (e : Execution) (limit : Option Nat) (ms : Nat) (outcome : ExecutorOutcome) :
    Prop :=
  e.ending = some (ms, outcome) ∧ ∀ l, limit = some l → ms ≤ l

/-- A run is not over when its time is up. -/
def Overruns (e : Execution) (limit : Option Nat) (l : Nat) : Prop :=
  limit = some l ∧ ∀ ms outcome, e.ending = some (ms, outcome) → l < ms

end Execution

namespace Invocation

variable {limit : Option Nat} {e : Execution}

theorem lasts_iff {ms : Nat} : lasts limit ms = true ↔ ∀ l, limit = some l → ms ≤ l := by
  cases limit <;> simp [lasts]

theorem result_of_endsWithin (id : CallId) (tool : String) {ms : Nat} {outcome : ExecutorOutcome}
    (h : e.EndsWithin limit ms outcome) :
    (ofExecution id tool limit e).result = some (ms, .ofOutcome id tool outcome) := by
  obtain ⟨hending, hlimit⟩ := h
  simp [ofExecution, hending, lasts_iff.mpr hlimit]

theorem result_of_overruns (id : CallId) (tool : String) {l : Nat} (h : e.Overruns limit l) :
    (ofExecution id tool limit e).result = some (l, .timedOut id tool l) := by
  obtain ⟨rfl, hending⟩ := h
  unfold ofExecution
  cases hrun : e.ending with
  | none => simp
  | some ending =>
    obtain ⟨ms, outcome⟩ := ending
    have hlate : ¬ ms ≤ l := Nat.not_le.mpr (hending ms outcome hrun)
    simp [lasts, hlate]

/-- A run ends in time or overruns, unless it never ends and has no limit. -/
theorem endsWithin_or_overruns (h : limit.isSome ∨ e.ending.isSome) :
    (∃ ms outcome, e.EndsWithin limit ms outcome) ∨ ∃ l, e.Overruns limit l := by
  unfold Execution.EndsWithin Execution.Overruns
  cases limit with
  | none =>
    obtain ⟨⟨ms, outcome⟩, hending⟩ := Option.isSome_iff_exists.mp (h.resolve_left (by simp))
    exact Or.inl ⟨ms, outcome, hending, by simp⟩
  | some l =>
    cases hending : e.ending with
    | none => exact Or.inr ⟨l, rfl, by simp⟩
    | some ending =>
      obtain ⟨ms, outcome⟩ := ending
      by_cases hle : ms ≤ l
      · exact Or.inl ⟨ms, outcome, rfl, by simpa using hle⟩
      · exact Or.inr ⟨l, rfl, by simpa using hle⟩

/-- What a run comes to is its end, or that it has overrun. -/
theorem result_cases {id : CallId} {tool : String} {ms : Nat} {result : ToolCallResult}
    (h : (ofExecution id tool limit e).result = some (ms, result)) :
    (∃ outcome, e.EndsWithin limit ms outcome ∧ result = .ofOutcome id tool outcome) ∨
      e.Overruns limit ms ∧ result = .timedOut id tool ms := by
  by_cases hends : limit.isSome ∨ e.ending.isSome
  · rcases endsWithin_or_overruns hends with ⟨ms', outcome, hwithin⟩ | ⟨l, hover⟩
    · rw [result_of_endsWithin id tool hwithin] at h
      cases h
      exact Or.inl ⟨outcome, hwithin, rfl⟩
    · rw [result_of_overruns id tool hover] at h
      cases h
      exact Or.inr ⟨hover, rfl⟩
  · simp only [not_or, Bool.not_eq_true, Option.isSome_eq_false_iff, Option.isNone_iff_eq_none]
      at hends
    simp [ofExecution, hends.1, hends.2] at h

/-- A call has failed after so many milliseconds, and the model can be told of
it. -/
def FailsWith (call : Invocation) (ms : Nat) (kind : ToolErrorKind)
    (violations : List FieldViolation) : Prop :=
  ∃ result f, call.result = some (ms, result) ∧ result.status = .error ∧
    result.failureDetails = some f ∧ f.kind = kind ∧ f.violations = violations

theorem failsWith_of_result {call : Invocation} {ms : Nat} {id : CallId} {f : ToolFailure}
    (h : call.result = some (ms, .failure id f)) : call.FailsWith ms f.kind f.violations :=
  ⟨_, f, h, rfl, ToolCallResult.failureDetails_failure id f, rfl, rfl⟩

theorem failsWith_refused (id : CallId) (f : ToolFailure) :
    (refused id f).FailsWith 0 f.kind f.violations :=
  failsWith_of_result rfl

/-- A run that ends with an error or a crash comes to a failed result. -/
theorem failsWith_of_outcome {call : Invocation} {ms : Nat} {id : CallId} {tool : String}
    {outcome : ExecutorOutcome} (hfailed : ∀ v, outcome ≠ .value v)
    (h : call.result = some (ms, .ofOutcome id tool outcome)) :
    call.FailsWith ms .executionFailed [] := by
  cases outcome with
  | value v => exact absurd rfl (hfailed v)
  | failed causes => exact failsWith_of_result h
  | crashed report => exact failsWith_of_result h

end Invocation

/-- A result is of a value, or it spells out a failure. -/
def ToolCallResult.Explained (result : ToolCallResult) : Prop :=
  result.status = .error → ∃ f, result.failureDetails = some f ∧ result.content = f.toJson

namespace ToolCallResult

theorem explained_failure (id : CallId) (f : ToolFailure) : (failure id f).Explained := by
  intro _
  exact ⟨f, failureDetails_failure id f, f.toValue_eq_toJson⟩

theorem explained_ofOutcome (id : CallId) (tool : String) (outcome : ExecutorOutcome) :
    (ofOutcome id tool outcome).Explained := by
  cases outcome with
  | value v =>
    intro h
    cases h
  | failed causes => exact explained_failure id _
  | crashed report => exact explained_failure id _

end ToolCallResult

/-! ## The three ways of a call -/

namespace Registry

variable {σ : Type} {r : Registry (Executor σ)} {limit : Option Nat} {request : ToolCallRequest}
  {world : σ} {tool : RegisteredTool (Executor σ)} {arguments : Fields}

/-- The tool of a call's name, and arguments of the call that it takes. -/
structure Runs (r : Registry (Executor σ)) (request : ToolCallRequest)
    (tool : RegisteredTool (Executor σ)) (arguments : Fields) : Prop where
  registered : tool ∈ r.tools
  named : tool.spec.name = request.toolName
  accepted : tool.spec.validateArguments request.arguments = .ok arguments

theorem Built.invoke_unknown (h : r.Built)
    (hnone : ∀ tool ∈ r.tools, tool.spec.name ≠ request.toolName) (limit : Option Nat)
    (world : σ) : r.invoke limit request world =
      (.refused request.callId (.unknownTool request.toolName r.names), world) := by
  simp only [invoke]
  rw [h.find?_eq_none_iff.mpr hnone]

theorem Built.invoke_rejected (h : r.Built) (htool : tool ∈ r.tools)
    (hname : tool.spec.name = request.toolName) {vs : List FieldViolation}
    (hrejected : tool.spec.validateArguments request.arguments = .error vs)
    (limit : Option Nat) (world : σ) : r.invoke limit request world =
      (.refused request.callId (.schemaViolation request.toolName vs), world) := by
  simp only [invoke]
  rw [h.find?_eq_some_iff.mpr ⟨htool, hname⟩]
  simp only [hrejected]

theorem Built.invoke_runs (h : r.Built) (hruns : r.Runs request tool arguments)
    (limit : Option Nat) (world : σ) : r.invoke limit request world =
      (.ofExecution request.callId request.toolName limit (tool.executor arguments world).1,
        (tool.executor arguments world).2) := by
  simp only [invoke]
  rw [h.find?_eq_some_iff.mpr ⟨hruns.registered, hruns.named⟩]
  simp only [hruns.accepted]

/-- A call has no tool, or arguments that its tool refuses, or it is run. -/
theorem Built.call_cases (h : r.Built) (request : ToolCallRequest) :
    (∀ tool ∈ r.tools, tool.spec.name ≠ request.toolName) ∨
      (∃ tool ∈ r.tools, tool.spec.name = request.toolName ∧
        ∃ vs, tool.spec.validateArguments request.arguments = .error vs) ∨
      ∃ tool arguments, r.Runs request tool arguments := by
  cases hfind : r.find? request.toolName with
  | none => exact Or.inl (h.find?_eq_none_iff.mp hfind)
  | some tool =>
    obtain ⟨htool, hname⟩ := h.find?_eq_some_iff.mp hfind
    cases haccepted : tool.spec.validateArguments request.arguments with
    | error vs => exact Or.inr (Or.inl ⟨tool, htool, hname, vs, haccepted⟩)
    | ok arguments => exact Or.inr (Or.inr ⟨tool, arguments, htool, hname, haccepted⟩)

/-! ## What a call starts -/

/-- Names of tools and what they are run on, in the order of their starts. -/
abbrev RunLog := List (String × Fields)

end Registry

/-- The same tool, which notes each of its starts next to the world. -/
def RegisteredTool.watched {σ : Type} (tool : RegisteredTool (Executor σ)) :
    RegisteredTool (Executor (σ × Registry.RunLog)) :=
  { spec := tool.spec
    executor := fun arguments world =>
      let (execution, next) := tool.executor arguments world.1
      (execution, next, world.2 ++ [(tool.spec.name, arguments)]) }

namespace Registry

variable {σ : Type} {r : Registry (Executor σ)} {limit : Option Nat} {request : ToolCallRequest}
  {world : σ} {tool : RegisteredTool (Executor σ)} {arguments : Fields}

/-- The same tools, each of them watched. -/
def watched (r : Registry (Executor σ)) : Registry (Executor (σ × RunLog)) :=
  { tools := r.tools.map RegisteredTool.watched, index := r.index }

/-- What a call starts. -/
def starts (r : Registry (Executor σ)) (limit : Option Nat) (request : ToolCallRequest)
    (world : σ) : RunLog :=
  (r.watched.invoke limit request (world, [])).2.2

theorem registered_watched (r : Registry (Executor σ)) (tool : RegisteredTool (Executor σ)) :
    (r.registered tool).watched = r.watched.registered tool.watched := by
  unfold registered register
  cases hcheck : tool.spec.check with
  | error e => simp [RegisteredTool.watched, hcheck, Except.toOption]
  | ok u =>
    cases hlookup : (r.index.lookup tool.spec.name).isSome <;>
      simp [RegisteredTool.watched, watched, hcheck, hlookup, Except.toOption]

theorem Built.watched (h : r.Built) : r.watched.Built := by
  induction h with
  | empty => exact .empty
  | @register r tool before ih =>
    rw [registered_watched]
    exact .register tool.watched ih

theorem Runs.watched (h : r.Runs request tool arguments) :
    r.watched.Runs request tool.watched arguments where
  registered := List.mem_map_of_mem h.registered
  named := h.named
  accepted := h.accepted

variable (limit : Option Nat) (world : σ) (log : RunLog)

/-- A call that is run starts its tool once, on the arguments that were
accepted. -/
theorem Built.watched_runs (h : r.Built) (hruns : r.Runs request tool arguments) :
    r.watched.invoke limit request (world, log) =
      ((r.invoke limit request world).1, (tool.executor arguments world).2,
        log ++ [(request.toolName, arguments)]) := by
  rw [h.invoke_runs hruns, h.watched.invoke_runs hruns.watched]
  simp [RegisteredTool.watched, hruns.named]

/-- A call without a tool, or with arguments that its tool refuses, starts
nothing. -/
theorem Built.watched_refused (h : r.Built)
    (hrefused : ∀ tool arguments, ¬ r.Runs request tool arguments) :
    r.watched.invoke limit request (world, log) =
      ((r.invoke limit request world).1, world, log) := by
  rcases h.call_cases request with hnone | ⟨tool, htool, hname, vs, hvs⟩ | ⟨tool, arguments, hruns⟩
  · have hwatched : ∀ tool ∈ r.watched.tools, tool.spec.name ≠ request.toolName :=
      List.forall_mem_map.mpr hnone
    have hnames : r.watched.names = r.names := by
      simp [names, Registry.watched, RegisteredTool.watched, Function.comp_def]
    rw [h.invoke_unknown hnone, h.watched.invoke_unknown hwatched, hnames]
  · have hwatched : tool.watched ∈ r.watched.tools := List.mem_map_of_mem htool
    rw [h.invoke_rejected htool hname hvs, h.watched.invoke_rejected hwatched hname hvs]
  · exact absurd hruns (hrefused tool arguments)

theorem Built.starts_runs (h : r.Built) (hruns : r.Runs request tool arguments) :
    r.starts limit request world = [(request.toolName, arguments)] := by
  simp [starts, h.watched_runs limit world [] hruns]

theorem Built.starts_refused (h : r.Built)
    (hrefused : ∀ tool arguments, ¬ r.Runs request tool arguments) :
    r.starts limit request world = [] := by
  simp [starts, h.watched_refused limit world [] hrefused]

/-- What is started are the tools that calls are run with. -/
theorem Built.mem_starts_iff (h : r.Built) {name : String} :
    (name, arguments) ∈ r.starts limit request world ↔
      name = request.toolName ∧ ∃ tool, r.Runs request tool arguments := by
  by_cases hruns : ∃ tool arguments, r.Runs request tool arguments
  · obtain ⟨tool, others, hruns⟩ := hruns
    rw [h.starts_runs limit world hruns]
    simp only [List.mem_singleton, Prod.mk.injEq, and_congr_right_iff]
    intro _
    constructor
    · intro hsame
      rw [hsame]
      exact ⟨tool, hruns⟩
    · intro hother
      obtain ⟨other, hother⟩ := hother
      have htool := h.tool_unique hruns.registered hother.registered
        (hruns.named.trans hother.named.symm)
      have haccepted := hother.accepted
      rw [← htool, hruns.accepted, Except.ok.injEq] at haccepted
      exact haccepted.symm
  · simp only [not_exists] at hruns
    rw [h.starts_refused limit world hruns]
    simp [hruns]

variable {limit : Option Nat} {world : σ} {call : Invocation} {after : σ}

theorem Built.not_runs_of_rejected (h : r.Built) (htool : tool ∈ r.tools)
    (hname : tool.spec.name = request.toolName) {vs : List FieldViolation}
    (hrejected : tool.spec.validateArguments request.arguments = .error vs)
    (other : RegisteredTool (Executor σ)) (arguments : Fields) :
    ¬ r.Runs request other arguments := by
  intro hruns
  have hsame := h.tool_unique htool hruns.registered (hname.trans hruns.named.symm)
  have haccepted := hruns.accepted
  rw [← hsame, hrejected] at haccepted
  cases haccepted

/-! ## The result of a call -/

/-- A call is refused, or its tool is run. -/
theorem Built.invoke_cases (h : r.Built) (hcall : r.invoke limit request world = (call, after)) :
    (∃ f, call = .refused request.callId f ∧ after = world) ∨
      ∃ tool arguments, r.Runs request tool arguments ∧
        call = .ofExecution request.callId request.toolName limit
          (tool.executor arguments world).1 ∧
        after = (tool.executor arguments world).2 := by
  rcases h.call_cases request with hnone | ⟨tool, htool, hname, vs, hvs⟩ | ⟨tool, arguments, hruns⟩
  · rw [h.invoke_unknown hnone] at hcall
    cases hcall
    exact Or.inl ⟨_, rfl, rfl⟩
  · rw [h.invoke_rejected htool hname hvs] at hcall
    cases hcall
    exact Or.inl ⟨_, rfl, rfl⟩
  · rw [h.invoke_runs hruns] at hcall
    cases hcall
    exact Or.inr ⟨tool, arguments, hruns, rfl, rfl⟩

/-- A result comes of every call, if the tool that is run ends or there is a
limit. -/
theorem Built.invoke_answers (h : r.Built) (hcall : r.invoke limit request world = (call, after))
    (hends : limit.isSome ∨ ∀ tool arguments, r.Runs request tool arguments →
      (tool.executor arguments world).1.ending.isSome) : call.result.isSome := by
  rcases h.invoke_cases hcall with ⟨f, rfl, -⟩ | ⟨tool, arguments, hruns, rfl, -⟩
  · rfl
  · have hending := hends.imp_right fun hall => hall tool arguments hruns
    rcases Invocation.endsWithin_or_overruns hending with ⟨ms, outcome, hends⟩ | ⟨l, hover⟩
    · rw [Invocation.result_of_endsWithin _ _ hends]
      rfl
    · rw [Invocation.result_of_overruns _ _ hover]
      rfl

/-- Every failed result spells out its failure. -/
theorem Built.explained_of_invoke (h : r.Built)
    (hcall : r.invoke limit request world = (call, after)) {ms : Nat} {result : ToolCallResult}
    (hresult : call.result = some (ms, result)) : result.Explained := by
  rcases h.invoke_cases hcall with ⟨f, rfl, -⟩ | ⟨tool, arguments, -, rfl, -⟩
  · cases hresult
    exact ToolCallResult.explained_failure _ _
  · rcases Invocation.result_cases hresult with ⟨outcome, -, rfl⟩ | ⟨-, rfl⟩
    · exact ToolCallResult.explained_ofOutcome _ _ _
    · exact ToolCallResult.explained_failure _ _

/-- A call has one result, with the identifier of the call. Without a tool of
its name, or with arguments that the tool refuses, nothing is started and the
result says so. Otherwise the tool is started once, on the arguments that were
accepted, and the result is its value, or that it failed or was too slow. -/
theorem Built.invoke_classified (h : r.Built) (limit : Option Nat) (request : ToolCallRequest)
    (world : σ) (hcall : r.invoke limit request world = (call, after)) :
    ((limit.isSome ∨ ∀ tool arguments, r.Runs request tool arguments →
        (tool.executor arguments world).1.ending.isSome) → call.result.isSome) ∧
    (∀ ms result, call.result = some (ms, result) →
      result.callId = request.callId ∧ result.Explained) ∧
    ((∀ tool ∈ r.tools, tool.spec.name ≠ request.toolName) →
      r.starts limit request world = [] ∧ after = world ∧ call.FailsWith 0 .unknownTool []) ∧
    (∀ tool ∈ r.tools, tool.spec.name = request.toolName → ∀ vs,
      tool.spec.validateArguments request.arguments = .error vs →
      r.starts limit request world = [] ∧ after = world ∧ call.FailsWith 0 .schemaViolation vs) ∧
    (∀ tool arguments, r.Runs request tool arguments →
      r.starts limit request world = [(request.toolName, arguments)] ∧
      after = (tool.executor arguments world).2 ∧
      (∀ ms v, (tool.executor arguments world).1.EndsWithin limit ms (.value v) →
        call.result = some (ms, .ok request.callId v)) ∧
      (∀ ms outcome, (tool.executor arguments world).1.EndsWithin limit ms outcome →
        (∀ v, outcome ≠ .value v) → call.FailsWith ms .executionFailed []) ∧
      (∀ l, (tool.executor arguments world).1.Overruns limit l →
        call.FailsWith l .executionFailed [])) ∧
    ∀ (f : ToolFailure) (id : CallId), f.toValue = f.toJson ∧ f.toValue.WellFormed ∧
      (ToolCallResult.failure id f).failureDetails = some f := by
  refine ⟨h.invoke_answers hcall, ?_, ?_, ?_, ?_, ?_⟩
  · intro ms result hresult
    refine ⟨?_, h.explained_of_invoke hcall hresult⟩
    apply callId_of_invoke r
    rw [hcall]
    exact hresult
  · intro hnone
    have hrefused : ∀ tool arguments, ¬ r.Runs request tool arguments :=
      fun tool _ hruns => hnone tool hruns.registered hruns.named
    rw [h.invoke_unknown hnone] at hcall
    obtain ⟨rfl, rfl⟩ := Prod.mk.inj hcall
    refine ⟨?_, rfl, Invocation.failsWith_refused _ (.unknownTool _ _)⟩
    exact h.starts_refused limit world hrefused
  · intro tool htool hname vs hvs
    rw [h.invoke_rejected htool hname hvs] at hcall
    obtain ⟨rfl, rfl⟩ := Prod.mk.inj hcall
    refine ⟨?_, rfl, Invocation.failsWith_refused _ (.schemaViolation _ vs)⟩
    exact h.starts_refused limit world (h.not_runs_of_rejected htool hname hvs)
  · intro tool arguments hruns
    rw [h.invoke_runs hruns] at hcall
    obtain ⟨rfl, rfl⟩ := Prod.mk.inj hcall
    refine ⟨h.starts_runs limit world hruns, rfl, ?_, ?_, ?_⟩
    · intro ms v hends
      exact Invocation.result_of_endsWithin _ _ hends
    · intro ms outcome hends hfailed
      exact Invocation.failsWith_of_outcome hfailed (Invocation.result_of_endsWithin _ _ hends)
    · intro l hover
      exact Invocation.failsWith_of_result (Invocation.result_of_overruns _ _ hover)
  · intro f id
    refine ⟨f.toValue_eq_toJson, ?_, ToolCallResult.failureDetails_failure id f⟩
    rw [f.toValue_eq_toJson]
    exact f.wellFormed_toJson

/-- A tool that gives back at once what it was given. -/
def quickTool : RegisteredTool (Executor Unit) where
  spec := ⟨"quick", "", [.mandatory "text" .string ""]⟩
  executor := fun arguments world => (⟨none, some (0, .value (.object arguments))⟩, world)

/-- A tool that takes its time and then fails. -/
def slowTool : RegisteredTool (Executor Unit) where
  spec := ⟨"slow", "", []⟩
  executor := fun _ world => (⟨none, some (10, .failed ["no luck"])⟩, world)

/-- The two of them on offer. -/
def quickAndSlow : Registry (Executor Unit) := (empty.registered quickTool).registered slowTool

theorem built_quickAndSlow : quickAndSlow.Built := .register _ (.register _ .empty)

theorem classified_quick_and_slow :
    let said : Json := .object [("text", .string "hi")]
    (quickAndSlow.invoke (some 0) ⟨.numbered 1, "quick", said⟩ ()).1.result =
        some (0, .ok (.numbered 1) said) ∧
      quickAndSlow.starts (some 0) ⟨.numbered 1, "quick", said⟩ () =
        [("quick", [("text", .string "hi")])] ∧
      (quickAndSlow.invoke none ⟨.numbered 2, "quick", .null⟩ ()).1.FailsWith 0 .schemaViolation
        [.missing "text"] ∧
      (quickAndSlow.invoke none ⟨.numbered 3, "loud", .null⟩ ()).1.FailsWith 0 .unknownTool [] ∧
      (quickAndSlow.invoke none ⟨.numbered 4, "slow", .null⟩ ()).1.FailsWith 10
        .executionFailed [] ∧
      (quickAndSlow.invoke (some 5) ⟨.numbered 5, "slow", .null⟩ ()).1.FailsWith 5
        .executionFailed [] ∧
      (quickAndSlow.invoke (some 5) ⟨.numbered 5, "slow", .null⟩ ()).1.result.isSome := by
  intro said
  have hquick : quickTool ∈ quickAndSlow.tools := List.mem_cons_self
  have hslow : slowTool ∈ quickAndSlow.tools := List.mem_cons_of_mem _ List.mem_cons_self
  obtain ⟨-, -, -, -, hsaid, -⟩ := built_quickAndSlow.invoke_classified (some 0)
    ⟨.numbered 1, "quick", said⟩ () rfl
  obtain ⟨-, -, -, hrefused, -⟩ := built_quickAndSlow.invoke_classified none
    ⟨.numbered 2, "quick", .null⟩ () rfl
  obtain ⟨-, -, hunknown, -⟩ := built_quickAndSlow.invoke_classified none
    ⟨.numbered 3, "loud", .null⟩ () rfl
  obtain ⟨-, -, -, -, hfailed, -⟩ := built_quickAndSlow.invoke_classified none
    ⟨.numbered 4, "slow", .null⟩ () rfl
  obtain ⟨hanswered, -, -, -, hlate, -⟩ := built_quickAndSlow.invoke_classified (some 5)
    ⟨.numbered 5, "slow", .null⟩ () rfl
  obtain ⟨hstarts, -, hvalue, -⟩ := hsaid quickTool [("text", .string "hi")] ⟨hquick, rfl, rfl⟩
  obtain ⟨-, -, -, herror, -⟩ := hfailed slowTool [] ⟨hslow, rfl, rfl⟩
  obtain ⟨-, -, -, -, hover⟩ := hlate slowTool [] ⟨hslow, rfl, rfl⟩
  refine ⟨?_, hstarts, ?_, ?_, ?_, ?_, ?_⟩
  · exact hvalue 0 said ⟨rfl, by simp⟩
  · exact (hrefused quickTool hquick rfl [.missing "text"] rfl).2.2
  · have hnone : ∀ tool ∈ quickAndSlow.tools, tool.spec.name ≠ "loud" := by
      simp [show quickAndSlow.tools = [quickTool, slowTool] from rfl, quickTool, slowTool]
    exact (hunknown hnone).2.2
  · exact herror 10 (.failed ["no luck"]) ⟨rfl, by simp⟩ (by simp)
  · exact hover 5 ⟨rfl, by simp [slowTool]⟩
  · exact hanswered (Or.inl rfl)

end Registry

end AgentLoop
