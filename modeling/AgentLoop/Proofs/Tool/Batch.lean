/-
AgentLoop.Proofs.Tool.Batch — what a wait for a batch of calls brings.

* `Registry.callId_of_invoke` — a result has the identifier of its call
* `Batch.follow_ready` — the results of a batch are those of its calls,
  one for each and in their order
* `Batch.follow_interrupted` — a wait is cut short only by the signal
* `Registry.Ends`, `Batch.follow_ne_never` — tools that end make batches
  that end

The order of the results does not depend on when the calls end: a result
is kept with its run, and the runs stand in the order of the calls.
-/
import AgentLoop.Tool.Batch

namespace AgentLoop

namespace ToolCallResult

@[simp] theorem callId_failure (id : CallId) (f : ToolFailure) :
    (failure id f).callId = id := rfl

@[simp] theorem callId_ofOutcome (id : CallId) (tool : String)
    (outcome : ExecutorOutcome) : (ofOutcome id tool outcome).callId = id := by
  cases outcome <;> rfl

@[simp] theorem callId_timedOut (id : CallId) (tool : String) (limit : Nat) :
    (timedOut id tool limit).callId = id := rfl

end ToolCallResult

/-! ## One call -/

theorem Invocation.callId_of_ofExecution {id : CallId} {tool : String}
    {limit : Option Nat} {e : Execution} {ms : Nat} {r : ToolCallResult}
    (h : (ofExecution id tool limit e).result = some (ms, r)) : r.callId = id := by
  simp only [ofExecution] at h
  split at h
  · rename_i ended hended
    rw [Option.some.injEq] at h
    subst h
    split at hended
    · split at hended
      · cases hended
        simp
      · cases hended
    · cases hended
  · obtain ⟨l, -, hl⟩ := Option.map_eq_some_iff.mp h
    cases hl
    simp

namespace Registry

variable {σ : Type}

theorem callId_of_invoke (r : Registry (Executor σ)) {limit : Option Nat}
    {request : ToolCallRequest} {world : σ} {ms : Nat} {result : ToolCallResult}
    (h : (r.invoke limit request world).1.result = some (ms, result)) :
    result.callId = request.callId := by
  simp only [invoke] at h
  split at h
  · cases h
    rfl
  · split at h
    · cases h
      rfl
    · exact Invocation.callId_of_ofExecution h

/-- Every run of every tool ends, by itself or by a time limit. -/
def Ends (r : Registry (Executor σ)) (limit : Option Nat) : Prop :=
  limit.isSome ∨ ∀ tool ∈ r.tools, ∀ arguments world,
    (tool.executor arguments world).1.ending.isSome

theorem mem_of_find? {r : Registry (Executor σ)} {name : String}
    {tool : RegisteredTool (Executor σ)} (h : r.find? name = some tool) :
    tool ∈ r.tools := by
  obtain ⟨i, -, hi⟩ := Option.bind_eq_some_iff.mp h
  exact List.mem_of_getElem? hi

theorem invoke_ends {r : Registry (Executor σ)} {limit : Option Nat}
    (h : r.Ends limit) (request : ToolCallRequest) (world : σ) :
    (r.invoke limit request world).1.result.isSome := by
  simp only [invoke]
  split
  · rfl
  · rename_i tool hfind
    split
    · rfl
    · rename_i arguments _
      simp only [Invocation.ofExecution]
      split
      · rfl
      · rename_i hnone
        rcases h with hlimit | htools
        · simpa using hlimit
        · have hends := htools tool (mem_of_find? hfind) arguments world
          obtain ⟨⟨ms, outcome⟩, hending⟩ := Option.isSome_iff_exists.mp hends
          rw [hending] at hnone
          cases hl : limit with
          | none => simp [hl, Invocation.lasts] at hnone
          | some l => rfl

end Registry

/-! ## A whole batch -/

namespace Batch

variable {σ : Type} {invoke : Invoke σ}

/-- The runs of a batch are runs of its first calls, in their order. -/
theorem requests_scheduleFrom (window begin : Nat) (yields : List (Option Nat))
    (before : Option Nat) (requests : List ToolCallRequest) (world : σ) :
    ((scheduleFrom invoke window begin yields before requests world).map
      (·.1.request)) <+: requests := by
  induction requests generalizing yields before world with
  | nil => simp [scheduleFrom]
  | cons request rest ih =>
    simp only [scheduleFrom]
    split
    · exact List.nil_prefix
    · rw [List.map_cons]
      exact List.cons_prefix_cons.mpr ⟨rfl, ih _ _ _⟩

/-- The result of a run is the result of its call. -/
theorem result_scheduleFrom {window begin : Nat} {yields : List (Option Nat)}
    {before : Option Nat} {requests : List ToolCallRequest} {world : σ}
    {run : BatchRun × σ}
    (hrun : run ∈ scheduleFrom invoke window begin yields before requests world) :
    ∃ world, run.1.result.map (·.2) =
      (invoke run.1.request world).1.result.map (·.2) := by
  induction requests generalizing yields before world with
  | nil => simp [scheduleFrom] at hrun
  | cons request rest ih =>
    simp only [scheduleFrom] at hrun
    split at hrun
    · simp at hrun
    · rcases List.mem_cons.mp hrun with rfl | hlater
      · refine ⟨world, ?_⟩
        simp [BatchRun.ofInvocation, Function.comp_def]
      · exact ih hlater

theorem length_of_results? {requests : List ToolCallRequest}
    {runs : List BatchRun} {results : List ToolCallResult}
    (h : results? requests runs = some results) : runs.length = requests.length := by
  simp only [results?] at h
  split at h
  · assumption
  · cases h

/-- Results of which each has the identifier of its run's call. -/
theorem callIds_mapM {runs : List BatchRun} {results : List ToolCallResult}
    (hid : ∀ run ∈ runs, ∀ r, run.result.map (·.2) = some r →
      r.callId = run.request.callId)
    (h : runs.mapM (fun r => r.result.map (·.2)) = some results) :
    results.map (·.callId) = runs.map (·.request.callId) := by
  induction runs generalizing results with
  | nil =>
    rw [List.mapM_nil] at h
    cases h
    rfl
  | cons run rest ih =>
    rw [List.mapM_cons] at h
    simp only [Option.bind_eq_bind, Option.bind_eq_some_iff] at h
    obtain ⟨first, hfirst, others, hothers, hresults⟩ := h
    cases hresults
    rw [List.map_cons, List.map_cons, hid run (by simp) first hfirst,
      ih (fun r hr => hid r (by simp [hr])) hothers]

/-- The results of a batch have the identifiers of its calls, in their
order. -/
theorem follow_ready {window : Nat} {requests : List ToolCallRequest} {c c' : Clock}
    {world : σ} {state : σ × List BatchRun} {results : List ToolCallResult}
    (hinvoke : ∀ request world ms r, (invoke request world).1.result = some (ms, r) →
      r.callId = request.callId)
    (h : follow invoke window requests c world = .ready c' state results) :
    results.map (·.callId) = requests.map (·.callId) := by
  simp only [follow] at h
  split at h
  · cases h
  · split at h
    · cases h
    · split at h
      · rename_i _ _ hresults
        cases h
        have hprefix := @requests_scheduleFrom _ invoke (max window 1)
          c.now [] (some c.now) requests world
        have hlength := length_of_results? hresults
        rw [List.length_map] at hlength
        have hall := hprefix.eq_of_length (by simpa [schedule] using hlength)
        rw [results?, if_pos (by simpa using hlength)] at hresults
        have hids := callIds_mapM ?_ hresults
        · have hcalls := congrArg (List.map (·.callId)) hall
          rw [hids]
          simpa [schedule, Function.comp_def] using hcalls
        · intro run hrun r hr
          obtain ⟨pair, hpair, rfl⟩ := List.mem_map.mp hrun
          obtain ⟨w, hw⟩ := result_scheduleFrom hpair
          rw [hw, Option.map_eq_some_iff] at hr
          obtain ⟨⟨ms, other⟩, hother, rfl⟩ := hr
          exact hinvoke _ _ _ _ hother
      · cases h

/-- Only the signal cuts a wait for a batch short. -/
theorem isRaised_of_batch_interruption? {c c' : Clock} {raise completion : Option Nat}
    (h : interruption? c raise completion = some c') : c'.isRaised = true := by
  have hinside : ∀ time : Nat, (⟨time, .raised⟩ : Clock).isRaised = true :=
    fun _ => rfl
  simp only [interruption?] at h
  split at h
  · rename_i a b ha hb
    have hraised : a.isRaised = true := by
      split at ha
      · cases ha
      · split at ha
        · cases ha
          exact hinside _
        · cases ha
      · cases ha
    split at h
    · cases h
      exact Clock.isRaised_of_interruption? hb
    · cases h
      exact hraised
  · rename_i a ha _
    split at ha
    · cases ha
    · split at ha
      · cases ha
        cases h
        exact hinside _
      · cases ha
    · cases ha
  · exact Clock.isRaised_of_interruption? h

theorem follow_interrupted {window : Nat} {requests : List ToolCallRequest}
    {c c' : Clock} {world : σ} {state : σ × List BatchRun}
    (h : follow invoke window requests c world = .interrupted c' state) :
    c'.isRaised = true := by
  simp only [follow] at h
  split at h
  · cases h
    assumption
  · split at h
    · rename_i hsignal
      cases h
      exact isRaised_of_batch_interruption? hsignal
    · split at h <;> cases h

/-! ## Batches that end -/

/-- Every call of a batch starts and has its result in time if every call
has one at all. A call waits for the result of an earlier one only, and
that one came. -/
theorem scheduleFrom_ends {window : Nat} (hwindow : 0 < window) (begin : Nat)
    {yields : List (Option Nat)} (hyields : ∀ y ∈ yields, y.isSome) {before : Option Nat}
    (hbefore : before.isSome) {requests : List ToolCallRequest}
    (hinvoke : ∀ request ∈ requests, ∀ world, (invoke request world).1.result.isSome)
    (world : σ) :
    (scheduleFrom invoke window begin yields before requests world).length =
        requests.length ∧
      ∀ run ∈ scheduleFrom invoke window begin yields before requests world,
        run.1.result.isSome ∧ run.1.yielded.isSome := by
  induction requests generalizing yields before world with
  | nil => simp [scheduleFrom]
  | cons request rest ih =>
    have hstart : ∃ start, nextStart window begin yields = some start := by
      simp only [nextStart]
      split
      · exact ⟨begin, rfl⟩
      · rename_i hfull
        have hlt : yields.length - window < yields.length := by omega
        have hsome := hyields _ (List.getElem_mem hlt)
        obtain ⟨time, htime⟩ := Option.isSome_iff_exists.mp hsome
        exact ⟨time, by rw [List.getElem?_eq_getElem hlt, htime]; rfl⟩
    obtain ⟨start, hstart⟩ := hstart
    obtain ⟨⟨ms, r⟩, hresult⟩ := Option.isSome_iff_exists.mp
      (hinvoke request List.mem_cons_self world)
    obtain ⟨b, rfl⟩ := Option.isSome_iff_exists.mp hbefore
    simp only [scheduleFrom, hstart]
    have hrun : (BatchRun.ofInvocation request start (some b)
        (invoke request world).1).yielded = some (max b (start + ms)) := by
      simp [BatchRun.ofInvocation, hresult]
    have hmore : ∀ y ∈ yields ++ [some (max b (start + ms))], y.isSome := by
      simpa [or_imp, forall_and] using hyields
    have hlast : (some (max b (start + ms))).isSome := rfl
    have hrest : ∀ r ∈ rest, ∀ world, (invoke r world).1.result.isSome :=
      fun r hr => hinvoke r (List.mem_cons_of_mem request hr)
    obtain ⟨hlength, hall⟩ := ih hmore hlast hrest (invoke request world).2
    rw [hrun]
    refine ⟨by simpa using hlength, ?_⟩
    intro run hmem
    rcases List.mem_cons.mp hmem with rfl | hlater
    · refine ⟨?_, by rw [hrun]; rfl⟩
      simp [BatchRun.ofInvocation, hresult]
    · exact hall run hlater

theorem mapM_isSome {runs : List BatchRun} (h : ∀ run ∈ runs, run.result.isSome) :
    ∃ results, runs.mapM (fun r => r.result.map (·.2)) = some results := by
  induction runs with
  | nil => exact ⟨[], rfl⟩
  | cons run rest ih =>
    obtain ⟨⟨ms, r⟩, hr⟩ := Option.isSome_iff_exists.mp (h run (by simp))
    obtain ⟨results, hresults⟩ := ih fun run hrun => h run (by simp [hrun])
    exact ⟨r :: results, by rw [List.mapM_cons, hresults, hr]; rfl⟩

/-- A batch of calls that all have a result is not waited for in vain. -/
theorem follow_ne_never {requests : List ToolCallRequest}
    (hinvoke : ∀ request ∈ requests, ∀ world, (invoke request world).1.result.isSome)
    (window : Nat) (c c' : Clock) (world : σ) (state : σ × List BatchRun) :
    follow invoke window requests c world ≠ .never c' state := by
  have hwindow : 0 < max window 1 := by omega
  have hnone : ∀ y ∈ ([] : List (Option Nat)), y.isSome := by simp
  have hbegin : (some c.now).isSome := rfl
  obtain ⟨hlength, hall⟩ :=
    scheduleFrom_ends hwindow c.now hnone hbegin hinvoke world
  have hruns : ∀ run ∈ (schedule invoke (max window 1) c.now requests world).map (·.1),
      run.result.isSome ∧ run.yielded.isSome := by
    intro run hrun
    obtain ⟨pair, hpair, rfl⟩ := List.mem_map.mp hrun
    exact hall pair hpair
  have hcount : ((schedule invoke (max window 1) c.now requests world).map
      (·.1)).length = requests.length := by
    rw [List.length_map]
    exact hlength
  simp only [follow]
  generalize (schedule invoke (max window 1) c.now requests world) = planned at *
  have hcompletion : ∃ time,
      completion? c.now requests (planned.map (·.1)) = some time := by
    simp only [completion?, if_pos hcount]
    split
    · rename_i run hlast
      have hmem := List.mem_of_getLast? hlast
      exact Option.isSome_iff_exists.mp (hruns run hmem).2
    · exact ⟨c.now, rfl⟩
  obtain ⟨time, htime⟩ := hcompletion
  obtain ⟨results, hmapM⟩ := mapM_isSome fun run hrun => (hruns run hrun).1
  have hresults : results? requests (planned.map (·.1)) = some results := by
    rw [results?, if_pos hcount, hmapM]
  split
  · simp
  · split
    · simp
    · simp [htime, hresults]

end Batch

end AgentLoop
