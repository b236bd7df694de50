/-
AgentLoop.Proofs.Tool.Scheduling — what a batch does under every bound on
how many calls are under way.

* `Registry.target?`, `Registry.start` — what a call runs, and what its start
  does to the world
* `Registry.Steady` — how a tool ends, and when, is a matter of its arguments
* `Batch.Queued` — what holds of the runs that are there when the next call
  starts
* `Batch.Spaced`, `inProgress_le`, `peak_le` — no more calls are under way at
  once than may be
* `Batch.Outcome.left`, `follow_planned` — what any wait leaves behind is the
  first part of one plan
* `Batch.results_of_whole` — the results of the runs are those of the calls

A call starts when the results of all calls a window before it are there.
This is the whole argument for the bound: the runs that are still under way
when a call starts stand less than a window before it.
-/
import Mathlib.Data.List.Induction
import AgentLoop.Proofs.Tool.Completion

namespace AgentLoop

namespace Registry

variable {σ : Type}

/-- What a call runs, with which arguments, if its tool exists and takes
them. -/
def target? (r : Registry (Executor σ)) (call : ToolCallRequest) :
    Option (Executor σ × Fields) :=
  (r.find? call.toolName).bind fun tool =>
    (tool.spec.validateArguments call.arguments).toOption.map (tool.executor, ·)

/-- The world after the start of a call. -/
def start (r : Registry (Executor σ)) (world : σ) (call : ToolCallRequest) : σ :=
  match r.target? call with
  | some (executor, arguments) => (executor arguments world).2
  | none => world

/-- How the run of a tool ends, and when, is a function of its arguments. -/
def Steady (r : Registry (Executor σ)) : Prop :=
  ∀ tool ∈ r.tools, ∀ arguments world world',
    (tool.executor arguments world).1.ending = (tool.executor arguments world').1.ending

variable {r : Registry (Executor σ)} {limit : Option Nat}

/-- A call runs what it is aimed at, and nothing if its tool does not exist
or does not take its arguments. -/
theorem invoke_starts (call : ToolCallRequest) (world : σ) :
    (r.invoke limit call world).1.executed = (r.target? call).isSome ∧
      (r.invoke limit call world).2 = r.start world call := by
  simp only [invoke, start, target?]
  cases r.find? call.toolName with
  | none => exact ⟨rfl, rfl⟩
  | some tool =>
    cases h : tool.spec.validateArguments call.arguments with
    | error vs => simp [h, Except.toOption, Invocation.refused]
    | ok arguments => simp [h, Except.toOption, Invocation.ofExecution]

/-- The result of a call does not depend on the world in which it starts if
the tools are steady. -/
theorem result_invoke (h : r.Steady) (call : ToolCallRequest) (world world' : σ) :
    (r.invoke limit call world).1.result = (r.invoke limit call world').1.result := by
  simp only [invoke]
  cases hfind : r.find? call.toolName with
  | none => rfl
  | some tool =>
    dsimp only
    cases tool.spec.validateArguments call.arguments with
    | error vs => rfl
    | ok arguments =>
      have hending := h tool (mem_of_find? hfind) arguments world world'
      simp only [Invocation.ofExecution, hending]

end Registry

namespace Batch

variable {σ : Type} {invoke : Invoke σ}

/-! ## The bound -/

/-- How many executors are running at a time: they have started and have not
come to their end. -/
def inProgress (time : Nat) (runs : List BatchRun) : Nat :=
  runs.countP fun r => decide (r.start ≤ time) && r.runsAfter time

/-- What holds of the runs that are there when the next call starts, the last
of which is yielded at `last`: a run is yielded with its result, and behind
all runs before it. -/
structure Queued (done : List BatchRun) (last : Option Nat) : Prop where
  results : ∀ r ∈ done, ∀ y, r.yielded = some y → ∃ e, r.result = some e ∧ e.1 ≤ y
  ordered : done.Pairwise fun r r' =>
    ∀ y, r'.yielded = some y → ∃ x, r.yielded = some x ∧ x ≤ y
  behind : ∀ r ∈ done, ∀ y, last = some y → ∃ x, r.yielded = some x ∧ x ≤ y

/-- One more call starts. -/
theorem Queued.next {done : List BatchRun} {last : Option Nat} (h : Queued done last)
    (request : ToolCallRequest) (start : Nat) (i : Invocation) :
    let run := BatchRun.ofInvocation request start last i
    Queued (done ++ [run]) run.yielded := by
  intro run
  have hyielded : ∀ y, run.yielded = some y →
      ∃ b e, last = some b ∧ run.result = some e ∧ y = max b e.1 :=
    fun y hy => BatchRun.yielded_ofInvocation hy
  have hbehind : ∀ r ∈ done, ∀ y, run.yielded = some y → ∃ x, r.yielded = some x ∧ x ≤ y := by
    intro r hr y hy
    obtain ⟨b, e, hb, -, rfl⟩ := hyielded y hy
    obtain ⟨x, hx, hle⟩ := h.behind r hr b hb
    exact ⟨x, hx, by omega⟩
  refine { results := ?_, ordered := ?_, behind := ?_ }
  · intro r hr y hy
    rcases List.mem_append.mp hr with hr | hr
    · exact h.results r hr y hy
    · rw [List.mem_singleton.mp hr] at hy ⊢
      obtain ⟨b, e, -, he, rfl⟩ := hyielded y hy
      exact ⟨e, he, by omega⟩
  · refine List.pairwise_append.mpr ⟨h.ordered, List.pairwise_singleton _ _, ?_⟩
    intro r hr r' hr'
    rw [List.mem_singleton.mp hr']
    exact hbehind r hr
  · intro r hr y hy
    rcases List.mem_append.mp hr with hr | hr
    · exact hbehind r hr y hy
    · rw [List.mem_singleton.mp hr]
      exact ⟨y, hy, Nat.le_refl y⟩

/-- When the result of a run is yielded, that run and all runs before it are
over. -/
theorem Queued.over {done : List BatchRun} {last : Option Nat} (h : Queued done last) {n : Nat}
    (hlt : n < done.length) {time : Nat} (hyielded : done[n].yielded = some time) :
    ∀ r ∈ done.take (n + 1), r.runsAfter time = false := by
  intro r hr
  have hbefore : ∃ x, r.yielded = some x ∧ x ≤ time := by
    rw [List.take_succ_eq_append_getElem hlt] at hr
    rcases List.mem_append.mp hr with hr | hr
    · have hsplit : done = done.take n ++ done[n] :: done.drop (n + 1) := by
        rw [← List.drop_eq_getElem_cons hlt, List.take_append_drop]
      have hordered := h.ordered
      rw [hsplit, List.pairwise_append] at hordered
      exact hordered.2.2 r hr _ List.mem_cons_self time hyielded
    · rw [List.mem_singleton.mp hr]
      exact ⟨time, hyielded, Nat.le_refl time⟩
  obtain ⟨x, hx, hle⟩ := hbefore
  obtain ⟨e, he, hend⟩ := h.results r (List.mem_of_mem_take hr) x hx
  have hlate : ¬ time < e.1 := by omega
  simp [BatchRun.runsAfter, he, hlate]

/-- Fewer runs than the window holds are still under way when the next call
starts. -/
theorem Queued.room {done : List BatchRun} {last : Option Nat} (h : Queued done last)
    {window begin start : Nat} (hwindow : 0 < window)
    (hstart : nextStart window begin (done.map (·.yielded)) = some start) :
    done.countP (·.runsAfter start) < window := by
  simp only [nextStart, List.length_map] at hstart
  split at hstart
  · exact Nat.lt_of_le_of_lt List.countP_le_length ‹_›
  · rename_i hfull
    -- the run a window back, and with it all runs before it, is over
    have hlt : done.length - window < done.length := by omega
    rw [List.getElem?_map, List.getElem?_eq_getElem hlt] at hstart
    have hyielded : done[done.length - window].yielded = some start := by
      simpa using hstart
    have hfirst : (done.take (done.length - window + 1)).countP (·.runsAfter start) = 0 :=
      List.countP_eq_zero.mpr fun r hr => by simp [h.over hlt hyielded r hr]
    have hrest : (done.drop (done.length - window + 1)).countP (·.runsAfter start) ≤
        (done.drop (done.length - window + 1)).length := List.countP_le_length
    rw [← List.take_append_drop (done.length - window + 1) done, List.countP_append, hfirst]
    rw [List.length_drop] at hrest
    omega

/-- Whenever a run starts, fewer runs than the window holds are still under
way. -/
def Spaced (window : Nat) (runs : List BatchRun) : Prop :=
  ∀ before r after, runs = before ++ r :: after → before.countP (·.runsAfter r.start) < window

theorem Spaced.first {window : Nat} {runs runs' : List BatchRun} (h : Spaced window runs)
    (hfirst : runs' <+: runs) : Spaced window runs' := by
  rintro before r after rfl
  obtain ⟨rest, rfl⟩ := hfirst
  exact h before r (after ++ rest) (by simp)

theorem spaced_scheduleFrom {window begin : Nat} (hwindow : 0 < window) {done : List BatchRun}
    {last : Option Nat} (hqueued : Queued done last) (hdone : Spaced window done)
    (requests : List ToolCallRequest) (world : σ) :
    Spaced window (done ++
      (scheduleFrom invoke window begin (done.map (·.yielded)) last requests world).map (·.1)) := by
  induction requests generalizing done last world with
  | nil => simpa [scheduleFrom] using hdone
  | cons request rest ih =>
    simp only [scheduleFrom]
    split
    · simpa using hdone
    · rename_i start hstart
      have hroom := hqueued.room hwindow hstart
      have hnext := hqueued.next request start (invoke request world).1
      have hspaced : Spaced window
          (done ++ [BatchRun.ofInvocation request start last (invoke request world).1]) := by
        intro before r after hsplit
        rcases List.eq_nil_or_concat after with rfl | ⟨front, final, rfl⟩
        · obtain ⟨rfl, hr⟩ := List.append_inj' hsplit rfl
          rw [← List.singleton_inj.mp hr]
          exact hroom
        · have hsplit' : done ++ [BatchRun.ofInvocation request start last
              (invoke request world).1] = (before ++ r :: front) ++ [final] := by
            simpa using hsplit
          exact hdone before r front (List.append_inj' hsplit' rfl).1
      have hmore := ih hnext hspaced (invoke request world).2
      simpa using hmore

theorem spaced_schedule {window : Nat} (hwindow : 0 < window) (begin : Nat)
    (requests : List ToolCallRequest) (world : σ) :
    Spaced window ((schedule invoke window begin requests world).map (·.1)) := by
  have hnone : Queued [] (some begin) := ⟨by simp, List.Pairwise.nil, by simp⟩
  exact spaced_scheduleFrom hwindow hnone (by rintro before r after h; simp at h) requests world

theorem runsAfter_mono {r : BatchRun} {time time' : Nat} (hle : time ≤ time')
    (h : r.runsAfter time' = true) : r.runsAfter time = true := by
  simp only [BatchRun.runsAfter, Bool.and_eq_true] at h ⊢
  refine ⟨h.1, ?_⟩
  cases hresult : r.result with
  | none => rfl
  | some e =>
    have hlate : time' < e.1 := by simpa [hresult] using h.2
    simpa using Nat.lt_of_le_of_lt hle hlate

/-- At no time are more calls under way than the window holds. -/
theorem inProgress_le {window : Nat} {runs : List BatchRun} (h : Spaced window runs)
    (time : Nat) : inProgress time runs ≤ window := by
  induction runs using List.reverseRecOn with
  | nil => exact Nat.zero_le window
  | append_singleton before r ih =>
    have hbefore := ih (h.first (List.prefix_append before [r]))
    simp only [inProgress, List.countP_append, List.countP_singleton] at hbefore ⊢
    split
    · rename_i hunder
      simp only [Bool.and_eq_true, decide_eq_true_eq] at hunder
      have hmono : before.countP (fun r => decide (r.start ≤ time) && r.runsAfter time) ≤
          before.countP (·.runsAfter r.start) := by
        refine List.countP_mono_left fun r' _ hr' => ?_
        rw [Bool.and_eq_true] at hr'
        exact runsAfter_mono hunder.1 hr'.2
      have hroom := h before r [] rfl
      omega
    · exact hbefore

theorem loads_le {window : Nat} {before rest : List BatchRun}
    (h : Spaced window (before.reverse ++ rest)) : ∀ n ∈ loads before rest, n ≤ window := by
  induction rest generalizing before with
  | nil => simp [loads]
  | cons r rest ih =>
    have hmore := @ih (r :: before) (by simpa using h)
    have hroom := h before.reverse r rest rfl
    rw [List.countP_reverse] at hroom
    simp only [loads]
    split
    · intro n hn
      rcases List.mem_cons.mp hn with rfl | hn
      · omega
      · exact hmore n hn
    · exact hmore

theorem peak_le {window : Nat} {runs : List BatchRun} (h : Spaced window runs) :
    peak runs ≤ window := by
  have hall : ∀ n ∈ loads [] runs, n ≤ window := loads_le (by simpa using h)
  rw [peak]
  generalize loads [] runs = counts at hall
  induction counts with
  | nil => exact Nat.zero_le window
  | cons n rest ih =>
    have hrest := ih fun m hm => hall m (List.mem_cons_of_mem n hm)
    have hn := hall n List.mem_cons_self
    simp only [List.foldr_cons]
    omega

/-! ## The plan of a batch -/

/-- Each run of a batch is the run of its call in some state of the world,
counted from its own start. -/
theorem run_scheduleFrom {window begin : Nat} {yields : List (Option Nat)}
    {before : Option Nat} {requests : List ToolCallRequest} {world : σ} {run : BatchRun × σ}
    (hrun : run ∈ scheduleFrom invoke window begin yields before requests world) :
    ∃ world, run.1.executed = (invoke run.1.request world).1.executed ∧
      run.1.result = (invoke run.1.request world).1.result.map
        fun e => (run.1.start + e.1, e.2) := by
  induction requests generalizing yields before world with
  | nil => simp [scheduleFrom] at hrun
  | cons request rest ih =>
    simp only [scheduleFrom] at hrun
    split at hrun
    · simp at hrun
    · rcases List.mem_cons.mp hrun with rfl | hlater
      · exact ⟨world, rfl, rfl⟩
      · exact ih hlater

/-- The world behind some runs is that behind the starts of their calls, one
after the other. -/
theorem worldAfter_scheduleFrom {start : σ → ToolCallRequest → σ}
    (hstart : ∀ request world, (invoke request world).2 = start world request)
    {window begin : Nat} {yields : List (Option Nat)} {before : Option Nat}
    {requests : List ToolCallRequest} {world : σ} {started : List (BatchRun × σ)}
    (hfirst : started <+: scheduleFrom invoke window begin yields before requests world) :
    worldAfter world started = (started.map (·.1.request)).foldl start world := by
  induction requests generalizing yields before world started with
  | nil =>
    rw [scheduleFrom, List.prefix_nil] at hfirst
    rw [hfirst]
    rfl
  | cons request rest ih =>
    simp only [scheduleFrom] at hfirst
    split at hfirst
    · rw [List.prefix_nil] at hfirst
      rw [hfirst]
      rfl
    · cases started with
      | nil => rfl
      | cons first others =>
        obtain ⟨rfl, hothers⟩ := List.cons_prefix_cons.mp hfirst
        have hworld := ih hothers
        rw [hstart request world] at hworld
        rw [List.map_cons, List.foldl_cons]
        refine Eq.trans ?_ hworld
        cases others with
        | nil => exact hstart request world
        | cons second others => simp [worldAfter, List.getLast?_cons]

/-- What a wait leaves behind, however it ends: the world and the runs that
were started. -/
def Outcome.left : Outcome σ → σ × List BatchRun
  | .ready _ left _ => left
  | .interrupted _ left => left
  | .never _ left => left

/-- What a wait has started is the first part of the plan of the batch. -/
theorem follow_planned (invoke : Invoke σ) (window : Nat) (requests : List ToolCallRequest)
    (c : Clock) (world : σ) :
    ∃ started, started <+: schedule invoke (max window 1) c.now requests world ∧
      Outcome.left (follow invoke window requests c world) =
        (worldAfter world started, started.map (·.1)) := by
  simp only [follow]
  split
  · exact ⟨[], List.nil_prefix, rfl⟩
  · split
    · exact ⟨_, List.takeWhile_prefix _, rfl⟩
    · split
      · exact ⟨_, List.prefix_refl _, rfl⟩
      · exact ⟨_, List.prefix_refl _, rfl⟩

/-- The results of a batch that was run to its end are those of its calls, in
their order, if these do not depend on the world. -/
theorem results_of_whole {calls : List ToolCallRequest} {runs : List BatchRun}
    {results : List ToolCallResult} {raised : Bool} (whole : Whole calls runs results raised)
    {result : ToolCallRequest → Option ToolCallResult}
    (hresult : ∀ run ∈ runs, run.result.map (·.2) = result run.request) :
    calls.map result = results.map some := by
  rw [← whole.outcomes, ← whole.requests, List.map_map]
  exact List.map_congr_left fun run hrun => (hresult run hrun).symm

end Batch

end AgentLoop
