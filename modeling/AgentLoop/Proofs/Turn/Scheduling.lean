/-
AgentLoop.Proofs.Turn.Scheduling — a batch of calls comes to the same
messages under every bound on how many are under way.

* `Agent.alone` — the message that a call comes to by itself
* `Agent.Followed`, `execute_followed` — a batch in a turn is a wait for the
  batch, and what becomes of its results
* `Agent.Conducted`, `Followed.conducted` — every batch starts its calls once
  each, in order, and not too many at a time
* `Followed.delivers` — a batch that is not cancelled brings what its calls
  come to by themselves
* `results_independent_of_scheduling` — both together, for two agents that
  have nothing in common but their tools and the time limit

The clock at which a batch begins, the state of the world and the bound decide
when a call starts. None of them has a part in what the call comes to.
-/
import AgentLoop.Proofs.Tool.Scheduling
import AgentLoop.Proofs.Turn.Loop

namespace AgentLoop

namespace Turn

variable {σ : Type}

/-- The events that a batch publishes leave everything else as it was. -/
theorem foldl_publish_keeps {β : Type} (event : SessionId → β → AgentEvent) (bs : List β)
    (t : Turn σ) :
    let last := bs.foldl (fun t b => t.publish (event t.session.id b)) t
    last.session = t.session ∧ last.clock = t.clock ∧ last.world = t.world ∧
      last.batches = t.batches := by
  induction bs generalizing t with
  | nil => simp
  | cons b rest ih =>
    obtain ⟨hsession, hclock, hworld, hbatches⟩ := ih (t.publish (event t.session.id b))
    refine ⟨hsession, hclock, hworld, hbatches.trans ?_⟩
    simp [batches]

/-- Runs are noted in a turn, and the world is as they have left it. -/
structure Leaves (t : Turn σ) (world : σ) (runs : List BatchRun) (t' : Turn σ) : Prop where
  world : t'.world = world
  noted : t'.batches = t.batches ++ [runs]

theorem leaves_started {t t₁ : Turn σ} (h : t₁.batches = t.batches) (clock : Clock) (world : σ)
    (runs : List BatchRun) : t.Leaves world runs ((t₁.after clock world).note (.started runs)) := by
  refine ⟨rfl, ?_⟩
  have hbatch : ((t₁.after clock world).note (.started runs)).batches = t₁.batches ++ [runs] := by
    simp [batches]
  rw [hbatch, h]

theorem Leaves.of_batches {t t₁ t₂ : Turn σ} {world : σ} {runs : List BatchRun}
    (h : t.Leaves world runs t₁) (hworld : t₂.world = t₁.world)
    (hbatches : t₂.batches = t₁.batches) : t.Leaves world runs t₂ :=
  ⟨hworld.trans h.world, hbatches.trans h.noted⟩

end Turn

namespace Agent

variable {σ : Type} {a : Agent σ} {calls : List ToolCallRequest} {t t' : Turn σ}
  {r : StepResult Unit}

/-- The message that a call comes to if it is run by itself, in some state of
the world. -/
def alone (a : Agent σ) (world : σ) (call : ToolCallRequest) : Option Message :=
  (a.tools.invoke a.settings.toolTimeoutMs call world).1.result.map (·.2.toMessage)

/-- The wait for a batch of calls in a turn. -/
def wait (a : Agent σ) (calls : List ToolCallRequest) (t : Turn σ) : Batch.Outcome σ :=
  Batch.follow (a.tools.invoke a.settings.toolTimeoutMs) a.settings.toolConcurrency calls
    t.clock t.world

/-- A batch in a turn: how the wait for it ends, and what becomes of the
results. -/
inductive Followed (a : Agent σ) (calls : List ToolCallRequest) (t t' : Turn σ) :
    StepResult Unit → Prop
  | never (clock : Clock) (world : σ) (runs : List BatchRun)
      (waited : a.wait calls t = .never clock (world, runs))
      (leaves : t.Leaves world runs t') (session : t'.session = t.session) :
      Followed a calls t t' .never
  | cancelled (clock : Clock) (world : σ) (runs : List BatchRun)
      (waited : a.wait calls t = .interrupted clock (world, runs))
      (leaves : t.Leaves world runs t') (session : t'.session = t.session) :
      Followed a calls t t' (.failed .cancelled)
  | refused (clock : Clock) (world : σ) (runs : List BatchRun) (results : List ToolCallResult)
      (e : AppendError) (waited : a.wait calls t = .ready clock (world, runs) results)
      (leaves : t.Leaves world runs t')
      (refused : t.session.appendAll (results.map ToolCallResult.toMessage) = .error e) :
      Followed a calls t t' (.failed e.toAgentError)
  | recorded (clock : Clock) (world : σ) (runs : List BatchRun) (results : List ToolCallResult)
      (waited : a.wait calls t = .ready clock (world, runs) results)
      (leaves : t.Leaves world runs t')
      (recorded : t.session.appendAll (results.map ToolCallResult.toMessage) = .ok t'.session) :
      Followed a calls t t' (.next ())

theorem execute_followed (h : a.execute calls t = (t', r)) : Followed a calls t t' r := by
  unfold execute at h
  dsimp only at h
  obtain ⟨hsession, hclock, hworld, hbatches⟩ := Turn.foldl_publish_keeps
    (fun id (c : ToolCallRequest) => .toolCallStarted id c.callId c.toolName) calls
    (t.enter .executingTools)
  generalize calls.foldl _ _ = t₁ at h hsession hclock hworld hbatches
  have hbatches : t₁.batches = t.batches := hbatches.trans (by simp [Turn.batches])
  have hleaves := Turn.leaves_started hbatches
  have hwait : a.wait calls t = Batch.follow (a.tools.invoke a.settings.toolTimeoutMs)
      a.settings.toolConcurrency calls t₁.clock t₁.world := by
    rw [wait, hclock, hworld]
    rfl
  split at h
  · rename_i clock world runs hnever
    cases h
    exact .never clock world runs (hwait.trans hnever) (hleaves clock world runs) hsession
  · rename_i clock world runs hcut
    cases h
    exact .cancelled clock world runs (hwait.trans hcut) (hleaves clock world runs) hsession
  · rename_i clock world runs results hready
    obtain ⟨hsession₂, -, hworld₂, hbatches₂⟩ := Turn.foldl_publish_keeps
      (fun id (r : ToolCallResult) => .toolCallFinished id r.callId r.status) results
      ((t₁.after clock world).note (.started runs))
    generalize results.foldl _ _ = t₂ at h hsession₂ hworld₂ hbatches₂
    have hleft : t.Leaves world runs t₂ := (hleaves clock world runs).of_batches hworld₂ hbatches₂
    have hsession : t₂.session = t.session := hsession₂.trans hsession
    unfold Turn.record at h
    rw [hsession] at h
    cases happend : t.session.appendAll (results.map ToolCallResult.toMessage) with
    | error e =>
      rw [happend] at h
      cases h
      exact .refused clock world runs results e (hwait.trans hready)
        (hleft.of_batches rfl (by simp [Turn.batches])) happend
    | ok s =>
      rw [happend] at h
      cases h
      exact .recorded clock world runs results (hwait.trans hready)
        (hleft.of_batches rfl (by simp [Turn.batches])) happend

/-! ## What a batch starts -/

/-- What every batch does, be it cancelled or not: its runs are those of its
first calls; a call runs its executor, once, if the tool exists and takes the
arguments; nothing else is done to the world; each result is that of its call,
timed from its own start; and the bound is kept at all times. -/
structure Conducted (a : Agent σ) (calls : List ToolCallRequest) (t t' : Turn σ)
    (runs : List BatchRun) : Prop where
  noted : t'.batches = t.batches ++ [runs]
  first : runs.map (·.request) <+: calls
  executed : ∀ run ∈ runs, run.executed = (a.tools.target? run.request).isSome
  started : t'.world = (runs.map (·.request)).foldl a.tools.start t.world
  timed : ∀ run ∈ runs, ∃ world, run.result =
    (a.tools.invoke a.settings.toolTimeoutMs run.request world).1.result.map
      fun e => (run.start + e.1, e.2)
  bounded : ∀ time, Batch.inProgress time runs ≤ max 1 a.settings.toolConcurrency
  peak : Batch.peak runs ≤ max 1 a.settings.toolConcurrency

/-- The calls that a wait has started are conducted, however it ends. -/
theorem conducted_of_wait {world : σ} {runs : List BatchRun} (leaves : t.Leaves world runs t')
    (hleft : (a.wait calls t).left = (world, runs)) : Conducted a calls t t' runs := by
  obtain ⟨started, hplanned, hstarted⟩ := Batch.follow_planned
    (a.tools.invoke a.settings.toolTimeoutMs) a.settings.toolConcurrency calls t.clock t.world
  obtain ⟨rfl, rfl⟩ := Prod.mk.inj (hleft.symm.trans hstarted)
  have hrun : ∀ run ∈ started, ∃ world,
      run.1.executed = (a.tools.invoke a.settings.toolTimeoutMs run.1.request world).1.executed ∧
      run.1.result = (a.tools.invoke a.settings.toolTimeoutMs run.1.request world).1.result.map
        fun e => (run.1.start + e.1, e.2) :=
    fun run hmem => Batch.run_scheduleFrom (hplanned.subset hmem)
  have hspaced := (Batch.spaced_schedule (Nat.lt_of_lt_of_le Nat.one_pos
    (Nat.le_max_right _ _)) t.clock.now calls t.world).first (hplanned.map (·.1))
  rw [Nat.max_comm] at hspaced
  refine { noted := leaves.noted, first := ?_, executed := ?_, started := ?_, timed := ?_
           bounded := Batch.inProgress_le hspaced, peak := Batch.peak_le hspaced }
  · exact ((hplanned.map (·.1)).map (·.request)).trans (Batch.requests_schedule _ _ _ _ _)
  · intro run hmem
    obtain ⟨pair, hpair, rfl⟩ := List.mem_map.mp hmem
    obtain ⟨w, hexecuted, -⟩ := hrun pair hpair
    rw [hexecuted]
    exact (a.tools.invoke_starts pair.1.request w).1
  · rw [leaves.world, Batch.worldAfter_scheduleFrom
      (fun call w => (a.tools.invoke_starts call w).2) hplanned, List.map_map]
    rfl
  · intro run hmem
    obtain ⟨pair, hpair, rfl⟩ := List.mem_map.mp hmem
    obtain ⟨w, -, hresult⟩ := hrun pair hpair
    exact ⟨w, hresult⟩

/-- Every batch is conducted, and all of its calls are started if it is run to
its end. -/
theorem Followed.conducted (h : Followed a calls t t' r) :
    ∃ runs, Conducted a calls t t' runs ∧ (r = .next () → runs.map (·.request) = calls) := by
  cases h with
  | never clock world runs waited leaves session =>
    exact ⟨runs, conducted_of_wait leaves (congrArg Batch.Outcome.left waited), nofun⟩
  | cancelled clock world runs waited leaves session =>
    exact ⟨runs, conducted_of_wait leaves (congrArg Batch.Outcome.left waited), nofun⟩
  | refused clock world runs results e waited leaves refused =>
    exact ⟨runs, conducted_of_wait leaves (congrArg Batch.Outcome.left waited), nofun⟩
  | recorded clock world runs results waited leaves recorded =>
    have whole := Batch.follow_whole (fun _ _ _ _ => a.tools.callId_of_invoke) waited
    exact ⟨runs, conducted_of_wait leaves (congrArg Batch.Outcome.left waited),
      fun _ => whole.requests⟩

/-! ## What a batch brings -/

/-- The messages that a list of calls comes to, one call at a time and in
whatever states of the world. -/
def Comes (a : Agent σ) (calls : List ToolCallRequest) (messages : List Message) : Prop :=
  ∀ world, calls.map (a.alone world) = messages.map some

theorem alone_eq (h : a.tools.Steady) (call : ToolCallRequest) (world world' : σ) :
    a.alone world call = a.alone world' call := by
  rw [alone, alone, a.tools.result_invoke h call world world']

/-- The results of a wait are what the calls come to by themselves. -/
theorem comes_of_ready (hsteady : a.tools.Steady) {clock : Clock} {world : σ}
    {runs : List BatchRun} {results : List ToolCallResult} (leaves : t.Leaves world runs t')
    (waited : a.wait calls t = .ready clock (world, runs) results) :
    a.Comes calls (results.map ToolCallResult.toMessage) := by
  intro w
  have conducted := conducted_of_wait leaves (congrArg Batch.Outcome.left waited)
  have whole := Batch.follow_whole (fun _ _ _ _ => a.tools.callId_of_invoke) waited
  have hresults : calls.map (fun call =>
      (a.tools.invoke a.settings.toolTimeoutMs call w).1.result.map (·.2)) =
      results.map some := by
    refine Batch.results_of_whole whole fun run hrun => ?_
    obtain ⟨w', hresult⟩ := conducted.timed run hrun
    rw [hresult, a.tools.result_invoke hsteady run.request w' w, Option.map_map]
    rfl
  have halone : a.alone w = Option.map ToolCallResult.toMessage ∘ fun call =>
      (a.tools.invoke a.settings.toolTimeoutMs call w).1.result.map (·.2) := by
    funext call
    simp [alone, Function.comp_def]
  rw [halone, ← List.map_map, hresults, List.map_map, List.map_map]
  rfl

/-- How a batch that is not cancelled ends: with what its calls come to by
themselves, or never, if one of them comes to nothing. -/
theorem Followed.delivers (h : Followed a calls t t' r) (hsteady : a.tools.Steady)
    (hwaits : t.session.Waits (calls.map (·.callId))) (hkept : r ≠ .failed .cancelled) :
    (∃ messages, a.Comes calls messages ∧ r = .next () ∧
      t'.session.history = t.session.history ++ messages) ∨
    ((∃ call ∈ calls, ∀ world, a.alone world call = none) ∧ r = .never ∧
      t'.session = t.session) := by
  cases h with
  | never clock world runs waited leaves session =>
    refine Or.inr ⟨?_, rfl, session⟩
    by_contra hall
    refine Batch.follow_ne_never (fun call hcall w => ?_) _ _ _ _ _ waited
    rw [Option.isSome_iff_ne_none]
    intro hnone
    refine hall ⟨call, hcall, fun w' => ?_⟩
    rw [alone_eq hsteady call w' w, alone, hnone]
    rfl
  | cancelled clock world runs waited leaves session => exact absurd rfl hkept
  | refused clock world runs results e waited leaves refused =>
    have whole := Batch.follow_whole (fun _ _ _ _ => a.tools.callId_of_invoke) waited
    exact absurd refused (refuses_no_results hwaits whole e)
  | recorded clock world runs results waited leaves recorded =>
    exact Or.inl ⟨_, comes_of_ready hsteady leaves waited, rfl,
      Session.history_of_appendAll recorded⟩

/-- Messages that the calls come to are the only ones, and then each call
comes to something. -/
theorem Comes.unique {messages messages' : List Message} (h : a.Comes calls messages) (world : σ)
    (h' : a.Comes calls messages') : messages = messages' :=
  (List.map_inj_right fun _ _ h => Option.some.inj h).mp ((h world).symm.trans (h' world))

theorem Comes.isSome {messages : List Message} (h : a.Comes calls messages) (world : σ)
    {call : ToolCallRequest} (hcall : call ∈ calls) : (a.alone world call).isSome := by
  have hmem := List.mem_map_of_mem (f := a.alone world) hcall
  rw [h world] at hmem
  obtain ⟨m, -, hm⟩ := List.mem_map.mp hmem
  rw [← hm]
  rfl

/-- Every batch starts the executors of its calls in their order, each one
once, and never has more of them under way than the agent allows, at least
one. If the tools are steady, a batch that is not cancelled records what its
calls come to by themselves, in their order; and so does the batch of any
other agent with these tools and this time limit, whatever its bound, the
time, the state of the world and the other settings are. If a call comes to
nothing, neither batch ends. A session waits for the calls of a batch when a
turn takes up what was pending (`waits_pendingRequests`) and when the backend
has asked for them (`waits_of_query`). -/
theorem results_independent_of_scheduling (a b : Agent σ) (calls : List ToolCallRequest)
    {t t' u u' : Turn σ} {r r' : StepResult Unit} (ht : a.execute calls t = (t', r))
    (hu : b.execute calls u = (u', r')) :
    (∃ runs, Conducted a calls t t' runs ∧ (r = .next () → runs.map (·.request) = calls)) ∧
    (a.tools.Steady → b.tools = a.tools →
      b.settings.toolTimeoutMs = a.settings.toolTimeoutMs →
      t.session.Waits (calls.map (·.callId)) → u.session.Waits (calls.map (·.callId)) →
      r ≠ .failed .cancelled → r' ≠ .failed .cancelled →
      (∃ messages, a.Comes calls messages ∧ r = .next () ∧ r' = .next () ∧
        t'.session.history = t.session.history ++ messages ∧
        u'.session.history = u.session.history ++ messages) ∨
      ((∃ call ∈ calls, ∀ world, a.alone world call = none) ∧ r = .never ∧ r' = .never ∧
        t'.session = t.session ∧ u'.session = u.session)) := by
  refine ⟨(execute_followed ht).conducted, ?_⟩
  intro hsteady htools hlimit htwaits huwaits hkept hkept'
  have halone : b.alone = a.alone := by
    funext world call
    rw [alone, alone, htools, hlimit]
  have hbsteady : b.tools.Steady := htools ▸ hsteady
  have ha := (execute_followed ht).delivers hsteady htwaits hkept
  have hb := (execute_followed hu).delivers hbsteady huwaits hkept'
  simp only [Comes, halone] at hb
  rcases ha with ⟨messages, hcomes, hr, hlog⟩ | ⟨⟨call, hcall, hnone⟩, hr, hlog⟩
  · rcases hb with ⟨messages', hcomes', hr', hlog'⟩ | ⟨⟨call, hcall, hnone⟩, hr', hlog'⟩
    · rw [← hcomes.unique t.world hcomes'] at hlog'
      exact Or.inl ⟨messages, hcomes, hr, hr', hlog, hlog'⟩
    · have hsome := hcomes.isSome t.world hcall
      rw [hnone] at hsome
      cases hsome
  · rcases hb with ⟨messages', hcomes', hr', hlog'⟩ | ⟨-, hr', hlog'⟩
    · have hsome := Comes.isSome hcomes' t.world hcall
      rw [hnone] at hsome
      cases hsome
    · exact Or.inr ⟨⟨call, hcall, hnone⟩, hr, hr', hlog, hlog'⟩

/-! ## A batch in which calls fail in every way -/

/-- Whether a step came out with what it was done for. -/
def completed : StepResult Unit → Bool
  | .next _ => true
  | _ => false

/-- An agent with a slow tool, one that crashes and one that never ends, and
a bound on how many calls are under way. The world counts the starts. -/
def bounded (limit : Nat) : Agent Nat where
  provider := { name := "none", complete := fun _ _ w => .done w (.error (.malformed "")) }
  tools := {
    tools := [⟨⟨"slow", "", []⟩, fun _ w => (⟨none, some (20, .value .null)⟩, w + 1)⟩,
      ⟨⟨"crash", "", []⟩, fun _ w => (⟨none, some (5, .crashed none)⟩, w + 1)⟩,
      ⟨⟨"hang", "", []⟩, fun _ w => (⟨none, none⟩, w + 1)⟩]
    index := [("slow", 0), ("crash", 1), ("hang", 2)] }
  settings := { toolConcurrency := limit, toolTimeoutMs := some 30 }
  freshId := fun w => (.numbered w, w)

/-- A call for each of the tools, and one for a tool that does not exist. -/
def mixedCalls : List ToolCallRequest :=
  [⟨.numbered 1, "hang", .null⟩, ⟨.numbered 2, "slow", .null⟩, ⟨.numbered 3, "crash", .null⟩,
   ⟨.numbered 4, "other", .null⟩, ⟨.numbered 5, "slow", .null⟩]

/-- A session in which these calls are pending. -/
def mixedPending : Session :=
  (Session.new ⟨"s"⟩).performAll
    [.append (.userText ⟨"all at once", by decide⟩),
     .appendAll [.toolCall (.numbered 1) ⟨"hang", by decide⟩ .null,
       .toolCall (.numbered 2) ⟨"slow", by decide⟩ .null,
       .toolCall (.numbered 3) ⟨"crash", by decide⟩ .null,
       .toolCall (.numbered 4) ⟨"other", by decide⟩ .null,
       .toolCall (.numbered 5) ⟨"slow", by decide⟩ .null]]

/-- One call at a time or up to three: four starts, and the same five messages
in the log. -/
theorem mixed_calls_one_or_three :
    let t : Turn Nat := ⟨mixedPending, ⟨0, .absent⟩, 0, []⟩
    let one := (bounded 0).execute mixedCalls t
    let three := (bounded 3).execute mixedCalls t
    (one.1.batches.map Batch.peak, one.1.clock.now, one.1.world) = ([1], 75, 4) ∧
    (three.1.batches.map Batch.peak, three.1.clock.now, three.1.world) = ([3], 50, 4) ∧
    ∃ messages, (bounded 0).Comes mixedCalls messages ∧
      one.1.session.history = mixedPending.history ++ messages ∧
      three.1.session.history = mixedPending.history ++ messages := by
  intro t one three
  have hwaits : mixedPending.Waits (mixedCalls.map (·.callId)) :=
    ⟨(Session.Reachable.new _).performAll _, Or.inr (by decide +kernel), by decide +kernel⟩
  have hsteady : (bounded 0).tools.Steady := by
    simp [Registry.Steady, bounded]
  have hone : completed one.2 = true := by decide +kernel
  have hthree : completed three.2 = true := by decide +kernel
  have hrun : (bounded 0).execute mixedCalls t = (one.1, one.2) := rfl
  have hrun' : (bounded 3).execute mixedCalls t = (three.1, three.2) := rfl
  obtain ⟨-, hboth⟩ := results_independent_of_scheduling (bounded 0) (bounded 3) mixedCalls hrun
    hrun'
  refine ⟨by decide +kernel, by decide +kernel, ?_⟩
  have hkept : one.2 ≠ .failed .cancelled := fun hcut => by
    rw [hcut] at hone
    cases hone
  have hkept' : three.2 ≠ .failed .cancelled := fun hcut => by
    rw [hcut] at hthree
    cases hthree
  rcases hboth hsteady rfl rfl hwaits hwaits hkept hkept' with
    ⟨messages, hcomes, -, -, hlog, hlog'⟩ | ⟨-, hnever, -⟩
  · exact ⟨messages, hcomes, hlog, hlog'⟩
  · rw [show one.2 = _ from hnever] at hone
    cases hone

end Agent

end AgentLoop
