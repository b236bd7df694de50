/-
AgentLoop.Proofs.Turn.Exchanges — what a turn notes of its backend is what passes
between them.

* `Activity.noting` — another view of the state, in which a result leaves its mark
* `Provider.watched` — the same backend, which keeps what it is asked and what it
  answers
* `Agent.watched` — the same agent with that backend
* `Turn.exchanges`, `Turn.watched` — the requests and answers that a turn notes,
  kept next to the world
* `Agent.watched_runTurn`, `kept_exchanges` — what the backend has kept at the end of a
  turn is what the turn has noted

A turn notes a request when it sends it and an answer when it takes it in. These
notes are part of the turn, not of the backend, so that they say the truth is a
property of the turn. A backend that keeps its own record does not depend on them.
-/
import AgentLoop.Proofs.Turn.Trace

namespace AgentLoop

/-! ## Waits under another view of the state -/

section

variable {σ τ α : Type}

/-- Another view of the state: `during` while an activity lasts, and `upon` when there is
a result. -/
def Activity.noting (during : σ → τ) (upon : σ → α → τ) : Activity σ α → Activity τ α
  | .done s a => .done (upon s a) a
  | .stuck s => .stuck (during s)
  | .wait s ms rest => .wait (during s) ms (rest.noting during upon)
  | .raise rest => .raise (rest.noting during upon)

/-- The same view of the state that a wait ends in. -/
def Awaited.noting (during : σ → τ) (upon : σ → α → τ) : Awaited σ α → Awaited τ α
  | .ready c s a => .ready c (upon s a) a
  | .interrupted c s => .interrupted c (during s)
  | .never c s => .never c (during s)

theorem Activity.follow_noting (during : σ → τ) (upon : σ → α → τ) (activity : Activity σ α)
    (c : Clock) :
    (activity.noting during upon).follow c = (activity.follow c).noting during upon := by
  induction activity generalizing c with
  | done s a => rfl
  | stuck s =>
    simp only [noting, follow]
    split <;> rfl
  | wait s ms rest ih =>
    simp only [noting, follow]
    split
    · exact ih c
    · split
      · rfl
      · exact ih _
  | raise rest ih => exact ih c.raise

end

/-! ## Tools that leave something alone -/

variable {σ τ : Type}

/-- The same tool in a world with something more, which it leaves alone. -/
def RegisteredTool.beside (τ : Type) (tool : RegisteredTool (Executor σ)) :
    RegisteredTool (Executor (σ × τ)) :=
  { spec := tool.spec
    executor := fun arguments world =>
      let (execution, next) := tool.executor arguments world.1
      (execution, next, world.2) }

namespace Registry

/-- The same tools in a world with something more. -/
def beside (τ : Type) (r : Registry (Executor σ)) : Registry (Executor (σ × τ)) :=
  { tools := r.tools.map (RegisteredTool.beside τ), index := r.index }

theorem describeAll_beside (r : Registry (Executor σ)) :
    (r.beside τ).describeAll = r.describeAll := by
  simp [describeAll, beside, RegisteredTool.beside, Function.comp_def]

theorem find?_beside (r : Registry (Executor σ)) (name : String) :
    (r.beside τ).find? name = (r.find? name).map (RegisteredTool.beside τ) := by
  simp only [find?, beside]
  cases r.index.lookup name with
  | none => rfl
  | some i => simp

theorem invoke_beside (r : Registry (Executor σ)) (limit : Option Nat)
    (request : ToolCallRequest) (world : σ) (more : τ) :
    (r.beside τ).invoke limit request (world, more) =
      ((r.invoke limit request world).1, (r.invoke limit request world).2, more) := by
  have hnames : (r.beside τ).names = r.names := by
    simp [names, beside, RegisteredTool.beside, Function.comp_def]
  simp only [invoke, find?_beside, hnames]
  cases r.find? request.toolName with
  | none => rfl
  | some tool =>
    simp only [Option.map_some, RegisteredTool.beside]
    cases tool.spec.validateArguments request.arguments with
    | error vs => rfl
    | ok arguments => rfl

end Registry

namespace Batch

variable {invoke : Invoke σ} {invoke' : Invoke (σ × τ)} {more : τ}

theorem scheduleFrom_beside
    (h : ∀ request world, invoke' request (world, more) =
      ((invoke request world).1, (invoke request world).2, more))
    (window begin : Nat) (yields : List (Option Nat)) (before : Option Nat)
    (requests : List ToolCallRequest) (world : σ) :
    scheduleFrom invoke' window begin yields before requests (world, more) =
      (scheduleFrom invoke window begin yields before requests world).map
        fun run => (run.1, run.2, more) := by
  induction requests generalizing yields before world with
  | nil => rfl
  | cons request rest ih =>
    simp only [scheduleFrom, h]
    cases nextStart window begin yields with
    | none => rfl
    | some start => simp only [List.map_cons, ih]

theorem worldAfter_beside (world : σ) (runs : List (BatchRun × σ)) :
    worldAfter (world, more) (runs.map fun run => (run.1, run.2, more)) =
      (worldAfter world runs, more) := by
  simp only [worldAfter, List.getLast?_map]
  cases runs.getLast? <;> rfl

theorem startedBy_beside (time : Nat) (runs : List (BatchRun × σ)) :
    startedBy time (runs.map fun run => (run.1, run.2, more)) =
      (startedBy time runs).map fun run => (run.1, run.2, more) := by
  simp [startedBy, List.takeWhile_map, Function.comp_def]

/-- A batch of such tools is waited for in the same way. -/
theorem follow_beside
    (h : ∀ request world, invoke' request (world, more) =
      ((invoke request world).1, (invoke request world).2, more))
    (window : Nat) (requests : List ToolCallRequest) (c : Clock) (world : σ) :
    follow invoke' window requests c (world, more) =
      (follow invoke window requests c world).noting (fun s => ((s.1, more), s.2))
        (fun s _ => ((s.1, more), s.2)) := by
  have hruns : ∀ runs : List (BatchRun × σ),
      (runs.map fun run => (run.1, run.2, more)).map (·.1) = runs.map (·.1) := by
    intro runs
    rw [List.map_map]
    rfl
  simp only [follow, schedule, scheduleFrom_beside h, hruns, startedBy_beside,
    worldAfter_beside]
  split
  · rfl
  · split
    · rfl
    · split <;> rfl

end Batch

/-! ## A backend that is watched -/

/-- Whether an occurrence passes between a turn and its backend. -/
def Occurrence.isExchange : Occurrence → Bool
  | .asked .. => true
  | .answered _ => true
  | _ => false

/-- The same backend, which keeps what it is asked and what it answers, in the order
in which it happens. -/
def Provider.watched (p : Provider σ) : Provider (σ × List Occurrence) where
  name := p.name
  complete view specs world :=
    (p.complete view specs world.1).noting (fun s => (s, world.2 ++ [.asked view specs]))
      (fun s result => (s, world.2 ++ [.asked view specs, .answered result]))

/-- The same agent with its backend watched. -/
def Agent.watched (a : Agent σ) : Agent (σ × List Occurrence) where
  provider := a.provider.watched
  tools := a.tools.beside _
  settings := a.settings
  freshId world :=
    let (id, next) := a.freshId world.1
    (id, next, world.2)

namespace Turn

/-- The requests and the answers that a turn has noted. -/
def exchanges (t : Turn σ) : List Occurrence := t.trace.filter Occurrence.isExchange

@[simp] theorem exchanges_note (t : Turn σ) (o : Occurrence) :
    (t.note o).exchanges = t.exchanges ++ if o.isExchange then [o] else [] := by
  rw [exchanges, trace_note, List.filter_append, List.filter_cons, List.filter_nil]
  rfl

@[simp] theorem exchanges_after (t : Turn σ) (clock : Clock) (world : σ) :
    (t.after clock world).exchanges = t.exchanges := rfl

/-- The turn with its exchanges kept next to the world, behind those of `log`. -/
def watched (log : List Occurrence) (t : Turn σ) : Turn (σ × List Occurrence) where
  session := t.session
  clock := t.clock
  world := (t.world, log ++ t.exchanges)
  occurred := t.occurred

variable {log : List Occurrence}

@[simp] theorem clock_watched (t : Turn σ) : (t.watched log).clock = t.clock := rfl

@[simp] theorem world_watched (t : Turn σ) :
    (t.watched log).world = (t.world, log ++ t.exchanges) := rfl

@[simp] theorem session_watched (t : Turn σ) : (t.watched log).session = t.session := rfl

@[simp] theorem watched_with_session (t : Turn σ) (s : Session) :
    ({ t with session := s } : Turn σ).watched log = { t.watched log with session := s } := rfl

theorem watched_count (t : Turn σ) (u : Option TokenUsage) :
    (t.count u).watched log = (t.watched log).count u := by
  cases u <;> rfl

theorem watched_note (t : Turn σ) {o : Occurrence} (quiet : o.isExchange = false) :
    (t.note o).watched log = (t.watched log).note o := by
  have hsame : (t.note o).exchanges = t.exchanges := by simp [quiet]
  rw [watched, hsame]
  rfl

theorem watched_publish (t : Turn σ) {e : AgentEvent}
    (quiet : (Occurrence.published e).isExchange = false) :
    (t.publish e).watched log = (t.watched log).publish e := watched_note t quiet

theorem watched_enter (t : Turn σ) (state : LoopState) :
    (t.enter state).watched log = (t.watched log).enter state := watched_note t rfl

theorem watched_started (t : Turn σ) (clock : Clock) (world : σ) (runs : List BatchRun) :
    ((t.after clock world).note (.started runs)).watched log =
      ((t.watched log).after clock (world, log ++ t.exchanges)).note (.started runs) :=
  watched_note (t.after clock world) rfl

theorem watched_closed (t : Turn σ) (s : Session) (state : LoopState) {e : AgentEvent}
    (quiet : (Occurrence.published e).isExchange = false) :
    ((({ t with session := s } : Turn σ).enter state).publish e).watched log =
      (({ t.watched log with session := s } : Turn (σ × List Occurrence)).enter state).publish
        e := by
  rw [watched_publish _ quiet, watched_enter, watched_with_session]

theorem watched_foldl_publish {β : Type} (event : SessionId → β → AgentEvent) (bs : List β)
    (t : Turn σ) :
    (bs.foldl (fun t b => t.publish (event t.session.id b)) t).watched log =
      bs.foldl (fun t b => t.publish (event t.session.id b)) (t.watched log) := by
  induction bs generalizing t with
  | nil => rfl
  | cons b rest ih =>
    rw [List.foldl_cons, List.foldl_cons, ih, watched_publish t rfl]
    rfl

end Turn

namespace Agent

variable {a : Agent σ} {log : List Occurrence}

@[simp] theorem settings_watched (a : Agent σ) : a.watched.settings = a.settings := rfl

@[simp] theorem tools_watched (a : Agent σ) : a.watched.tools = a.tools.beside _ := rfl

@[simp] theorem view_watched (a : Agent σ) (s : Session) : a.watched.view s = a.view s := rfl

@[simp] theorem describeAll_watched (a : Agent σ) :
    a.watched.tools.describeAll = a.tools.describeAll := a.tools.describeAll_beside

/-- A watched backend is asked as the backend is, and keeps what the turn notes. -/
theorem watched_attempt (view : List Message) (specs : List ToolSpec) (t : Turn σ) :
    a.watched.attempt view specs (t.watched log) =
      (a.attempt view specs t).map (Turn.watched log) id := by
  have hfollow : (a.watched.provider.complete view specs (t.world, log ++ t.exchanges)).follow
      t.clock = ((a.provider.complete view specs t.world).follow t.clock).noting
        (fun s => (s, log ++ t.exchanges ++ [.asked view specs]))
        (fun s result => (s, log ++ t.exchanges ++ [.asked view specs, .answered result])) :=
    Activity.follow_noting _ _ _ _
  have hasked : (t.note (.asked view specs)).exchanges = t.exchanges ++ [.asked view specs] :=
    Turn.exchanges_note t _
  by_cases hraised : t.clock.isRaised = true
  · have hraised' : (t.watched log).clock.isRaised = true := hraised
    rw [attempt, attempt, if_pos hraised, if_pos hraised']
    rfl
  · have hlow : ¬ (t.watched log).clock.isRaised = true := hraised
    rw [attempt, attempt, if_neg hraised, if_neg hlow]
    simp only [Turn.clock_note, Turn.world_note, Turn.clock_watched, Turn.world_watched, hfollow]
    -- the record of the backend is that of the turn, whether it answers or not
    cases (a.provider.complete view specs t.world).follow t.clock with
    | ready clock world result =>
      have hanswered : (((t.note (.asked view specs)).after clock world).note
          (.answered result)).exchanges =
          t.exchanges ++ [.asked view specs, .answered result] := by
        rw [Turn.exchanges_note, Turn.exchanges_after, hasked, List.append_assoc]
        rfl
      simp only [Awaited.noting, Prod.map_apply, Turn.watched, hanswered, List.append_assoc]
      rfl
    | _ =>
      simp only [Awaited.noting, Prod.map_apply, Turn.watched, Turn.exchanges_after, hasked,
        List.append_assoc]
      rfl

/-! ## The other parts of a turn -/

theorem watched_pauseFor (ms : Nat) (t : Turn σ) :
    pauseFor ms (t.watched log) = (pauseFor ms t).map (Turn.watched log) id := by
  have hfollow : (Activity.pause (t.world, log ++ t.exchanges) ms).follow t.clock =
      ((Activity.pause t.world ms).follow t.clock).noting (fun s => (s, log ++ t.exchanges))
        (fun s _ => (s, log ++ t.exchanges)) :=
    Activity.follow_noting (fun s => (s, log ++ t.exchanges)) (fun s _ => (s, log ++ t.exchanges))
      (Activity.pause t.world ms) t.clock
  unfold pauseFor
  by_cases hms : ms = 0
  · rw [if_pos hms, if_pos hms]
    rfl
  · rw [if_neg hms, if_neg hms]
    by_cases hraised : t.clock.isRaised = true
    · have hraised' : (t.watched log).clock.isRaised = true := hraised
      rw [if_pos hraised, if_pos hraised']
      rfl
    · have hlow : ¬ (t.watched log).clock.isRaised = true := hraised
      rw [if_neg hraised, if_neg hlow, Turn.clock_watched, Turn.world_watched, hfollow]
      cases (Activity.pause t.world ms).follow t.clock <;> rfl

theorem watched_backOff (ms retry : Nat) (e : ProviderError) (t : Turn σ) :
    backOff ms retry e (t.watched log) = (backOff ms retry e t).map (Turn.watched log) id := by
  rw [backOff, backOff, ← watched_pauseFor, Turn.watched_publish _ rfl]
  rfl

theorem watched_request (waits : Nat → Nat) (view : List Message) (specs : List ToolSpec)
    (left retry : Nat) (t : Turn σ) :
    a.watched.request waits view specs left retry (t.watched log) =
      (a.request waits view specs left retry t).map (Turn.watched log) id := by
  induction left generalizing retry t with
  | zero =>
    rw [request, request, watched_attempt]
    cases a.attempt view specs t with | mk t₁ r₁
    cases r₁ with
    | next result => cases result <;> rfl
    | _ => rfl
  | succ left ih =>
    rw [request, request, watched_attempt]
    cases a.attempt view specs t with | mk t₁ r₁
    cases r₁ with
    | next result =>
      cases result with
      | ok reply => rfl
      | error e =>
        simp only [Prod.map_apply, id]
        split
        · rw [watched_backOff]
          cases backOff (waits (retry + 1)) (retry + 1) e t₁ with | mk t₂ finished
          cases finished with
          | true => exact ih (retry + 1) t₂
          | false => rfl
        · rfl
    | _ => rfl

theorem watched_assignId (seen : List CallId) (call : ToolCallRequest) (t : Turn σ) :
    a.watched.assignId seen call (t.watched log) =
      (a.assignId seen call t).map (Turn.watched log) id := by
  unfold assignId
  by_cases hheld : (t.session.hasCall call.callId || seen.contains call.callId) = true
  · have hheld' : ((t.watched log).session.hasCall call.callId ||
        seen.contains call.callId) = true := hheld
    have hfresh : a.watched.freshId (t.watched log).world =
        ((a.freshId t.world).1, (a.freshId t.world).2, log ++ t.exchanges) := rfl
    rw [if_pos hheld, if_pos hheld', hfresh]
    cases a.freshId t.world with | mk id world
    exact Prod.ext (Turn.watched_note (t.after t.clock world) rfl).symm rfl
  · have hfree : ¬ ((t.watched log).session.hasCall call.callId ||
        seen.contains call.callId) = true := hheld
    rw [if_neg hheld, if_neg hfree]
    exact Prod.ext (Turn.watched_note t rfl).symm rfl

theorem watched_prepareCalls (seen : List CallId) (requested : List ToolCallRequest)
    (t : Turn σ) :
    a.watched.prepareCalls seen requested (t.watched log) =
      (a.prepareCalls seen requested t).map (Turn.watched log) id := by
  induction requested generalizing seen t with
  | nil => rfl
  | cons call rest ih =>
    rw [prepareCalls, prepareCalls, watched_assignId]
    cases a.assignId seen call t with | mk t₁ call₁
    simp only [Prod.map_apply, id]
    cases Message.call call₁.callId call₁.toolName call₁.arguments with
    | error e => rfl
    | ok m =>
      simp only [ih]
      cases a.prepareCalls (call₁.callId :: seen) rest t₁ with | mk t₂ r₂
      cases r₂ <;> rfl

theorem watched_record (ms : List Message) (t : Turn σ) :
    (t.watched log).record ms = (t.record ms).map (Turn.watched log) id := by
  unfold Turn.record
  rw [Turn.session_watched]
  cases t.session.appendAll ms with
  | error e => exact Prod.ext (Turn.watched_note t rfl).symm rfl
  | ok s => exact Prod.ext (Turn.watched_note { t with session := s } rfl).symm rfl

theorem watched_recordCalls (requested : List ToolCallRequest) (t : Turn σ) :
    a.watched.recordCalls requested (t.watched log) =
      (a.recordCalls requested t).map (Turn.watched log) id := by
  unfold recordCalls
  by_cases hraised : t.clock.isRaised = true
  · have hraised' : (t.watched log).clock.isRaised = true := hraised
    rw [if_pos hraised, if_pos hraised']
    rfl
  · have hlow : ¬ (t.watched log).clock.isRaised = true := hraised
    rw [if_neg hraised, if_neg hlow, watched_prepareCalls]
    cases a.prepareCalls [] requested t with | mk t₁ r₁
    cases r₁ with
    | error e => rfl
    | ok prepared =>
      simp only [Prod.map_apply, id, watched_record]
      cases t₁.record prepared.2 with | mk t₂ e
      cases e <;> rfl

theorem watched_acceptReply (reply : ProviderReply) (t : Turn σ) :
    a.watched.acceptReply reply (t.watched log) =
      (a.acceptReply reply t).map (Turn.watched log) id := by
  simp only [acceptReply, ← Turn.watched_count]
  cases reply with
  | finalAnswer text u =>
    dsimp only
    split <;> rfl
  | toolCallBatch calls done u =>
    cases calls with
    | nil => cases done <;> rfl
    | cons call rest => exact watched_recordCalls _ _

theorem watched_query (t : Turn σ) :
    a.watched.query (t.watched log) = (a.query t).map (Turn.watched log) id := by
  simp only [query, ← Turn.watched_enter, describeAll_watched, settings_watched, view_watched,
    Turn.session_watched, watched_request]
  cases a.request a.settings.retry.backoff (a.view (t.enter .querying).session)
    a.tools.describeAll a.settings.retry.maxRetries 0 (t.enter .querying) with | mk t₁ r₁
  cases r₁ with
  | next reply => exact watched_acceptReply reply t₁
  | _ => rfl

theorem watched_execute (calls : List ToolCallRequest) (t : Turn σ) :
    a.watched.execute calls (t.watched log) =
      (a.execute calls t).map (Turn.watched log) id := by
  simp only [execute, ← Turn.watched_enter, settings_watched]
  rw [← Turn.watched_foldl_publish
    (fun id (c : ToolCallRequest) => .toolCallStarted id c.callId c.toolName)]
  generalize calls.foldl _ _ = t₁
  have hfollow := Batch.follow_beside
    (fun request world => a.tools.invoke_beside a.settings.toolTimeoutMs request world
      (log ++ t₁.exchanges)) a.settings.toolConcurrency calls t₁.clock t₁.world
  rw [tools_watched, Turn.clock_watched, Turn.world_watched, hfollow]
  cases Batch.follow (a.tools.invoke a.settings.toolTimeoutMs) a.settings.toolConcurrency calls
    t₁.clock t₁.world with
  | never clock state => exact Prod.ext (t₁.watched_started clock state.1 state.2).symm rfl
  | interrupted clock state =>
    exact Prod.ext (t₁.watched_started clock state.1 state.2).symm rfl
  | ready clock state results =>
    simp only [Awaited.noting, ← Turn.watched_started]
    rw [← Turn.watched_foldl_publish
      (fun id (r : ToolCallResult) => .toolCallFinished id r.callId r.status), watched_record]
    generalize results.foldl _ _ = t₂
    cases t₂.record (results.map ToolCallResult.toMessage) with | mk t₃ e
    cases e <;> rfl

theorem watched_fail (t : Turn σ) (e : AgentError) :
    (t.watched log).fail e = (t.fail e).map (Turn.watched log) id :=
  Prod.ext (t.watched_closed _ _ rfl).symm rfl

theorem watched_complete (t : Turn σ) (text : String) :
    (t.watched log).complete text = (t.complete text).map (Turn.watched log) id :=
  Prod.ext (t.watched_closed _ _ rfl).symm rfl

theorem watched_finish (t : Turn σ) (text : Option String) :
    (t.watched log).finish text = (t.finish text).map (Turn.watched log) id := by
  cases text with
  | none => exact watched_complete t ""
  | some text =>
    simp only [Turn.finish, watched_record]
    cases Message.assistant text with
    | error e => exact watched_fail t _
    | ok m =>
      dsimp only
      cases t.record [m] with | mk t₁ e
      cases e with
      | some e => exact watched_fail t₁ _
      | none => exact watched_complete t₁ text

theorem watched_reject (reopened : Bool) (t : Turn σ) :
    reject reopened (t.watched log) = (reject reopened t).map (Turn.watched log) id :=
  Prod.ext (t.watched_closed _ _ rfl).symm rfl

theorem watched_loop (left : Nat) (t : Turn σ) :
    a.watched.loop left (t.watched log) = (a.loop left t).map (Turn.watched log) id := by
  induction left generalizing t with
  | zero =>
    rw [loop, loop, watched_fail, watched_fail, Turn.clock_watched]
    split <;> rfl
  | succ left ih =>
    rw [loop, loop, watched_fail, Turn.clock_watched, watched_query]
    split
    · rfl
    · cases a.query t with | mk t₁ r₁
      cases r₁ with
      | never => rfl
      | failed e => exact congrArg ended (watched_fail t₁ e)
      | next verdict =>
        cases verdict with
        | finish text => exact congrArg ended (watched_finish t₁ text)
        | execute calls =>
          simp only [Prod.map_apply, id, watched_execute]
          cases a.execute calls t₁ with | mk t₂ r₂
          cases r₂ with
          | never => rfl
          | failed e => exact congrArg ended (watched_fail t₂ e)
          | next _ => exact ih t₂

theorem watched_opening (s : Session) (c : Clock) (w : σ) :
    (opening s c w).watched log = opening s c (w, log) := by
  have hnone : (opening s c w).exchanges = [] := rfl
  rw [Turn.watched, hnone, List.append_nil]
  rfl

/-- What a watched backend has kept when a turn is over are the requests and the answers
that the turn has noted, in their order. Otherwise the turn is that of the backend. -/
theorem watched_runTurn (a : Agent σ) (s : Session) (c : Clock) (w : σ) (log : List Occurrence) :
    a.watched.runTurn s c (w, log) = (a.runTurn s c w).map (Turn.watched log) id := by
  unfold runTurn
  rw [← watched_opening]
  generalize opening s c w = t
  dsimp only
  rw [Turn.session_watched, Turn.clock_watched, settings_watched]
  split
  · split
    · exact watched_loop _ t
    · exact congrArg ended (watched_reject _ t)
  · split
    · exact congrArg ended (watched_fail t _)
    · rw [watched_execute]
      cases a.execute (pendingRequests t.session) t with | mk t₁ r₁
      cases r₁ with
      | never => rfl
      | failed e => exact congrArg ended (watched_fail t₁ e)
      | next _ => exact watched_loop _ t₁

/-- The requests and answers in the record of a turn are the arguments and the results
of its backend. -/
theorem kept_exchanges (a : Agent σ) (s : Session) (c : Clock) (w : σ) :
    (a.watched.runTurn s c (w, [])).1.world.2 = (a.runTurn s c w).1.exchanges ∧
      (a.watched.runTurn s c (w, [])).1.trace = (a.runTurn s c w).1.trace := by
  rw [watched_runTurn]
  exact ⟨rfl, rfl⟩

end Agent

end AgentLoop
