/-
AgentLoop.Proofs.Turn.Timing — a turn in time.

* `Turn.timeline` — what occurred, in its order, each with its clock
* `Agent.Timed` — occurrences between which time passes only in a wait, and then
  as long as the wait lasts
* `Agent.timed_along`, `timed_runTurn` — every turn is of this kind
* `Timed.ordered`, `Timed.in_time`, `Timed.still`, `Timed.answer_in_time` — what
  this says of the clocks of a turn, and of an answer
* `unsignalled_runTurn` — a turn without a signal is never cancelled

A turn waits for an answer, between a failure and the next request, and for the
runs of a batch. Each of these waits lies between two occurrences of its own, so
the clocks of the occurrences tell when it began and when it was over.
-/
import AgentLoop.Proofs.Tool.Scheduling
import AgentLoop.Proofs.Tool.Waiting
import AgentLoop.Proofs.Turn.Loop

namespace AgentLoop

/-- Whether there is a wait at an occurrence: behind a request, behind the
announcement of a repetition, in front of an answer, in front of the runs of a
batch. -/
def Occurrence.bordersWait : Occurrence → Bool
  | .asked .. => true
  | .answered _ => true
  | .started _ => true
  | .published (.providerRetry ..) => true
  | _ => false

namespace Turn

variable {σ : Type}

/-- What occurred, in its order, each with the clock at that moment. -/
def timeline (t : Turn σ) : List (Clock × Occurrence) := t.occurred.reverse

@[simp] theorem timeline_note (t : Turn σ) (o : Occurrence) :
    (t.note o).timeline = t.timeline ++ [(t.clock, o)] := by
  simp [timeline, note]

@[simp] theorem timeline_after (t : Turn σ) (clock : Clock) (world : σ) :
    (t.after clock world).timeline = t.timeline := rfl

theorem marked_eq_timeline (t : Turn σ) :
    t.marked = t.timeline.map fun p => (p.1.isRaised, p.2) := by
  simp [marked, timeline]

end Turn

namespace Agent

variable {σ : Type} {a : Agent σ}

/-! ## Courses in time -/

/-- The runs of a batch that begins at a time, if nobody cuts it short. -/
def plan (a : Agent σ) (calls : List ToolCallRequest) (now : Nat) (world : σ) :
    List BatchRun :=
  (Batch.schedule (a.tools.invoke a.settings.toolTimeoutMs) (max a.settings.toolConcurrency 1)
    now calls world).map (·.1)

/-- What occurs from one clock to another. No time passes and the signal is not
touched but for the waits: for the backend, which was asked in some state of the
world and is left alone otherwise; in front of a repetition; and for the runs of
a batch. -/
inductive Timed (a : Agent σ) : Clock → List (Clock × Occurrence) → Clock → Prop
  | nil (c : Clock) : Timed a c [] c
  | noted {c c' : Clock} {o : Occurrence} {later : List (Clock × Occurrence)}
      (quick : o.bordersWait = false) (rest : Timed a c later c') :
      Timed a c ((c, o) :: later) c'
  | answered {c c₁ c' : Clock} {later : List (Clock × Occurrence)} (view : List Message)
      (specs : List ToolSpec) (w w' : σ) (result : ProviderResult)
      (wait : (a.provider.complete view specs w).Waited c (.ready c₁ w' result))
      (rest : Timed a c₁ later c') :
      Timed a c ((c, .asked view specs) :: (c₁, .answered result) :: later) c'
  | unanswered {c c₁ c' : Clock} {later : List (Clock × Occurrence)} (view : List Message)
      (specs : List ToolSpec) (w w' : σ)
      (wait : (a.provider.complete view specs w).Waited c (.interrupted c₁ w') ∨
        (a.provider.complete view specs w).Waited c (.never c₁ w'))
      (rest : Timed a c₁ later c') : Timed a c ((c, .asked view specs) :: later) c'
  | paused {c c₁ c' : Clock} {later : List (Clock × Occurrence)} (id : SessionId) (retry : Nat)
      (e : ProviderError)
      (wait : c.Pauses (a.settings.retry.backoff retry) c₁) (rest : Timed a c₁ later c') :
      Timed a c ((c, .published (.providerRetry id retry e)) :: later) c'
  | ran {c c' : Clock} {later : List (Clock × Occurrence)} (calls : List ToolCallRequest)
      (w : σ) (o : Batch.Outcome σ) (wait : Batch.Waited calls (a.plan calls c.now w) c o)
      (rest : Timed a o.clock later c') :
      Timed a c ((o.clock, .started o.left.2) :: later) c'

namespace Timed

variable {c c' c'' : Clock} {later later' : List (Clock × Occurrence)}

theorem append (h : Timed a c later c') (h' : Timed a c' later' c'') :
    Timed a c (later ++ later') c'' := by
  induction h with
  | nil c => exact h'
  | noted quick rest ih => exact .noted quick (ih h')
  | answered view specs w w' result wait rest ih =>
    exact .answered view specs w w' result wait (ih h')
  | unanswered view specs w w' wait rest ih => exact .unanswered view specs w w' wait (ih h')
  | paused id retry e wait rest ih => exact .paused id retry e wait (ih h')
  | ran calls w o wait rest ih => exact .ran calls w o wait (ih h')

theorem planned (a : Agent σ) (calls : List ToolCallRequest) (now : Nat) (w : σ) :
    Batch.Planned now (a.plan calls now w)
      (Batch.completion? now calls (a.plan calls now w)) :=
  Batch.planned_schedule (fun _ _ _ _ => a.tools.raises_le) _ now calls w

/-- Each clock of a course is reached from all clocks before it. -/
theorem ordered (h : Timed a c later c') :
    (c :: (later.map (·.1) ++ [c'])).Pairwise Clock.Reaches := by
  induction h with
  | nil c => simpa using Clock.Reaches.refl c
  | noted quick rest ih => exact (Clock.Reaches.refl _).pairwise_cons ih
  | answered view specs w w' result wait rest ih =>
    have hwait := wait.reaches.pairwise_cons ih
    exact (Clock.Reaches.refl _).pairwise_cons hwait
  | @unanswered c c₁ c' later view specs w w' wait rest ih =>
    have hwait : c.Reaches c₁ := by
      rcases wait with hwait | hwait <;> exact hwait.reaches
    exact (Clock.Reaches.refl _).pairwise_cons (hwait.pairwise_skip ih)
  | paused id retry e wait rest ih =>
    exact (Clock.Reaches.refl _).pairwise_cons (wait.reaches.pairwise_skip ih)
  | @ran c c' later calls w o wait rest ih =>
    exact (wait.reaches (planned a calls c.now w)).pairwise_cons ih

theorem reaches (h : Timed a c later c') : c.Reaches c' :=
  (List.pairwise_cons.mp h.ordered).1 c' (by simp)

/-- A course is over by the time at which the caller has the signal raised. -/
theorem in_time (h : Timed a c later c') {due : Nat} (hdue : c.signal = .lowered (some due)) :
    c'.now ≤ max c.now due :=
  h.reaches.in_time due hdue

/-- No time passes from the raise on. -/
theorem still (h : Timed a c later c') {p : Clock × Occurrence} (hp : p ∈ later)
    (raised : p.1.isRaised = true) : c' = p.1 := by
  have hrow := (List.pairwise_append.mp (List.pairwise_cons.mp h.ordered).2).2.2
  exact (hrow p.1 (List.mem_map_of_mem hp) c' (by simp)).still raised

theorem not_answered_first {result : ProviderResult} {c₁ : Clock} :
    ¬ Timed a c ((c₁, .answered result) :: later) c' := by
  intro h
  cases h with
  | noted quick rest => cases quick

/-- An answer comes when the backend gives it, and it is the one that the backend
gives. -/
theorem answer_in_time (h : Timed a c later c') {before after : List (Clock × Occurrence)}
    {c₁ c₂ : Clock} {view : List Message} {specs : List ToolSpec} {result : ProviderResult}
    (hsplit : later = before ++ (c₁, .asked view specs) :: (c₂, .answered result) :: after) :
    ∃ w w', (a.provider.complete view specs w).Waited c₁ (.ready c₂ w' result) := by
  induction h generalizing before with
  | nil c => simp at hsplit
  | noted quick rest ih =>
    cases before with
    | nil =>
      cases hsplit
      cases quick
    | cons p before => exact ih (List.cons.inj hsplit).2
  | answered view' specs' w w' result' wait rest ih =>
    rcases before with _ | ⟨p, _ | ⟨p', before⟩⟩
    · cases hsplit
      exact ⟨w, w', wait⟩
    · simp at hsplit
    · exact ih (List.cons.inj (List.cons.inj hsplit).2).2
  | unanswered view' specs' w w' wait rest ih =>
    cases before with
    | nil =>
      cases hsplit
      exact (not_answered_first rest).elim
    | cons p before => exact ih (List.cons.inj hsplit).2
  | paused id retry e wait rest ih =>
    cases before with
    | nil => cases hsplit
    | cons p before => exact ih (List.cons.inj hsplit).2
  | ran calls w o wait rest ih =>
    cases before with
    | nil => cases hsplit
    | cons p before => exact ih (List.cons.inj hsplit).2

end Timed

/-! ## A turn on its way -/

/-- From `t` to `t'` the turn goes on in time. -/
def Proceeds (a : Agent σ) (t t' : Turn σ) : Prop :=
  ∃ later, t'.timeline = t.timeline ++ later ∧ Timed a t.clock later t'.clock

variable {t t' t'' : Turn σ}

namespace Proceeds

theorem refl (t : Turn σ) : Proceeds a t t := ⟨[], by simp, .nil _⟩

theorem trans (h : Proceeds a t t') (h' : Proceeds a t' t'') : Proceeds a t t'' := by
  obtain ⟨later, htimeline, htimed⟩ := h
  obtain ⟨later', htimeline', htimed'⟩ := h'
  exact ⟨later ++ later', by rw [htimeline', htimeline, List.append_assoc], htimed.append htimed'⟩

theorem note (h : Proceeds a t t') {o : Occurrence} (quick : o.bordersWait = false) :
    Proceeds a t (t'.note o) :=
  h.trans ⟨[(t'.clock, o)], t'.timeline_note o, .noted quick (.nil _)⟩

theorem with_session (h : Proceeds a t t') (s : Session) :
    Proceeds a t ({ t' with session := s } : Turn σ) := h

theorem count (h : Proceeds a t t') (u : Option TokenUsage) : Proceeds a t (t'.count u) := by
  cases u with
  | none => exact h
  | some u => exact h.with_session _

theorem foldl_publish {β : Type} (event : SessionId → β → AgentEvent)
    (hevent : ∀ id b, (Occurrence.published (event id b)).bordersWait = false)
    (h : Proceeds a t t') (bs : List β) :
    Proceeds a t (bs.foldl (fun t b => t.publish (event t.session.id b)) t') := by
  induction bs generalizing t' with
  | nil => exact h
  | cons b rest ih => exact ih (h.note (hevent t'.session.id b))

theorem record (h : Proceeds a t t') {ms : List Message} {e : Option AppendError}
    (hrecord : t'.record ms = (t'', e)) : Proceeds a t t'' := by
  unfold Turn.record at hrecord
  split at hrecord
  · cases hrecord
    exact h.note rfl
  · cases hrecord
    exact (h.with_session _).note rfl

theorem ran (h : Proceeds a t t') {calls : List ToolCallRequest} {w : σ} {o : Batch.Outcome σ}
    (wait : Batch.Waited calls (a.plan calls t'.clock.now w) t'.clock o) (world : σ) :
    Proceeds a t ((t'.after o.clock world).note (.started o.left.2)) :=
  h.trans ⟨_, Turn.timeline_note (t'.after o.clock world) _, .ran calls w o wait (.nil _)⟩

end Proceeds

theorem attempt_proceeds {view : List Message} {specs : List ToolSpec}
    {r : StepResult ProviderResult} (h : a.attempt view specs t = (t', r)) :
    Proceeds a t t' := by
  unfold attempt at h
  split at h
  · cases h
    exact .refl t
  · dsimp only at h
    have hwait := (a.provider.complete view specs t.world).waited_follow t.clock
    split at h
    · rename_i hnever
      cases h
      rw [Turn.clock_note, Turn.world_note] at hnever
      rw [hnever] at hwait
      exact ⟨_, Turn.timeline_note t _, .unanswered view specs _ _ (Or.inr hwait) (.nil _)⟩
    · rename_i hcut
      cases h
      rw [Turn.clock_note, Turn.world_note] at hcut
      rw [hcut] at hwait
      exact ⟨_, Turn.timeline_note t _, .unanswered view specs _ _ (Or.inl hwait) (.nil _)⟩
    · rename_i hready
      cases h
      rw [Turn.clock_note, Turn.world_note] at hready
      rw [hready] at hwait
      exact ⟨_, by simp, .answered view specs _ _ _ hwait (.nil _)⟩

/-- The wait in front of a repetition. A raised signal cuts it short before it
begins. -/
theorem pauseFor_pauses {ms : Nat} {finished : Bool} (h : pauseFor ms t = (t', finished)) :
    t'.timeline = t.timeline ∧ t.clock.Pauses ms t'.clock := by
  have hwait := (Activity.waited_follow (Activity.pause t.world ms) t.clock).pauses
  unfold pauseFor at h
  split at h
  · rename_i hms
    cases h
    exact ⟨rfl, by rw [hms]; exact Or.inl t.clock.completes_self⟩
  · rename_i hms
    split at h
    · rename_i hraised
      cases h
      have hcut : t.clock.interruption? (some (t.clock.now + ms)) = some t.clock := by
        rw [Clock.isRaised_iff] at hraised
        simp [Clock.interruption?, hraised]
      rw [Activity.pause, Activity.follow, if_neg hms, hcut] at hwait
      exact ⟨rfl, hwait⟩
    · split at h
      all_goals
        rename_i hfollow
        cases h
        rw [hfollow] at hwait
        exact ⟨rfl, hwait⟩

theorem backOff_proceeds {retry : Nat} {e : ProviderError} {finished : Bool}
    (h : backOff (a.settings.retry.backoff retry) retry e t = (t', finished)) :
    Proceeds a t t' := by
  obtain ⟨htimeline, hpauses⟩ := pauseFor_pauses h
  refine ⟨[(t.clock, .published (.providerRetry t.session.id retry e))], ?_,
    .paused _ retry e hpauses (.nil _)⟩
  rw [htimeline]
  exact Turn.timeline_note t _

theorem request_proceeds {view : List Message} {specs : List ToolSpec} {left retry : Nat}
    {r : StepResult ProviderReply}
    (h : a.request a.settings.retry.backoff view specs left retry t = (t', r)) :
    Proceeds a t t' := by
  induction left generalizing retry t with
  | zero =>
    rw [request] at h
    cases hattempt : a.attempt view specs t with | mk t₁ r₁
    rw [hattempt] at h
    have hasked := attempt_proceeds hattempt
    cases r₁ with
    | next result => cases result <;> · cases h; exact hasked
    | _ => cases h; exact hasked
  | succ left ih =>
    rw [request] at h
    cases hattempt : a.attempt view specs t with | mk t₁ r₁
    rw [hattempt] at h
    have hasked := attempt_proceeds hattempt
    cases r₁ with
    | next result =>
      cases result with
      | ok reply => cases h; exact hasked
      | error e =>
        dsimp only at h
        split at h
        · cases hback : backOff (a.settings.retry.backoff (retry + 1)) (retry + 1) e t₁ with
          | mk t₂ finished
          rw [hback] at h
          have hpaused := hasked.trans (backOff_proceeds hback)
          cases finished with
          | true => exact hpaused.trans (ih h)
          | false => cases h; exact hpaused
        · cases h; exact hasked
    | _ => cases h; exact hasked

theorem assignId_proceeds {seen : List CallId} {call call' : ToolCallRequest}
    (h : a.assignId seen call t = (t', call')) : Proceeds a t t' := by
  unfold assignId at h
  split at h
  · cases h
    exact ⟨_, Turn.timeline_note _ _, .noted rfl (.nil _)⟩
  · cases h
    exact (Proceeds.refl t).note rfl

theorem prepareCalls_proceeds {seen : List CallId} {requested : List ToolCallRequest}
    {r : Except MessageError (List ToolCallRequest × List Message)}
    (h : a.prepareCalls seen requested t = (t', r)) : Proceeds a t t' := by
  induction requested generalizing seen t t' r with
  | nil =>
    cases h
    exact .refl t
  | cons call rest ih =>
    rw [prepareCalls] at h
    cases hassign : a.assignId seen call t with | mk t₁ call₁
    have hassigned := assignId_proceeds hassign
    rw [hassign] at h
    dsimp only at h
    split at h
    · cases h
      exact hassigned
    · cases hrest : a.prepareCalls (call₁.callId :: seen) rest t₁ with | mk t₂ r₂
      rw [hrest] at h
      cases r₂ <;> · cases h; exact hassigned.trans (ih hrest)

theorem recordCalls_proceeds {requested : List ToolCallRequest} {r : StepResult Verdict}
    (h : a.recordCalls requested t = (t', r)) : Proceeds a t t' := by
  unfold recordCalls at h
  split at h
  · cases h
    exact .refl t
  · cases hprepare : a.prepareCalls [] requested t with | mk t₁ r₁
    have hprepared := prepareCalls_proceeds hprepare
    rw [hprepare] at h
    cases r₁ with
    | error e =>
      cases h
      exact hprepared
    | ok prepared =>
      dsimp only at h
      split at h
      all_goals
        rename_i hrecord
        cases h
        exact hprepared.record hrecord

theorem acceptReply_proceeds {reply : ProviderReply} {r : StepResult Verdict}
    (h : a.acceptReply reply t = (t', r)) : Proceeds a t t' := by
  have hcount := (Proceeds.refl (a := a) t).count reply.usage?
  unfold acceptReply at h
  dsimp only at h
  split at h
  · split at h <;> · cases h; exact hcount
  · split at h <;> · cases h; exact hcount
  · exact hcount.trans (recordCalls_proceeds h)

theorem query_proceeds {r : StepResult Verdict} (h : a.query t = (t', r)) :
    Proceeds a t t' := by
  unfold query at h
  dsimp only at h
  have henter : Proceeds a t (t.enter .querying) := (Proceeds.refl t).note rfl
  split at h
  all_goals
    rename_i hrequest
    have hasked := henter.trans (request_proceeds hrequest)
  · exact hasked.trans (acceptReply_proceeds h)
  · cases h; exact hasked
  · cases h; exact hasked

theorem waited_batch (a : Agent σ) (calls : List ToolCallRequest) (c : Clock) (w : σ) :
    Batch.Waited calls (a.plan calls c.now w) c
      (Batch.follow (a.tools.invoke a.settings.toolTimeoutMs) a.settings.toolConcurrency calls
        c w) :=
  Batch.waited_follow (fun _ _ _ _ => a.tools.raises_le) _ calls c w

theorem execute_proceeds {calls : List ToolCallRequest} {r : StepResult Unit}
    (h : a.execute calls t = (t', r)) : Proceeds a t t' := by
  unfold execute at h
  dsimp only at h
  have henter : Proceeds a t (t.enter .executingTools) := (Proceeds.refl t).note rfl
  have hstart := henter.foldl_publish
    (fun id (c : ToolCallRequest) => .toolCallStarted id c.callId c.toolName)
    (fun _ _ => rfl) calls
  generalize calls.foldl _ _ = t₁ at h hstart
  have hwait := a.waited_batch calls t₁.clock t₁.world
  split at h
  all_goals
    rename_i hfollow
    rw [hfollow] at hwait
    have hran := hstart.ran hwait
  · cases h
    exact hran _
  · cases h
    exact hran _
  · rename_i clock world runs results
    have hfinish := (hran world).foldl_publish
      (fun id (r : ToolCallResult) => .toolCallFinished id r.callId r.status)
      (fun _ _ => rfl) results
    split at h
    all_goals
      rename_i hrecord
      cases h
      exact hfinish.record hrecord

/-- Every part of a turn goes on in time. -/
theorem timed_along (a : Agent σ) : Along a (Proceeds a) where
  refl := .refl
  trans := .trans
  fail := fun t _ => (((Proceeds.refl t).with_session _).note rfl).note rfl
  complete := fun t _ => (((Proceeds.refl t).with_session _).note rfl).note rfl
  reply := fun {t _ _ _ _} _ hrecord => (Proceeds.refl t).record hrecord
  query := fun _ _ => query_proceeds
  execute := fun _ => execute_proceeds

/-- A turn is a course in time from its beginning to its end. -/
theorem timed_runTurn (a : Agent σ) {s : Session} (h : s.Reachable) (c : Clock) (w : σ) :
    Timed a c (a.runTurn s c w).1.timeline (a.runTurn s c w).1.clock := by
  have hreject : Proceeds a (opening s c w) (reject s.resume.1 (opening s c w)).1 := by
    unfold reject
    split <;> exact ((Proceeds.refl _).note rfl).note rfl
  obtain ⟨later, htimeline, htimed⟩ := (timed_along a).runTurn h c w hreject
  rw [htimeline]
  exact .noted rfl htimed

/-- A signal that is raised in the moment of an answer, and was not when the request
was sent, is raised by the backend. -/
theorem raisesWith_of_marked {c : Clock} (h : Timed a c t.timeline t.clock)
    {before after : List (Bool × Occurrence)} {view : List Message} {specs : List ToolSpec}
    {result : ProviderResult}
    (hmarked : t.marked =
      before ++ (false, .asked view specs) :: (true, .answered result) :: after) :
    ∃ w, (a.provider.complete view specs w).RaisesWith result := by
  rw [Turn.marked_eq_timeline, List.map_eq_append_iff] at hmarked
  obtain ⟨first, later, hsplit, -, hlater⟩ := hmarked
  obtain ⟨⟨c₁, _⟩, later, rfl, hasked, hlater⟩ := List.map_eq_cons_iff.mp hlater
  obtain ⟨⟨c₂, _⟩, later, rfl, hanswered, -⟩ := List.map_eq_cons_iff.mp hlater
  rw [Prod.mk.injEq] at hasked hanswered
  obtain ⟨hlow, rfl⟩ := hasked
  obtain ⟨hraised, rfl⟩ := hanswered
  obtain ⟨w, w', hwait⟩ := h.answer_in_time hsplit
  exact ⟨w, hwait.raisesWith hlow hraised⟩

/-- A turn without a signal is never cancelled. -/
theorem unsignalled_runTurn (a : Agent σ) {s : Session} (hs : s.Reachable) {c : Clock} (w : σ)
    (h : c.signal = .absent) : (a.runTurn s c w).1.clock.isRaised = false := by
  have habsent := (timed_runTurn a hs c w).reaches.absent h
  simp [Clock.isRaised, habsent]

end Agent

end AgentLoop
