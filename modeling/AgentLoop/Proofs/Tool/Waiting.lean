/-
AgentLoop.Proofs.Tool.Waiting — when the wait for a batch of calls is over.

* `BatchRun.Within` — a run raises the signal between its start and its result
* `Batch.Waited`, `Batch.waited_follow` — a wait for a batch is over when its
  last result is there or when the signal is raised, whichever comes first

The batch is planned as if nobody could cut it short. A wait that is cut short
has started the runs that the plan has started by then, and no other.
-/
import AgentLoop.Proofs.Time.Waiting
import AgentLoop.Proofs.Tool.Completion

namespace AgentLoop

/-! ## When a call raises the signal -/

/-- A run raises the signal, if it does, neither before its start nor behind its
result. -/
structure BatchRun.Within (begin : Nat) (r : BatchRun) : Prop where
  begun : begin ≤ r.start
  started : ∀ time, r.raises = some time → r.start ≤ time
  running : ∀ time e, r.raises = some time → r.result = some e → time ≤ e.1

theorem Invocation.raises_le {id : CallId} {tool : String} {limit : Option Nat} {e : Execution}
    {time : Nat} {r : Nat × ToolCallResult}
    (hraises : (ofExecution id tool limit e).raises = some time)
    (hresult : (ofExecution id tool limit e).result = some r) : time ≤ r.1 := by
  simp only [ofExecution] at hraises hresult
  rw [hresult] at hraises
  have hlasts := (Option.filter_eq_some_iff.mp hraises).2
  simpa [lasts] using hlasts

theorem Registry.raises_le {σ : Type} (r : Registry (Executor σ)) {limit : Option Nat}
    {request : ToolCallRequest} {world : σ} {time : Nat} {e : Nat × ToolCallResult}
    (hraises : (r.invoke limit request world).1.raises = some time)
    (hresult : (r.invoke limit request world).1.result = some e) : time ≤ e.1 := by
  simp only [invoke] at hraises hresult
  split at hraises
  · cases hraises
  · rename_i tool hfind
    rw [hfind] at hresult
    dsimp only at hresult
    split at hraises
    · cases hraises
    · rename_i arguments haccepted
      rw [haccepted] at hresult
      exact Invocation.raises_le hraises hresult

namespace Batch

variable {σ : Type} {invoke : Invoke σ}

theorem within_scheduleFrom
    (hinvoke : ∀ request world time e, (invoke request world).1.raises = some time →
      (invoke request world).1.result = some e → time ≤ e.1)
    {window begin : Nat} {yields : List (Option Nat)} {before : Option Nat}
    (hyields : ∀ time, some time ∈ yields → begin ≤ time)
    (hbefore : ∀ time, before = some time → begin ≤ time) {requests : List ToolCallRequest}
    {world : σ} : ∀ run ∈ scheduleFrom invoke window begin yields before requests world,
      run.1.Within begin := by
  induction requests generalizing yields before world with
  | nil => simp [scheduleFrom]
  | cons request rest ih =>
    simp only [scheduleFrom]
    split
    · simp
    · rename_i start hstart
      have hbegun : begin ≤ start := by
        simp only [nextStart] at hstart
        split at hstart
        · cases hstart
          exact Nat.le_refl _
        · obtain ⟨y, hy, hyield⟩ := Option.bind_eq_some_iff.mp hstart
          rw [id] at hyield
          subst hyield
          exact hyields start (List.mem_of_getElem? hy)
      have hyielded : ∀ time, (BatchRun.ofInvocation request start before
          (invoke request world).1).yielded = some time → begin ≤ time := by
        intro time htime
        obtain ⟨b, e, hb, -, rfl⟩ := BatchRun.yielded_ofInvocation htime
        exact Nat.le_trans (hbefore b hb) (Nat.le_max_left _ _)
      intro run hrun
      rcases List.mem_cons.mp hrun with rfl | hlater
      · refine { begun := hbegun, started := ?_, running := ?_ }
        · intro time hraises
          obtain ⟨ms, -, rfl⟩ := Option.map_eq_some_iff.mp hraises
          exact Nat.le_add_right start ms
        · intro time e hraises hresult
          obtain ⟨ms, hms, rfl⟩ := Option.map_eq_some_iff.mp hraises
          obtain ⟨e', he', rfl⟩ := Option.map_eq_some_iff.mp hresult
          exact Nat.add_le_add_left (hinvoke _ _ _ _ hms he') start
      · refine ih ?_ hyielded run hlater
        intro time hmem
        rcases List.mem_append.mp hmem with hmem | hmem
        · exact hyields time hmem
        · exact hyielded time (List.mem_singleton.mp hmem).symm

/-! ## When a wait is cut short -/

/-- A wait for a batch that the signal does not cut short is over by the first
moment of a raise. -/
theorem completion_le_of_raisedAt {c : Clock} {raise completion : Option Nat} {time : Nat}
    (h : interruption? c raise completion = none)
    (hbegin : ∀ done, completion = some done → c.now ≤ done)
    (hmoment : c.RaisedAt raise time) : ∃ done, completion = some done ∧ done ≤ time := by
  obtain ⟨hlow, hlate⟩ := completion_le_of_no_interruption h
  cases hmoment with
  | before raised =>
    rw [hlow] at raised
    cases raised
  | @caller due lowered =>
    have houtside : c.interruption? completion = none := by
      simp only [interruption?] at h
      split at h
      · cases h
      · cases h
      · exact h
    cases completion with
    | none => simp [Clock.interruption?, lowered] at houtside
    | some done =>
      refine ⟨done, rfl, ?_⟩
      have hdue : done ≤ due := by simpa [Clock.interruption?, lowered] using houtside
      omega
  | within present raises => exact hlate present time raises

/-- A wait for a batch is cut short in the first moment of a raise, before the
batch is complete. If the signal was due before, it is cut short at once. -/
theorem cutShort_of_interruption? {c c' : Clock} {raise completion : Option Nat}
    (h : interruption? c raise completion = some c') (low : c.isRaised = false)
    (hraise : ∀ time, raise = some time → c.now ≤ time)
    (hbegin : ∀ done, completion = some done → c.now ≤ done) :
    c.CutShort raise completion c' ∨ c.Overdue ∧ c' = ⟨c.now, .raised⟩ := by
  cases hsignal : c.signal with
  | absent => simp [interruption?, Clock.interruption?, hsignal] at h
  | raised =>
    rw [Clock.isRaised_iff.mpr hsignal] at low
    cases low
  | lowered due =>
    have hmoment : ∀ time, c.RaisedAt raise time ↔
        due.map (max c.now) = some time ∨ raise = some time :=
      fun _ => Clock.raisedAt_lowered hsignal
    simp only [interruption?, Clock.interruption?, hsignal] at h
    -- the raise is the caller's, that of a run, or the earlier of the two
    have hraised : c'.signal = .raised := by
      cases raise <;> cases due <;> grind
    have hfirst : c.RaisedAt raise c'.now ∧ ∀ time, c.RaisedAt raise time → c'.now ≤ time := by
      simp only [hmoment]
      cases raise <;> cases due <;> cases completion <;> grind
    have hearly : (∀ done, completion = some done → c'.now < done) ∨
        (∃ d, due = some d ∧ d < c.now) ∧ c'.now = c.now := by
      cases raise <;> cases due <;> cases completion <;> grind
    rcases hearly with hearly | ⟨⟨d, rfl, hpast⟩, hnow⟩
    · exact Or.inl ⟨hfirst.1, hfirst.2, hearly, hraised⟩
    · refine Or.inr ⟨Or.inr ⟨d, hsignal, hpast⟩, ?_⟩
      rw [← hnow, ← hraised]

/-! ## A wait -/

/-- How the wait for a batch with these calls and this plan is over. -/
inductive Waited (calls : List ToolCallRequest) (plan : List BatchRun) (c : Clock) :
    Outcome σ → Prop
  | ready {c' : Clock} {world : σ} {results : List ToolCallResult}
      (wait : c.Completes (firstRaise plan) (completion? c.now calls plan) c') :
      Waited calls plan c (.ready c' (world, plan) results)
  | interrupted {c' : Clock} {world : σ} {runs : List BatchRun}
      (wait : c.CutShort (firstRaise plan) (completion? c.now calls plan) c' ∨
        c.Overdue ∧ c' = ⟨c.now, .raised⟩)
      (first : runs <+: plan) (started : ∀ run ∈ runs, run.start ≤ c'.now) :
      Waited calls plan c (.interrupted c' (world, runs))
  | never {c' : Clock} {world : σ}
      (wait : c.Hangs (firstRaise plan) (completion? c.now calls plan) c') :
      Waited calls plan c (.never c' (world, plan))

/-- The times of a batch: no run raises the signal before the batch begins, and if the
batch is complete, all runs have a result and none raises the signal behind it. -/
structure Planned (begin : Nat) (plan : List BatchRun) (completion : Option Nat) : Prop where
  raises : ∀ time, firstRaise plan = some time → begin ≤ time
  begun : ∀ done, completion = some done → begin ≤ done
  results : ∀ done, completion = some done → ∀ run ∈ plan, run.result.isSome
  within : ∀ done time, completion = some done → firstRaise plan = some time → time ≤ done

theorem planned_schedule
    (hinvoke : ∀ request world time e, (invoke request world).1.raises = some time →
      (invoke request world).1.result = some e → time ≤ e.1)
    (window begin : Nat) (calls : List ToolCallRequest) (world : σ) :
    let plan := (schedule invoke window begin calls world).map (·.1)
    Planned begin plan (completion? begin calls plan) := by
  intro plan
  have hwithin : ∀ run ∈ plan, run.Within begin := by
    intro run hrun
    obtain ⟨pair, hpair, rfl⟩ := List.mem_map.mp hrun
    exact within_scheduleFrom hinvoke (by simp) (by simp) pair hpair
  refine { raises := ?_, begun := ?_, results := ?_, within := ?_ }
  · intro time htime
    obtain ⟨run, hrun, hraises⟩ := exists_raise_of_firstRaise htime
    exact Nat.le_trans (hwithin run hrun).begun ((hwithin run hrun).started time hraises)
  · exact fun done hdone => (result_le_completion hdone).1
  · intro done hdone run hrun
    obtain ⟨e, he, -⟩ := (result_le_completion hdone).2 run hrun
    rw [he]
    rfl
  · intro done time hdone htime
    obtain ⟨run, hrun, hraises⟩ := exists_raise_of_firstRaise htime
    obtain ⟨e, he, hle⟩ := (result_le_completion hdone).2 run hrun
    exact Nat.le_trans ((hwithin run hrun).running time e hraises he) hle

theorem Waited.reaches {calls : List ToolCallRequest} {plan : List BatchRun} {c : Clock}
    {o : Outcome σ} (h : Waited calls plan c o)
    (hplan : Planned c.now plan (completion? c.now calls plan)) : c.Reaches o.clock := by
  cases h with
  | ready wait => exact wait.reaches hplan.begun
  | interrupted wait first started =>
    rcases wait with hcut | ⟨hoverdue, hclock⟩
    · exact hcut.reaches hplan.raises
    · show c.Reaches _
      rw [hclock]
      exact hoverdue.reaches
  | never wait => exact wait.reaches

theorem length_of_completion? {begin done : Nat} {calls : List ToolCallRequest}
    {plan : List BatchRun} (h : completion? begin calls plan = some done) :
    plan.length = calls.length := by
  simp only [completion?] at h
  split at h
  · assumption
  · cases h

/-- A batch that is complete before the signal is raised, or in that very moment. -/
theorem completes_of_whole {c : Clock} {raise ends : Option Nat} {done : Nat}
    (hdone : ends = some done)
    (hunraised : ∀ time, c.RaisedAt raise time → done ≤ time)
    (hwithin : ∀ time, raise = some time → time ≤ done) :
    c.Completes raise ends
      (if raise.isSome then (c.advance done).raise else c.advance done) := by
  cases raise with
  | none =>
    exact {
      ending := hdone
      unraised := hunraised
      raised := by simp
      kept := fun _ => rfl }
  | some time =>
    rw [Option.isSome_some, if_pos rfl]
    by_cases habsent : c.signal = .absent
    · rw [Clock.raise_of_absent (c := c.advance done) habsent]
      exact {
        ending := hdone
        unraised := hunraised
        raised := by simp [habsent]
        kept := fun _ => rfl }
    · have hnow : (c.advance done).raise.now = done := Clock.now_raise _
      have hsignal : (c.advance done).raise.isRaised = true :=
        Clock.isRaised_iff.mpr (Clock.signal_raise (c := c.advance done) habsent)
      have htime : time = done :=
        Nat.le_antisymm (hwithin time rfl) (hunraised time (.within habsent rfl))
      exact {
        ending := by rw [hnow, hdone]
        unraised := by rwa [hnow]
        raised := by simp [hsignal, hnow, habsent, htime]
        kept := fun hlow => by rw [hsignal] at hlow; cases hlow }

/-- The wait for a batch is over in one of the three ways. -/
theorem waited_follow
    (hinvoke : ∀ request world time e, (invoke request world).1.raises = some time →
      (invoke request world).1.result = some e → time ≤ e.1)
    (window : Nat) (calls : List ToolCallRequest) (c : Clock) (world : σ) :
    Waited calls ((schedule invoke (max window 1) c.now calls world).map (·.1)) c
      (follow invoke window calls c world) := by
  have hplan' := planned_schedule hinvoke (max window 1) c.now calls world
  simp only [follow]
  generalize hplanned : schedule invoke (max window 1) c.now calls world = planned at hplan' ⊢
  generalize hplan : planned.map (·.1) = plan at hplan' ⊢
  split
  · rename_i hraised
    have hsame : c = ⟨c.now, .raised⟩ := by rw [← Clock.isRaised_iff.mp hraised]
    exact .interrupted (Or.inr ⟨Or.inl hraised, hsame⟩) List.nil_prefix (by simp)
  · rename_i hlow
    have hlow := Bool.eq_false_iff.mpr hlow
    split
    · rename_i c' hcut
      refine .interrupted (cutShort_of_interruption? hcut hlow hplan'.raises hplan'.begun) ?_ ?_
      · rw [← hplan]
        exact (List.takeWhile_prefix _).map _
      · intro run hrun
        obtain ⟨pair, hpair, rfl⟩ := List.mem_map.mp hrun
        simpa using List.all_eq_true.mp List.all_takeWhile pair hpair
    · rename_i hnone
      have hmoment : ∀ τ, c.RaisedAt (firstRaise plan) τ →
          ∃ done, completion? c.now calls plan = some done ∧ done ≤ τ :=
        fun _ => completion_le_of_raisedAt hnone hplan'.begun
      split
      · rename_i done results hdone hresults
        refine .ready (completes_of_whole hdone ?_ ?_)
        · intro τ hτ
          obtain ⟨done', hdone', hle⟩ := hmoment τ hτ
          rw [hdone, Option.some.injEq] at hdone'
          omega
        · exact fun time htime => hplan'.within done time hdone htime
      · rename_i hunready
        have hendless : completion? c.now calls plan = none := by
          cases hdone : completion? c.now calls plan with
          | none => rfl
          | some done =>
            obtain ⟨results, hresults⟩ := mapM_isSome (hplan'.results done hdone)
            have hlength := length_of_completion? hdone
            exact (hunready done results hdone (by rw [results?, if_pos hlength, hresults])).elim
        refine .never ⟨hendless, fun τ hτ => ?_, Nat.le_refl _, rfl⟩
        obtain ⟨done, hdone, -⟩ := hmoment τ hτ
        rw [hendless] at hdone
        cases hdone

end Batch

end AgentLoop
