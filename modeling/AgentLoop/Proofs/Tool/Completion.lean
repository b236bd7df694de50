/-
AgentLoop.Proofs.Tool.Completion — when a batch of calls is complete.

* `Batch.Whole` — a batch that was run to its end, and when the signal may
  have been raised meanwhile
* `Batch.follow_whole` — a wait that brings results brings a whole batch
* `Batch.follow_prefix` — any other wait has run the first calls only
* `Batch.not_raised_of_never` — under a raised signal no wait lasts forever

The last result to be yielded is the last one to be there, since each run
is yielded behind all runs before it. A raise that does not cut the batch
short is no earlier than that.
-/
import AgentLoop.Proofs.Tool.Batch

namespace AgentLoop

/-- A run is yielded once its result and all results before it are there. -/
theorem BatchRun.yielded_ofInvocation {request : ToolCallRequest} {start time : Nat}
    {before : Option Nat} {i : Invocation}
    (h : (ofInvocation request start before i).yielded = some time) :
    ∃ b e, before = some b ∧ (ofInvocation request start before i).result = some e ∧
      time = max b e.1 := by
  simp only [ofInvocation] at h ⊢
  split at h
  · rename_i b e hresult
    exact ⟨b, e, rfl, hresult, (Option.some.inj h).symm⟩
  · cases h

namespace Batch

variable {σ : Type} {invoke : Invoke σ}

/-- A batch that was run to its end: there is one run for each call and one
result for each run, in the order of the calls. If the signal is raised by
then, a run raised it, and none did before all results were there. -/
structure Whole (calls : List ToolCallRequest) (runs : List BatchRun)
    (results : List ToolCallResult) (raised : Bool) : Prop where
  requests : runs.map (·.request) = calls
  outcomes : runs.map (fun r => r.result.map (·.2)) = results.map some
  callIds : results.map (·.callId) = calls.map (·.callId)
  raised_late : raised = true → (∃ r ∈ runs, r.raises.isSome) ∧
    ∀ r ∈ runs, ∀ time, r.raises = some time →
      ∀ r' ∈ runs, ∀ e, r'.result = some e → e.1 ≤ time

/-! ## The last result -/

/-- All results are there when the last run is yielded, and so is what came before
the runs. -/
theorem result_le_yielded {window begin : Nat} {yields : List (Option Nat)}
    {before : Option Nat} {requests : List ToolCallRequest} {world : σ}
    {last : BatchRun × σ} {time : Nat}
    (hlast : (scheduleFrom invoke window begin yields before requests world).getLast? =
      some last) (hyielded : last.1.yielded = some time) :
    (∃ b, before = some b ∧ b ≤ time) ∧
      ∀ run ∈ scheduleFrom invoke window begin yields before requests world,
        ∃ e, run.1.result = some e ∧ e.1 ≤ time := by
  induction requests generalizing yields before world with
  | nil => simp [scheduleFrom] at hlast
  | cons request rest ih =>
    cases hstart : nextStart window begin yields with
    | none => simp [scheduleFrom, hstart] at hlast
    | some start =>
      simp only [scheduleFrom, hstart] at hlast ⊢
      generalize invoke request world = invoked at hlast ⊢
      generalize hrun : BatchRun.ofInvocation request start before invoked.1 = run at hlast ⊢
      -- the head is yielded no later than the last run, be it the last one or not
      have hhead : (∃ y, run.yielded = some y ∧ y ≤ time) ∧
          ∀ r ∈ scheduleFrom invoke window begin (yields ++ [run.yielded]) run.yielded rest
            invoked.2, ∃ e, r.1.result = some e ∧ e.1 ≤ time := by
        generalize htail : scheduleFrom invoke window begin (yields ++ [run.yielded])
          run.yielded rest invoked.2 = tail at hlast
        cases tail with
        | nil =>
          rw [List.getLast?_singleton, Option.some.injEq] at hlast
          subst hlast
          exact ⟨⟨time, hyielded, Nat.le_refl time⟩, by simp⟩
        | cons second others =>
          rw [List.getLast?_cons_cons, ← htail] at hlast
          rw [← htail]
          exact ih hlast
      obtain ⟨⟨y, hy, hle⟩, htail⟩ := hhead
      rw [← hrun] at hy
      obtain ⟨b, e, hbefore, hresult, rfl⟩ := BatchRun.yielded_ofInvocation hy
      rw [hrun] at hresult
      refine ⟨⟨b, hbefore, by omega⟩, ?_⟩
      intro r hr
      rcases List.mem_cons.mp hr with rfl | hr
      · exact ⟨e, hresult, by omega⟩
      · exact htail r hr

/-- A batch is complete when all its results are there, and no earlier than it
begins. -/
theorem result_le_completion {window begin time : Nat} {requests : List ToolCallRequest}
    {world : σ}
    (h : completion? begin requests ((schedule invoke window begin requests world).map (·.1)) =
      some time) :
    begin ≤ time ∧ ∀ run ∈ (schedule invoke window begin requests world).map (·.1),
      ∃ e, run.result = some e ∧ e.1 ≤ time := by
  simp only [completion?] at h
  split at h
  · rw [List.getLast?_map] at h
    cases hlast : (schedule invoke window begin requests world).getLast? with
    | none =>
      rw [hlast] at h
      cases h
      rw [List.getLast?_eq_none_iff] at hlast
      exact ⟨Nat.le_refl _, by simp [hlast]⟩
    | some last =>
      rw [hlast] at h
      obtain ⟨⟨b, hb, hle⟩, hresults⟩ := result_le_yielded hlast h
      cases hb
      refine ⟨hle, fun run hrun => ?_⟩
      obtain ⟨pair, hpair, rfl⟩ := List.mem_map.mp hrun
      exact hresults pair hpair
  · cases h

/-! ## The signal -/

theorem firstRaise_le {runs : List BatchRun} {run : BatchRun} (hrun : run ∈ runs) {time : Nat}
    (hraises : run.raises = some time) : ∃ first, firstRaise runs = some first ∧ first ≤ time := by
  induction runs with
  | nil => cases hrun
  | cons r rest ih =>
    have hstep : firstRaise (r :: rest) = earlier r.raises (firstRaise rest) := rfl
    rw [hstep]
    rcases List.mem_cons.mp hrun with rfl | hrun
    · rw [hraises]
      cases firstRaise rest with
      | none => exact ⟨time, rfl, Nat.le_refl time⟩
      | some other => exact ⟨min time other, rfl, Nat.min_le_left _ _⟩
    · obtain ⟨first, hfirst, hle⟩ := ih hrun
      rw [hfirst]
      cases r.raises with
      | none => exact ⟨first, rfl, hle⟩
      | some own => exact ⟨min own first, rfl, Nat.le_trans (Nat.min_le_right _ _) hle⟩

theorem exists_raise_of_firstRaise {runs : List BatchRun} {time : Nat}
    (h : firstRaise runs = some time) : ∃ run ∈ runs, run.raises = some time := by
  induction runs with
  | nil => cases h
  | cons r rest ih =>
    have hstep : earlier r.raises (firstRaise rest) = some time := h
    have hcase : r.raises = some time ∨ firstRaise rest = some time := by
      cases hown : r.raises with
      | none =>
        rw [hown] at hstep
        exact Or.inr hstep
      | some own =>
        cases hrest : firstRaise rest with
        | none =>
          rw [hown, hrest] at hstep
          exact Or.inl hstep
        | some other =>
          rw [hown, hrest] at hstep
          have hmin : min own other = time := Option.some.inj hstep
          rw [Option.some.injEq, Option.some.injEq]
          omega
    rcases hcase with hown | hrest
    · exact ⟨r, List.mem_cons_self, hown⟩
    · obtain ⟨run, hrun, hraises⟩ := ih hrest
      exact ⟨run, List.mem_cons_of_mem _ hrun, hraises⟩

/-- A batch that is not cut short is complete by the time of any raise. -/
theorem completion_le_of_no_interruption {c : Clock} {raise completion : Option Nat}
    (h : interruption? c raise completion = none) :
    c.isRaised = false ∧ (c.signal ≠ .absent → ∀ time, raise = some time →
      ∃ done, completion = some done ∧ done ≤ time) := by
  simp only [interruption?] at h
  split at h
  · cases h
  · cases h
  · rename_i hinside
    refine ⟨Clock.not_raised_of_no_interruption h, ?_⟩
    rintro hsignal time rfl
    split at hinside
    · rename_i habsent
      exact absurd habsent hsignal
    · rename_i hsome _
      rw [Option.some.injEq] at hsome
      subst hsome
      split at hinside
      · cases hinside
      · rename_i hlate
        cases completion with
        | none => simp at hlate
        | some done => exact ⟨done, rfl, by simpa using hlate⟩
    · rename_i hnone _
      cases hnone

theorem signal_of_raise {c : Clock} {time : Nat}
    (h : (c.advance time).raise.isRaised = true) : c.signal ≠ .absent := by
  intro habsent
  simp [Clock.raise, Clock.advance, Clock.isRaised, habsent] at h

/-! ## A wait -/

theorem requests_schedule (invoke : Invoke σ) (window begin : Nat)
    (requests : List ToolCallRequest) (world : σ) :
    ((schedule invoke window begin requests world).map (·.1)).map (·.request) <+: requests := by
  simpa [schedule, Function.comp_def] using
    @requests_scheduleFrom _ invoke window begin [] (some begin) requests world

theorem map_of_mapM {runs : List BatchRun} {results : List ToolCallResult}
    (h : runs.mapM (fun r => r.result.map (·.2)) = some results) :
    runs.map (fun r => r.result.map (·.2)) = results.map some := by
  induction runs generalizing results with
  | nil =>
    rw [List.mapM_nil] at h
    cases h
    rfl
  | cons run rest ih =>
    rw [List.mapM_cons] at h
    simp only [Option.bind_eq_bind, Option.bind_eq_some_iff] at h
    obtain ⟨first, hfirst, others, hothers, hresults⟩ := h
    cases hresults
    rw [List.map_cons, List.map_cons, hfirst, ih hothers]

/-- A wait that brings results brings a whole batch. -/
theorem follow_whole {window : Nat} {requests : List ToolCallRequest} {c c' : Clock}
    {world : σ} {state : σ × List BatchRun} {results : List ToolCallResult}
    (hinvoke : ∀ request world ms r, (invoke request world).1.result = some (ms, r) →
      r.callId = request.callId)
    (h : follow invoke window requests c world = .ready c' state results) :
    Whole requests state.2 results c'.isRaised := by
  have hids := follow_ready hinvoke h
  simp only [follow] at h
  split at h
  · cases h
  · split at h
    · cases h
    · rename_i hnone
      split at h
      · rename_i done _ hdone hresults
        cases h
        obtain ⟨hlow, hlate⟩ := completion_le_of_no_interruption hnone
        have hlength := length_of_results? hresults
        have hprefix := requests_schedule invoke (max window 1) c.now requests world
        refine { requests := ?_, outcomes := ?_, callIds := hids, raised_late := ?_ }
        · exact hprefix.eq_of_length (by rw [List.length_map, hlength])
        · rw [results?, if_pos hlength] at hresults
          exact map_of_mapM hresults
        · intro hraised
          split at hraised
          · rename_i hsome
            obtain ⟨first, hfirst⟩ := Option.isSome_iff_exists.mp hsome
            obtain ⟨run, hrun, hraises⟩ := exists_raise_of_firstRaise hfirst
            refine ⟨⟨run, hrun, by rw [hraises]; rfl⟩, ?_⟩
            intro r hr time htime r' hr' e he
            obtain ⟨first, hfirst, hle⟩ := firstRaise_le hr htime
            obtain ⟨done', hdone', hle'⟩ := hlate (signal_of_raise hraised) first hfirst
            obtain ⟨e', he', hresult⟩ := (result_le_completion hdone').2 r' hr'
            rw [he, Option.some.injEq] at he'
            subst he'
            omega
          · rw [Clock.isRaised_advance, hlow] at hraised
            cases hraised
      · cases h

/-- The runs of a batch that is cut short, or never ends, are runs of its
first calls. -/
theorem follow_prefix {window : Nat} {requests : List ToolCallRequest} {c c' : Clock}
    {world : σ} {state : σ × List BatchRun}
    (h : follow invoke window requests c world = .interrupted c' state ∨
      follow invoke window requests c world = .never c' state) :
    state.2.map (·.request) <+: requests := by
  simp only [follow] at h
  split at h
  · rcases h with h | h
    · cases h
      exact List.nil_prefix
    · cases h
  · split at h
    · rcases h with h | h
      · cases h
        refine List.IsPrefix.trans ?_
          (requests_schedule invoke (max window 1) c.now requests world)
        exact ((List.takeWhile_prefix _).map _).map _
      · cases h
    · rcases h with h | h
      · split at h <;> cases h
      · split at h
        · cases h
        · cases h
          exact requests_schedule _ _ _ _ _

theorem not_raised_of_never {window : Nat} {requests : List ToolCallRequest} {c c' : Clock}
    {world : σ} {state : σ × List BatchRun}
    (h : follow invoke window requests c world = .never c' state) : c'.isRaised = false := by
  simp only [follow] at h
  split at h
  · cases h
  · split at h
    · cases h
    · rename_i hnone
      split at h
      · cases h
      · cases h
        exact (completion_le_of_no_interruption hnone).1

end Batch

end AgentLoop
