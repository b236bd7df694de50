/-
AgentLoop.Proofs.Session.Standing — where a session stands between the
steps of a turn.

* `Session.Quiet` — the backend may be asked: nothing is pending
* `Session.Waits` — the tools may be run for some calls: just these are
  pending, in this order
* `Quiet.records_calls`, `Waits.records_results` — a quiet session goes on
  to wait for the calls of a batch, and back when their results come
* `Session.canBegin`, `canBegin_iff` — a turn can begin
* `waits_of_pending`, `quiet_of_awaitsReply` — where it then stands
* `quiet_of_active` — an active session is quiet
* `Session.Exchanged` — calls and results were appended, and nothing else

A turn goes back and forth between these two, which is why none of its
appends is refused. Up to its end it appends calls and results only, so
the user did not speak last once it has appended anything.
-/
import AgentLoop.Proofs.Session.Pending

namespace AgentLoop

namespace Session

variable {s s' : Session}

/-- Nothing is pending and the session takes any group of messages. -/
structure Quiet (s : Session) : Prop where
  reachable : s.Reachable
  active : s.status = .active
  closed : Log.openCalls s.history = []

/-- Just the calls with these identifiers are pending, in this order. -/
structure Waits (s : Session) (ids : List CallId) : Prop where
  reachable : s.Reachable
  live : s.status = .active ∨ s.status = .awaitingTool
  open_ids : Log.issued (Log.openCalls s.history) = ids

theorem Quiet.live (h : s.Quiet) : s.status ≠ .failed := by
  simp [h.active]

theorem Waits.not_failed {ids : List CallId} (h : s.Waits ids) : s.status ≠ .failed := by
  rcases h.live with hs | hs <;> simp [hs]

theorem Quiet.recordUsage (h : s.Quiet) (u : TokenUsage) : (s.recordUsage u).Quiet :=
  ⟨h.reachable.perform (.recordUsage u), h.active, h.closed⟩

/-- A quiet session waits for the calls that are recorded in it. -/
theorem Quiet.waits (h : s.Quiet) {calls : List Message}
    (hcalls : ∀ m ∈ calls, m.issues?.isSome) (ok : s.appendAll calls = .ok s') :
    s'.Waits (Log.issued calls) := by
  have hopen := openCalls_of_appendAll_calls h.reachable.consistent hcalls ok
  refine ⟨h.reachable.appendAll ok, ?_, ?_⟩
  · rw [status_of_appendAll ok, statusAfter]
    split
    · exact Or.inr rfl
    · split
      · exact Or.inl rfl
      · exact Or.inl h.active
  · rw [hopen, h.closed, List.nil_append]

/-- The calls of a batch are recorded if their identifiers are new and
differ from each other. -/
theorem Quiet.records_calls (h : s.Quiet) {calls : List Message}
    (hcalls : ∀ m ∈ calls, m.issues?.isSome) (hnodup : (Log.issued calls).Nodup)
    (hnew : ∀ id ∈ Log.issued calls, id ∉ Log.issued s.history) :
    ∃ s', s.appendAll calls = .ok s' :=
  appendAll_calls_ok h.reachable.consistent h.live hcalls hnodup hnew

/-- A text is recorded. -/
theorem Quiet.records_text (h : s.Quiet) {m : Message} (hissues : m.issues? = none)
    (hanswers : m.answers? = none) : ∃ s', s.appendAll [m] = .ok s' :=
  appendAll_text_ok h.reachable.consistent h.live h.closed hissues hanswers

/-- One result for each call that a session waits for is recorded, and
nothing is pending behind them. -/
theorem Waits.records_results {ids : List CallId} (h : s.Waits ids)
    {results : List Message} (hresults : ∀ m ∈ results, m.answers?.isSome)
    (hids : Log.answered results = ids) :
    ∃ s', s.appendAll results = .ok s' ∧ s'.Quiet := by
  obtain ⟨s', ok, hclosed⟩ := appendAll_results_ok h.reachable.consistent
    h.not_failed hresults (hids.trans h.open_ids.symm)
  have hreachable := h.reachable.appendAll ok
  exact ⟨s', ok, hreachable, active_of_appendAll hreachable.consistent ok h.live hclosed, hclosed⟩

theorem Waits.quiet {ids : List CallId} (h : s.Waits ids)
    {results : List Message} (hresults : ∀ m ∈ results, m.answers?.isSome)
    (hids : Log.answered results = ids) (ok : s.appendAll results = .ok s') :
    s'.Quiet := by
  obtain ⟨other, hother, hquiet⟩ := h.records_results hresults hids
  rw [ok, Except.ok.injEq] at hother
  rw [hother]
  exact hquiet

/-! ## The start of a turn -/

/-- Whether a turn can begin: calls of an earlier turn are pending, or the
user waits for a reply. A failed session is opened again to find out. -/
def canBegin (s : Session) : Bool :=
  !s.resume.2.pendingToolCalls.isEmpty || s.resume.2.awaitsReply

theorem awaitsReply_iff :
    s.awaitsReply = true ↔ s.status = .active ∧ s.userSpokeLast = true := by
  simp [awaitsReply]

theorem Reachable.resume (h : s.Reachable) : s.resume.2.Reachable :=
  h.perform .resume

@[simp] theorem history_resume : s.resume.2.history = s.history := by
  unfold Session.resume
  split <;> rfl

@[simp] theorem id_resume : s.resume.2.id = s.id := by
  unfold Session.resume
  split <;> rfl

theorem resume_not_failed : s.resume.2.status ≠ .failed := by
  unfold Session.resume
  split
  · assumption
  · dsimp only
    split <;> simp

theorem pendingToolCalls_resume (h : s.Reachable) :
    s.resume.2.pendingToolCalls = Log.openCalls s.history := by
  rw [pendingToolCalls_eq_openCalls h.resume.consistent, history_resume]

/-- A turn can begin exactly if a call is pending, or if the session is
active or failed and the user spoke last. -/
theorem canBegin_iff (h : s.Reachable) :
    s.canBegin = true ↔ s.pending ≠ 0 ∨
      ((s.status = .active ∨ s.status = .failed) ∧ s.userSpokeLast = true) := by
  have hpending := pending_eq_zero_iff h.consistent
  rw [canBegin, Bool.or_eq_true, pendingToolCalls_resume h, awaitsReply_iff]
  have huser : s.resume.2.userSpokeLast = s.userSpokeLast := by
    rw [userSpokeLast, userSpokeLast, history_resume]
  rw [huser]
  by_cases hzero : s.pending = 0
  · have hclosed := hpending.mp hzero
    have hstatus : s.resume.2.status = .active ↔ s.status = .active ∨ s.status = .failed := by
      unfold Session.resume
      split
      · rename_i hlive
        simp [hlive]
      · rename_i hfailed
        have hfailed := Classical.not_not.mp hfailed
        simp [hzero, hfailed]
    simp [hclosed, hzero, hstatus]
  · have hopen : Log.openCalls s.history ≠ [] := fun hc => hzero (hpending.mpr hc)
    simp [hopen, hzero]

/-- Nothing is pending in an active session. -/
theorem quiet_of_active (h : s.Reachable) (hactive : s.status = .active) : s.Quiet := by
  refine ⟨h, hactive, Classical.byContradiction fun hopen => ?_⟩
  have hwaiting := status_of_open h.consistent (by simp [hactive]) hopen
  rw [hactive] at hwaiting
  cases hwaiting

/-- A turn that finds calls pending waits for them. -/
theorem waits_of_pending (h : s.Reachable) (hopen : s.resume.2.pendingToolCalls ≠ []) :
    s.resume.2.Waits (Log.issued (Log.openCalls s.history)) := by
  rw [pendingToolCalls_eq_openCalls h.resume.consistent] at hopen
  refine ⟨h.resume, Or.inr ?_, by rw [history_resume]⟩
  exact status_of_open h.resume.consistent resume_not_failed hopen

/-- A turn that finds none pending and the user waiting is quiet. -/
theorem quiet_of_awaitsReply (h : s.Reachable) (hnone : s.resume.2.pendingToolCalls = [])
    (hawaits : s.resume.2.awaitsReply = true) : s.resume.2.Quiet := by
  rw [pendingToolCalls_eq_openCalls h.resume.consistent] at hnone
  exact ⟨h.resume, (awaitsReply_iff.mp hawaits).1, hnone⟩

/-! ## Calls and results -/

/-- From `s` on, tokens are counted and groups of calls or results are
appended, and nothing else happens. -/
inductive Exchanged (s : Session) : Session → Prop
  | refl : Exchanged s s
  | usage {s₁ : Session} (before : Exchanged s s₁) (u : TokenUsage) :
      Exchanged s (s₁.recordUsage u)
  | group {s₁ s₂ : Session} {ms : List Message} (before : Exchanged s s₁)
      (exchange : ∀ m ∈ ms, m.issues?.isSome ∨ m.answers?.isSome)
      (ok : s₁.appendAll ms = .ok s₂) : Exchanged s s₂

namespace Exchanged

variable {s'' : Session}

theorem trans (h : s.Exchanged s') (h' : s'.Exchanged s'') : s.Exchanged s'' := by
  induction h' with
  | refl => exact h
  | usage before u ih => exact .usage ih u
  | group before exchange ok ih => exact .group ih exchange ok

theorem id (h : s.Exchanged s') : s'.id = s.id := by
  induction h with
  | refl => rfl
  | usage before u ih => exact ih
  | group before exchange ok ih => rw [id_of_appendAll ok, ih]

theorem reachable (h : s.Exchanged s') (hs : s.Reachable) : s'.Reachable := by
  induction h with
  | refl => exact hs
  | usage before u ih => exact ih.perform (.recordUsage u)
  | group before exchange ok ih => exact ih.appendAll ok

theorem history (h : s.Exchanged s') :
    ∃ ms, s'.history = s.history ++ ms ∧ ∀ m ∈ ms, m.issues?.isSome ∨ m.answers?.isSome := by
  induction h with
  | refl => exact ⟨[], by simp, by simp⟩
  | usage before u ih => exact ih
  | @group s₁ s₂ added before exchange ok ih =>
    obtain ⟨ms, hlog, hms⟩ := ih
    refine ⟨ms ++ added, ?_, ?_⟩
    · rw [history_of_appendAll ok, hlog, List.append_assoc]
    · intro m hm
      exact (List.mem_append.mp hm).elim (hms m) (exchange m)

end Exchanged

/-- Behind a call or a result it is not the user who spoke last. -/
theorem userSpokeLast_of_exchange {log ms : List Message} (hlog : s.history = log ++ ms)
    (hne : ms ≠ []) (hms : ∀ m ∈ ms, m.issues?.isSome ∨ m.answers?.isSome) :
    s.userSpokeLast = false := by
  have hlast := hms _ (List.getLast_mem hne)
  rw [userSpokeLast, hlog, ← List.dropLast_concat_getLast hne]
  generalize ms.getLast hne = m at hlast
  cases m with
  | toolCall id tool arguments => simp [Message.isSystemText, Message.isUserText]
  | toolResult id status content => simp [Message.isSystemText, Message.isUserText]
  | _ => rcases hlast with hlast | hlast <;> cases hlast

end Session

end AgentLoop
