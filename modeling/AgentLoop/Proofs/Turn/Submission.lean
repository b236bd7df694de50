/-
AgentLoop.Proofs.Turn.Submission — what the user says, and when it is refused.

* `submit_of_quiet`, `submit_of_pending` — nothing is pending and the text is
  appended, or a call is and the text is refused
* `Kept.resume`, `Kept.submit` — a session is opened again, and a text of the user is
  appended, as it is carried out, change by change, on a session that is kept with
  its times
* `Kept.run_submit` — in place this comes to the same; an error has changed nothing
* `submit_total_or_atomic` — a text is refused exactly if it is blank or a call is
  pending; any other is appended, and then a turn can begin

A failed session is opened again before its text is appended, and this is not taken
back. It is only done if no call is pending, and then the append cannot fail.
-/
import AgentLoop.Proofs.InPlace
import AgentLoop.Proofs.Session.WellPaired
import AgentLoop.Proofs.Turn.Lifetime

namespace AgentLoop

namespace Session

variable {s : Session}

/-- The session behind a text of the user. -/
def saying (s : Session) (text : NonBlank) : Session :=
  { s with history := s.history ++ [.userText text], turn := s.turn + 1, status := .active }

theorem appendAll_userText (hlive : s.status ≠ .failed) (hclosed : s.pending = 0)
    (text : NonBlank) : s.appendAll [.userText text] = .ok (s.saying text) := by
  rw [appendAll_ok_iff]
  refine ⟨hlive, s.ledger, ?_, ?_⟩
  · have hledger : ¬ s.ledger.pending > 0 := Nat.not_lt.mpr (Nat.le_of_eq hclosed)
    simp only [CallLedger.acceptAll, CallLedger.accept, if_neg hledger]
  · have hpending : s.ledger.pending = 0 := hclosed
    simp [extended, saying, statusAfter, hpending, Message.isUserText]

/-- Why a text of the user is refused while calls are open. -/
def notYet (s : Session) : AppendError :=
  if s.status = .failed then .sessionFailed s.id.text else .callsOpen .user s.pending

theorem appendAll_userText_refused (hopen : s.pending ≠ 0) (text : NonBlank) :
    s.appendAll [.userText text] = .error s.notYet := by
  have hledger : s.ledger.pending > 0 := Nat.pos_of_ne_zero hopen
  unfold appendAll notYet
  split
  · rfl
  · simp only [CallLedger.acceptAll, CallLedger.accept, if_pos hledger]
    rfl

theorem pending_eq_zero_iff_none (h : s.Reachable) : s.pending = 0 ↔ s.pendingToolCalls = [] := by
  rw [pending_eq_zero_iff h.consistent, pendingToolCalls_eq_openCalls h.consistent]

end Session

namespace Agent

variable {s : Session} {text : String}

/-! ## What is refused and what is not -/

theorem user_of_said (said : Text.isBlank text = false) :
    Message.user text = .ok (.userText ⟨text, said⟩) := NonBlank.map_ofText Message.userText said

theorem user_of_blank (unsaid : Text.isBlank text = true) :
    Message.user text = .error .blankText := by
  simp [Message.user, NonBlank.ofText, unsaid, Except.map]

/-- Where nothing is pending, only the status of a failed session changes. -/
theorem readied_of_closed (h : s.Reachable) (hclosed : s.pendingToolCalls = []) :
    readied s = { s with status := if s.status = .failed then .active else s.status } := by
  have hpending : ¬ s.pending > 0 :=
    Nat.not_lt.mpr (Nat.le_of_eq ((Session.pending_eq_zero_iff_none h).mpr hclosed))
  by_cases hfailed : s.status = .failed
  · simp [readied, Session.resume, hclosed, hfailed, hpending]
  · simp [readied, hfailed]

theorem readied_of_pending (hopen : s.pendingToolCalls ≠ []) : readied s = s := by
  simp [readied, hopen]

theorem submit_of_blank (unsaid : Text.isBlank text = true) :
    submit s text = .error MessageError.blankText.toAgentError := by
  rw [submit_eq, user_of_blank unsaid]

/-- Where nothing is pending, the append cannot fail. -/
theorem readied_takes (h : s.Reachable) (hclosed : s.pendingToolCalls = []) (text : NonBlank) :
    (readied s).appendAll [.userText text] = .ok (s.saying text) := by
  have hlive : (readied s).status ≠ .failed := by
    rw [readied_of_closed h hclosed]
    dsimp only
    split
    · simp
    · assumption
  have hpending : (readied s).pending = 0 := by
    rw [readied_of_closed h hclosed]
    exact (Session.pending_eq_zero_iff_none h).mpr hclosed
  rw [Session.appendAll_userText hlive hpending, readied_of_closed h hclosed]
  rfl

/-- Where nothing is pending, whatever is said is appended. -/
theorem submit_of_quiet (h : s.Reachable) (hclosed : s.pendingToolCalls = [])
    (said : Text.isBlank text = false) : submit s text = .ok (s.saying ⟨text, said⟩) := by
  rw [submit_eq, user_of_said said]
  dsimp only
  rw [readied_takes h hclosed]
  rfl

/-- While a call is pending, nothing is appended. -/
theorem submit_of_pending (h : s.Reachable) (hopen : s.pendingToolCalls ≠ [])
    (said : Text.isBlank text = false) : submit s text = .error s.notYet.toAgentError := by
  have hpending : s.pending ≠ 0 := fun hzero =>
    hopen ((Session.pending_eq_zero_iff_none h).mp hzero)
  rw [submit_eq, user_of_said said, readied_of_pending hopen]
  dsimp only
  rw [Session.appendAll_userText_refused hpending]
  rfl

/-- Just what is not blank is appended, and only where nothing is pending. -/
theorem submit_ok_iff (h : s.Reachable) {s' : Session} :
    submit s text = .ok s' ↔
      s.pendingToolCalls = [] ∧ ∃ said, s' = s.saying ⟨text, said⟩ := by
  by_cases hblank : Text.isBlank text = true
  · simp [submit_of_blank hblank, hblank]
  · have hsaid := Bool.eq_false_iff.mpr hblank
    by_cases hclosed : s.pendingToolCalls = []
    · simp [submit_of_quiet h hclosed hsaid, hclosed, hsaid, eq_comm]
    · simp [submit_of_pending h hclosed hsaid, hclosed]

theorem submit_error_iff (h : s.Reachable) :
    (∃ e, submit s text = .error e) ↔
      Text.isBlank text = true ∨ s.pendingToolCalls ≠ [] := by
  cases hblank : Text.isBlank text with
  | true => simp [submit_of_blank hblank]
  | false =>
    by_cases hclosed : s.pendingToolCalls = []
    · simp [submit_of_quiet h hclosed hblank, hclosed]
    · simp [submit_of_pending h hclosed hblank, hclosed]

end Agent

/-! ## In place -/

namespace Kept

/-- A failed session is opened again in place at a time. The flag tells whether the
status changed. -/
def resume {ε : Type} (now : Nat) : InPlace ε Kept Bool := do
  if (← get).session.status ≠ .failed then
    return false
  modify fun k =>
    { k with session.status := if k.session.pending > 0 then .awaitingTool else .active }
  modify fun k => { k with updatedAt := now }
  return true

/-- What the user says is appended in place at a time. A session that has failed is
opened again before, unless calls are still open. -/
def submit (reopened now : Nat) (text : String) : InPlace AgentError Kept Unit := do
  let m ← liftExcept ((Message.user text).mapError MessageError.toAgentError)
  let s := (← get).session
  if s.status = .failed && s.pendingToolCalls.isEmpty then
    let _ ← resume reopened
  (appendAll now [m]).adapt AppendError.toAgentError

/-- A resumption in place comes to the same as that of the session. -/
theorem run_resume {ε : Type} (now : Nat) (k : Kept) :
    (resume now : InPlace ε Kept Bool).run.run k =
      (.ok k.session.resume.1, if k.session.resume.1 then
        { k with session := k.session.resume.2, updatedAt := now } else k) := by
  rw [resume, InPlace.run_get_bind, Session.resume]
  split <;> rfl

/-- The append at the end of a submission, on a session that takes the text or not. -/
theorem run_appendAll_adapt (now : Nat) (ms : List Message) (k : Kept) :
    ((appendAll now ms).adapt AppendError.toAgentError : InPlace AgentError Kept Unit).run.run k =
      InPlace.commit k (((k.session.appendAll ms).mapError AppendError.toAgentError).map
        fun s => { k with session := s, updatedAt := now }) := by
  rw [InPlace.run_adapt, Kept.run_appendAll]
  cases k.session.appendAll ms <;> rfl

/-- A submission in place puts the new session in the place of the old one, or
breaks off before anything has changed. -/
theorem run_submit (k : Kept) (h : k.session.Reachable) (reopened now : Nat) (text : String) :
    (submit reopened now text).run.run k =
      InPlace.commit k ((Agent.submit k.session text).map
        fun s => { k with session := s, updatedAt := now }) := by
  rw [submit, InPlace.run_liftExcept_bind]
  cases hblank : Text.isBlank text with
  | true =>
    rw [Agent.user_of_blank hblank, Agent.submit_of_blank hblank]
    rfl
  | false =>
    rw [Agent.user_of_said hblank]
    dsimp only [Except.mapError]
    rw [InPlace.run_get_bind]
    split
    · -- The session is changed before the append, which therefore must not fail.
      rename_i hreopen
      obtain ⟨hfailed, hclosed⟩ := Bool.and_eq_true_iff.mp hreopen
      have hclosed := List.isEmpty_iff.mp hclosed
      have hready : Agent.readied k.session = k.session.resume.2 := if_pos hreopen
      have hreopened : k.session.resume.1 = true := by
        simp [Session.resume, of_decide_eq_true hfailed]
      have htakes := Agent.readied_takes h hclosed ⟨text, hblank⟩
      rw [hready] at htakes
      rw [InPlace.run_bind, run_resume, hreopened, Agent.submit_of_quiet h hclosed hblank]
      dsimp only
      rw [run_appendAll_adapt, if_pos rfl, htakes]
      rfl
    · rename_i hkeep
      have hready : Agent.readied k.session = k.session := if_neg hkeep
      rw [run_appendAll_adapt, Agent.submit_eq, Agent.user_of_said hblank, hready]

end Kept

namespace Agent

variable {σ : Type} {s : Session} {us : List TokenUsage} {text : String}

/-! ## Total or atomic -/

theorem saying_awaitsReply (s : Session) (text : NonBlank) :
    (s.saying text).awaitsReply = true := by
  simp [Session.awaitsReply, Session.userSpokeLast, Session.saying, Message.isSystemText,
    Message.isUserText]

theorem saying_canBegin {text : NonBlank} (h : (s.saying text).Reachable) :
    (s.saying text).canBegin = true := by
  obtain ⟨hactive, huser⟩ := Session.awaitsReply_iff.mp (saying_awaitsReply s text)
  exact (Session.canBegin_iff h).mpr (Or.inr ⟨Or.inl hactive, huser⟩)

/-- A turn that finds nothing pending and the user waiting comes to the loop, on the
session as it is. -/
theorem runTurn_of_awaitsReply (a : Agent σ) (hclosed : s.pendingToolCalls = [])
    (hawaits : s.awaitsReply = true) (c : Clock) (w : σ) :
    (opening s c w).session = s ∧
      a.runTurn s c w = a.loop a.settings.maxIterations (opening s c w) := by
  have hactive : s.status = .active := (Session.awaitsReply_iff.mp hawaits).1
  have hsession : (opening s c w).session = s := by
    simp [session_opening, Session.resume, hactive]
  refine ⟨hsession, ?_⟩
  unfold runTurn
  simp only [hsession, pendingRequests, hclosed, List.filterMap_nil, hawaits, if_true]

/-- A text of the user is refused exactly if it is blank or a call is pending, and
then, also in place, the session and its times are as before. Any other text is
appended: it stands at the end of the log, the session counts one turn more and is
active, whatever it was before, and the next turn comes to its loop. -/
theorem submit_total_or_atomic (h : s.Lived us) (text : String) :
    ((∃ e, submit s text = .error e) ↔ Text.isBlank text = true ∨ s.pendingToolCalls ≠ []) ∧
      (∀ e, submit s text = .error e → ∀ k reopened now, k.session = s →
        (Kept.submit reopened now text).run.run k = (.error e, k)) ∧
      ∀ s', submit s text = .ok s' →
        (∃ said, s' = { s with
          history := s.history ++ [.userText ⟨text, said⟩]
          turn := s.turn + 1
          status := .active }) ∧
        s.status ≠ .awaitingTool ∧
        (∀ k reopened now, k.session = s → (Kept.submit reopened now text).run.run k =
          (.ok (), { k with session := s', updatedAt := now })) ∧
        s'.canBegin = true ∧
        ∀ {σ : Type} (a : Agent σ) c w, (opening s' c w).session = s' ∧
          a.runTurn s' c w = a.loop a.settings.maxIterations (opening s' c w) := by
  have hs := h.reachable
  refine ⟨submit_error_iff hs, ?_, ?_⟩
  · rintro e refused k reopened now rfl
    rw [Kept.run_submit k hs, refused]
    rfl
  · intro s' ok
    obtain ⟨hclosed, said, rfl⟩ := (submit_ok_iff hs).mp ok
    have hpending := (Session.pending_eq_zero_iff_none hs).mpr hclosed
    have hreach := submit_reachable hs ok
    have hnone : (s.saying ⟨text, said⟩).pendingToolCalls = [] :=
      (Session.pending_eq_zero_iff_none hreach).mp hpending
    refine ⟨⟨said, rfl⟩, ?_, ?_, saying_canBegin hreach, fun a c w => ?_⟩
    · intro hwaiting
      exact Nat.ne_of_gt (hs.consistent.awaiting hwaiting) hpending
    · rintro k reopened now rfl
      rw [Kept.run_submit k hs, ok]
      rfl
    · exact runTurn_of_awaitsReply a hnone (saying_awaitsReply s _) c w

/-- What the user says after a turn that failed with nothing pending, and after one
that left a call without its result. -/
theorem submitted_behind_failures :
    let s := ((replaying [.error (.malformed "no")]).runTurn
      ((Session.new ⟨"s"⟩).performAll [.append (.userText ⟨"go", by decide⟩)])
      ⟨0, .absent⟩ (0, 0)).1.session
    s.status = .failed ∧
      (∃ s', submit s "again" = .ok s' ∧ s'.status = .active ∧ s'.turn = 2 ∧
        s'.canBegin = true) ∧
      halfAnswered.status = .failed ∧
      ∃ e, submit halfAnswered "again" = .error e ∧
        ∀ reopened now made changed,
          (Kept.submit reopened now "again").run.run ⟨halfAnswered, made, changed⟩ =
            (.error e, ⟨halfAnswered, made, changed⟩) := by
  intro s
  have hs : s.Lived _ := ((Session.Lived.new ⟨"s"⟩).performAll _).turn
    (replaying [.error (.malformed "no")]) ⟨0, .absent⟩ (0, 0)
  have hhalf : halfAnswered.Lived _ := (Session.Lived.new ⟨"s"⟩).performAll _
  obtain ⟨hrefused, -, hagain⟩ := submit_total_or_atomic hs "again"
  obtain ⟨hopen, hkept, -⟩ := submit_total_or_atomic hhalf "again"
  have hturn : s.turn = 1 := by decide +kernel
  refine ⟨by decide +kernel, ?_, rfl, ?_⟩
  · cases ok : submit s "again" with
    | error e => exact absurd (hrefused.mp ⟨e, ok⟩) (by decide +kernel)
    | ok s' =>
      obtain ⟨⟨said, rfl⟩, -, -, hbegin, -⟩ := hagain s' ok
      exact ⟨_, rfl, rfl, congrArg (· + 1) hturn, hbegin⟩
  · obtain ⟨e, refused⟩ := hopen.mpr (Or.inr (by decide +kernel))
    exact ⟨e, refused, fun reopened now made changed =>
      hkept e refused ⟨halfAnswered, made, changed⟩ reopened now rfl⟩

end Agent

end AgentLoop
