/-
AgentLoop.Proofs.Turn.Loop — the loop of a turn, taken apart.

* `query_exchanged`, `execute_exchanged`, `waits_of_query` — what steps do to
  a session, and when it waits for calls
* `Cycle` — one question that is answered with calls, and their batch
* `Exit` — every way in which the loop ends
* `loop_rule` — what each cycle preserves holds when the loop is left
* `Begun`, `runTurn_begun` — every way in which a turn begins
* `Along`, `Along.runTurn` — relations that each part of a turn keeps, and so the
  whole of it

Each case carries the equations of the steps it was made of, so that a
property of the loop is proved from lemmas about single steps and the rule
alone. The session is quiet at the start of each cycle.
-/
import AgentLoop.Proofs.Turn.Batches
import AgentLoop.Proofs.Turn.Course

namespace AgentLoop

namespace Agent

variable {σ : Type} {a : Agent σ} {t t' : Turn σ}

/-! ## The session of a step -/

theorem exchanged_count (t : Turn σ) (u : Option TokenUsage) :
    t.session.Exchanged (t.count u).session := by
  cases u with
  | none => exact .refl
  | some u => exact .usage .refl u

theorem Settled.exchanged {answer : ProviderResult} {os : List Occurrence}
    {r : StepResult Verdict} (h : Settled a t answer os t' r) :
    t.session.Exchanged t'.session := by
  have hcount := exchanged_count t
  cases h with
  | failure e => exact .refl
  | answer text u said => exact hcount u
  | blank text u unsaid => exact hcount u
  | done u => exact hcount u
  | empty u => exact hcount u
  | cancelled done u nonempty stopped => exact hcount u
  | unnamed done u e unnamed assigns passes =>
    rw [passes.session]
    exact hcount u
  | refused done u e nonempty assigns prepared refused passes =>
    rw [passes.session]
    exact hcount u
  | recorded done u nonempty assigns prepared recorded trace =>
    exact .group (hcount u) (fun m hm => Or.inl (prepared.isSome_issues? m hm)) recorded

theorem query_exchanged {r : StepResult Verdict} (h : a.query t = (t', r)) :
    t.session.Exchanged t'.session := by
  cases query_cases h with
  | never es stuck passes =>
    rw [passes.session]
    exact .refl
  | cancelled es os short stopped passes =>
    rw [passes.session]
    exact .refl
  | settled q os view within passes settled =>
    rw [← passes.session]
    exact settled.exchanged

theorem execute_exchanged {calls : List ToolCallRequest} {r : StepResult Unit}
    (h : a.execute calls t = (t', r)) : t.session.Exchanged t'.session := by
  cases execute_ran h with
  | never runs first stuck low marks =>
    rw [marks.session]
    exact .refl
  | cancelled runs first raised marks =>
    rw [marks.session]
    exact .refl
  | refused runs results e whole refused marks =>
    rw [marks.session]
    exact .refl
  | recorded runs results whole recorded marked =>
    exact .group .refl (fun m hm => Or.inr (isSome_answers?_toMessage results m hm)) recorded

theorem waits_of_query {calls : List ToolCallRequest} (hquiet : t.session.Quiet)
    (h : a.query t = (t', .next (.execute calls))) :
    t'.session.Waits (calls.map (·.callId)) := by
  obtain ⟨q, requested, messages, hissued⟩ := (query_cases h).issued
  exact hissued.waits hquiet

/-! ## The loop -/

/-- From `t` to `t'` the backend is asked, answers with calls, and the calls
are run. -/
structure Cycle (a : Agent σ) (t t₁ : Turn σ) (calls : List ToolCallRequest)
    (t' : Turn σ) : Prop where
  quiet : t.session.Quiet
  low : t.clock.isRaised = false
  queried : a.query t = (t₁, .next (.execute calls))
  executed : a.execute calls t₁ = (t', .next ())

/-- How the loop ends with so many questions left. -/
inductive Exit (a : Agent σ) : (left : Nat) → Turn σ → Ended σ → Prop
  | cancelled {left : Nat} {t : Turn σ} (raised : t.clock.isRaised = true) :
      Exit a left t (ended (t.fail .cancelled))
  | exhausted {t : Turn σ} (low : t.clock.isRaised = false) :
      Exit a 0 t (ended (t.fail (.iterationLimitExceeded a.settings.maxIterations)))
  | unanswered {left : Nat} {t t₁ : Turn σ} (low : t.clock.isRaised = false)
      (queried : a.query t = (t₁, .never)) : Exit a (left + 1) t (t₁, none)
  | failed {left : Nat} {t t₁ : Turn σ} {e : AgentError} (low : t.clock.isRaised = false)
      (queried : a.query t = (t₁, .failed e)) : Exit a (left + 1) t (ended (t₁.fail e))
  | finished {left : Nat} {t t₁ : Turn σ} {text : Option String}
      (low : t.clock.isRaised = false) (queried : a.query t = (t₁, .next (.finish text))) :
      Exit a (left + 1) t (ended (t₁.finish text))
  | stuck {left : Nat} {t t₁ t₂ : Turn σ} {calls : List ToolCallRequest}
      (low : t.clock.isRaised = false) (queried : a.query t = (t₁, .next (.execute calls)))
      (executed : a.execute calls t₁ = (t₂, .never)) : Exit a (left + 1) t (t₂, none)
  | abandoned {left : Nat} {t t₁ t₂ : Turn σ} {calls : List ToolCallRequest}
      {e : AgentError} (low : t.clock.isRaised = false)
      (queried : a.query t = (t₁, .next (.execute calls)))
      (executed : a.execute calls t₁ = (t₂, .failed e)) :
      Exit a (left + 1) t (ended (t₂.fail e))

theorem Cycle.waits {t₁ : Turn σ} {calls : List ToolCallRequest} (h : Cycle a t t₁ calls t') :
    t₁.session.Waits (calls.map (·.callId)) := waits_of_query h.quiet h.queried

theorem Cycle.quiet_end {t₁ : Turn σ} {calls : List ToolCallRequest}
    (h : Cycle a t t₁ calls t') : t'.session.Quiet := (execute_ran h.executed).quiet h.waits

/-- What every cycle preserves holds when the loop is left. -/
theorem loop_rule {P : Nat → Turn σ → Prop} {Q : Ended σ → Prop}
    (leave : ∀ left t e, P left t → t.session.Quiet → Exit a left t e → Q e)
    (cycle : ∀ left t t₁ calls t', P (left + 1) t → Cycle a t t₁ calls t' → P left t')
    {left : Nat} {t : Turn σ} (hquiet : t.session.Quiet) (h : P left t) :
    Q (a.loop left t) := by
  induction left generalizing t with
  | zero =>
    rw [loop]
    split
    · rename_i hraised
      exact leave 0 t _ h hquiet (.cancelled hraised)
    · rename_i hlow
      exact leave 0 t _ h hquiet (.exhausted (Bool.eq_false_iff.mpr hlow))
  | succ left ih =>
    rw [loop]
    split
    · rename_i hraised
      exact leave (left + 1) t _ h hquiet (.cancelled hraised)
    · rename_i hlow
      have hlow := Bool.eq_false_iff.mpr hlow
      have hexit := fun e => leave (left + 1) t e h hquiet
      cases hquery : a.query t with | mk t₁ r₁
      cases r₁ with
      | never => exact hexit _ (.unanswered hlow hquery)
      | failed e => exact hexit _ (.failed hlow hquery)
      | next verdict =>
        cases verdict with
        | finish text => exact hexit _ (.finished hlow hquery)
        | execute calls =>
          dsimp only
          cases hexecute : a.execute calls t₁ with | mk t₂ r₂
          cases r₂ with
          | never => exact hexit _ (.stuck hlow hquery hexecute)
          | failed e => exact hexit _ (.abandoned hlow hquery hexecute)
          | next _ =>
            have hcycle : Cycle a t t₁ calls t₂ := ⟨hquiet, hlow, hquery, hexecute⟩
            exact ih hcycle.quiet_end (cycle left t t₁ calls t₂ h hcycle)

/-! ## The beginning of a turn -/

/-- How a turn begins: it is turned down, or runs the calls that are pending,
if there are any, and comes to the loop. -/
inductive Begun (a : Agent σ) (s : Session) (t : Turn σ) : Ended σ → Prop
  | rejected (unfit : s.canBegin = false) : Begun a s t (ended (reject s.resume.1 t))
  | cancelled (fit : s.canBegin = true) (pending : pendingRequests s.resume.2 ≠ [])
      (raised : t.clock.isRaised = true) : Begun a s t (ended (t.fail .cancelled))
  | stuck {t₁ : Turn σ} (fit : s.canBegin = true)
      (pending : pendingRequests s.resume.2 ≠ []) (low : t.clock.isRaised = false)
      (executed : a.execute (pendingRequests s.resume.2) t = (t₁, .never)) :
      Begun a s t (t₁, none)
  | abandoned {t₁ : Turn σ} {e : AgentError} (fit : s.canBegin = true)
      (pending : pendingRequests s.resume.2 ≠ []) (low : t.clock.isRaised = false)
      (executed : a.execute (pendingRequests s.resume.2) t = (t₁, .failed e)) :
      Begun a s t (ended (t₁.fail e))
  | resumed {t₁ : Turn σ} (fit : s.canBegin = true)
      (pending : pendingRequests s.resume.2 ≠ []) (low : t.clock.isRaised = false)
      (executed : a.execute (pendingRequests s.resume.2) t = (t₁, .next ())) :
      Begun a s t (a.loop a.settings.maxIterations t₁)
  | asked (fit : s.canBegin = true) (none : pendingRequests s.resume.2 = [])
      (quiet : t.session.Quiet) : Begun a s t (a.loop a.settings.maxIterations t)

theorem pendingRequests_eq_nil_iff {s : Session} (h : s.Reachable) :
    pendingRequests s.resume.2 = [] ↔ Log.openCalls s.history = [] := by
  have hids := callIds_pendingRequests h
  constructor
  · intro hnone
    rw [hnone] at hids
    exact List.map_eq_nil_iff.mp hids.symm
  · intro hnone
    rw [hnone] at hids
    exact List.map_eq_nil_iff.mp hids

/-- A turn that finds calls pending waits for just these. -/
theorem waits_pendingRequests {s : Session} (h : s.Reachable)
    (hpending : pendingRequests s.resume.2 ≠ []) :
    s.resume.2.Waits ((pendingRequests s.resume.2).map (·.callId)) := by
  have hopen : s.resume.2.pendingToolCalls ≠ [] := by
    rw [Session.pendingToolCalls_resume h]
    exact fun hnone => hpending ((pendingRequests_eq_nil_iff h).mpr hnone)
  have hissued : Log.issued (Log.openCalls s.history) =
      (pendingRequests s.resume.2).map (·.callId) := by
    apply Log.issued_of_map
    rw [← callIds_pendingRequests h, List.map_map]
    rfl
  rw [← hissued]
  exact Session.waits_of_pending h hopen

theorem runTurn_begun (a : Agent σ) {s : Session} (h : s.Reachable) (c : Clock) (w : σ) :
    Begun a s (opening s c w) (a.runTurn s c w) := by
  unfold runTurn
  dsimp only
  rw [session_opening]
  cases hcalls : pendingRequests s.resume.2 with
  | nil =>
    have hclosed : s.resume.2.pendingToolCalls = [] := by
      rw [Session.pendingToolCalls_resume h]
      exact (pendingRequests_eq_nil_iff h).mp hcalls
    dsimp only
    split
    · rename_i hawaits
      exact .asked (by simp [Session.canBegin, hawaits]) hcalls
        (Session.quiet_of_awaitsReply h hclosed hawaits)
    · rename_i hunasked
      exact .rejected (by simp [Session.canBegin, hclosed, hunasked])
  | cons call rest =>
    have hpending : pendingRequests s.resume.2 ≠ [] := by simp [hcalls]
    have hopen : s.resume.2.pendingToolCalls ≠ [] := by
      rw [Session.pendingToolCalls_resume h]
      exact fun hnone => hpending ((pendingRequests_eq_nil_iff h).mpr hnone)
    have hfit : s.canBegin = true := by
      simp [Session.canBegin, hopen]
    dsimp only
    split
    · rename_i hraised
      exact .cancelled hfit hpending hraised
    · rename_i hlow
      have hlow := Bool.eq_false_iff.mpr hlow
      rw [← hcalls]
      cases hexecute : a.execute (pendingRequests s.resume.2) (opening s c w) with | mk t₁ r₁
      cases r₁ with
      | never => exact .stuck hfit hpending hlow hexecute
      | failed e => exact .abandoned hfit hpending hlow hexecute
      | next _ => exact .resumed hfit hpending hlow hexecute

/-! ## From the start of a turn to its end -/

/-- A relation that holds along a turn: it can be put together of parts, and each
part of a turn keeps it. -/
structure Along (a : Agent σ) (R : Turn σ → Turn σ → Prop) : Prop where
  refl : ∀ t, R t t
  trans : ∀ {t t' t''}, R t t' → R t' t'' → R t t''
  fail : ∀ t e, R t (t.fail e).1
  complete : ∀ t text, R t (t.complete text).1
  reply : ∀ {t t' m text e}, Message.assistant text = .ok m → t.record [m] = (t', e) → R t t'
  query : ∀ {t t' r}, t.session.Quiet → t.clock.isRaised = false → a.query t = (t', r) → R t t'
  execute : ∀ {t t' calls r}, t.session.Waits (calls.map (·.callId)) →
    a.execute calls t = (t', r) → R t t'

namespace Along

variable {R : Turn σ → Turn σ → Prop}

theorem finish (h : Along a R) (t : Turn σ) (text : Option String) : R t (t.finish text).1 := by
  unfold Turn.finish
  cases text with
  | none => exact h.complete t ""
  | some text =>
    dsimp only
    split
    · exact h.fail t _
    · rename_i m hmessage
      split
      · rename_i t' e hrecord
        exact h.trans (h.reply hmessage hrecord) (h.fail t' _)
      · rename_i t' hrecord
        exact h.trans (h.reply hmessage hrecord) (h.complete t' text)

theorem exit (h : Along a R) {left : Nat} {e : Ended σ} (hquiet : t.session.Quiet)
    (hexit : Exit a left t e) : R t e.1 := by
  cases hexit with
  | cancelled raised => exact h.fail t _
  | exhausted low => exact h.fail t _
  | unanswered low queried => exact h.query hquiet low queried
  | @failed _ _ t₁ e low queried => exact h.trans (h.query hquiet low queried) (h.fail t₁ e)
  | @finished _ _ t₁ text low queried =>
    exact h.trans (h.query hquiet low queried) (h.finish t₁ text)
  | stuck low queried executed =>
    exact h.trans (h.query hquiet low queried)
      (h.execute (waits_of_query hquiet queried) executed)
  | @abandoned _ _ t₁ t₂ calls e low queried executed =>
    have hcycle := h.trans (h.query hquiet low queried)
      (h.execute (waits_of_query hquiet queried) executed)
    exact h.trans hcycle (h.fail t₂ e)

theorem loop (h : Along a R) {left : Nat} (hquiet : t.session.Quiet) :
    R t (a.loop left t).1 := by
  refine loop_rule (P := fun _ t' => R t t') (Q := fun e => R t e.1) ?_ ?_ hquiet (h.refl t)
  · intro left t' e hfirst hquiet hexit
    exact h.trans hfirst (h.exit hquiet hexit)
  · intro left t' t₁ calls t₂ hfirst hcycle
    have hasked := h.trans hfirst (h.query hcycle.quiet hcycle.low hcycle.queried)
    exact h.trans hasked (h.execute hcycle.waits hcycle.executed)

/-- What holds along a turn holds from its start to its end, if it does when the
turn is turned down. -/
theorem runTurn (h : Along a R) {s : Session} (hs : s.Reachable) (c : Clock) (w : σ)
    (hreject : R (opening s c w) (reject s.resume.1 (opening s c w)).1) :
    R (opening s c w) (a.runTurn s c w).1 := by
  have hbegun := runTurn_begun a hs c w
  generalize a.runTurn s c w = e at hbegun
  cases hbegun with
  | rejected unfit => exact hreject
  | cancelled fit pending raised => exact h.fail _ _
  | stuck fit pending low executed => exact h.execute (waits_pendingRequests hs pending) executed
  | @abandoned t₁ e fit pending low executed =>
    exact h.trans (h.execute (waits_pendingRequests hs pending) executed) (h.fail t₁ e)
  | resumed fit pending low executed =>
    have hwaits := waits_pendingRequests hs pending
    have hquiet := (execute_ran executed).quiet hwaits
    exact h.trans (h.execute hwaits executed) (h.loop hquiet)
  | asked fit none quiet => exact h.loop quiet

end Along

end Agent

end AgentLoop
