/-
AgentLoop.Proofs.Turn.Causes — what ends a turn.

* `Conclusion` — an answer, or the very error that ends the turn
* `Turn.conclude`, `Agent.conclusionFrom`, `Agent.conclusion` — the loop and the
  turn, up to the point where an error is put in words
* `loop_eq_closed`, `runTurn_eq_closed` — the loop and the turn end as they say
* `Turn.lastAnswer?` — what the backend answered last
* `Cause`, `conclusion_cause` — what each error goes back to: a failure of the
  backend is its last answer, or the loop's verdict on its last reply

An outcome tells the kind and the text of an error, from which the error cannot be
told: the flag of a failure that may be tried again is in neither. So the loop is
followed once more with the error in hand.
-/
import AgentLoop.Proofs.Turn.Loop

namespace AgentLoop

/-- An answer, or the error that ends a turn. -/
abbrev Conclusion := Except AgentError String

/-- What is told of it. -/
def TurnOutcome.ofConclusion : Conclusion → TurnOutcome
  | .ok text => .finalAnswer text
  | .error e => .ofError e

namespace Turn

variable {σ : Type}

/-- The turn is over; its answer, if it has one, goes to the session first. -/
def conclude (t : Turn σ) : Option String → Turn σ × Conclusion
  | none => (t, .ok "")
  | some text =>
    match Message.assistant text with
    | .error e => (t, .error e.toAgentError)
    | .ok m =>
      match t.record [m] with
      | (t, some e) => (t, .error e.toAgentError)
      | (t, none) => (t, .ok text)

/-- Session and events of a turn that is over. -/
def close (t : Turn σ) : Conclusion → Turn σ × TurnOutcome
  | .ok text => t.complete text
  | .error e => t.fail e

theorem finish_eq_close (t : Turn σ) (text : Option String) :
    t.finish text = (t.conclude text).1.close (t.conclude text).2 := by
  unfold finish conclude
  cases text with
  | none => rfl
  | some text =>
    dsimp only
    cases hmessage : Message.assistant text with
    | error e => rfl
    | ok m =>
      dsimp only
      cases hrecord : t.record [m] with | mk t₁ r₁
      cases r₁ <;> rfl

/-- What the backend answered in a stretch of a trace. -/
def answersIn (os : List Occurrence) : List ProviderResult :=
  os.filterMap fun
    | .answered r => some r
    | _ => none

/-- What the backend answered last. -/
def lastAnswer? (t : Turn σ) : Option ProviderResult := (answersIn t.trace).getLast?

theorem answersIn_append (os os' : List Occurrence) :
    answersIn (os ++ os') = answersIn os ++ answersIn os' :=
  List.filterMap_append

theorem answersIn_eq_nil {os : List Occurrence} (h : ∀ o ∈ os, o.isDialogue = false) :
    answersIn os = [] := by
  rw [answersIn, List.filterMap_eq_nil_iff]
  intro o ho
  have hother := h o ho
  cases o with
  | answered r => cases hother
  | _ => rfl

/-- A decided question is answered, and nothing behind it is an answer. -/
theorem lastAnswer_of_question {t t' : Turn σ} {q : Inquiry} {id : SessionId}
    {specs : List ToolSpec} {os : List Occurrence}
    (htrace : t'.trace = t.trace ++ q.occurrences id specs ++ os)
    (hos : ∀ o ∈ os, o.isDialogue = false) : t'.lastAnswer? = some q.answer := by
  have hanswer : answersIn [.asked q.view specs, .answered q.answer] = [q.answer] := rfl
  have hquestion : q.occurrences id specs =
      (.published (.stateChanged id .querying) :: retrySteps id q.view specs 0 q.retried) ++
        [.asked q.view specs, .answered q.answer] := rfl
  rw [lastAnswer?, htrace, hquestion, answersIn_append, answersIn_append, answersIn_append,
    answersIn_eq_nil hos, hanswer, List.append_nil, ← List.append_assoc, List.getLast?_concat]

end Turn

namespace Agent

variable {σ : Type} {a : Agent σ} {t t' : Turn σ}

/-! ## The loop up to its end -/

/-- The end of a turn from its conclusion, unless it never ends. -/
def closed : Turn σ × Option Conclusion → Ended σ
  | (t, none) => (t, none)
  | (t, some c) => ended (t.close c)

/-- The loop with so many questions left, up to its end. -/
def conclusionFrom (a : Agent σ) : (left : Nat) → Turn σ → Turn σ × Option Conclusion
  | left, t =>
    if t.clock.isRaised then (t, some (.error .cancelled))
    else match left with
      | 0 => (t, some (.error (.iterationLimitExceeded a.settings.maxIterations)))
      | left + 1 =>
        match a.query t with
        | (t, .never) => (t, none)
        | (t, .failed e) => (t, some (.error e))
        | (t, .next (.finish text)) => ((t.conclude text).1, some (t.conclude text).2)
        | (t, .next (.execute calls)) =>
          match a.execute calls t with
          | (t, .never) => (t, none)
          | (t, .failed e) => (t, some (.error e))
          | (t, .next _) => conclusionFrom a left t

/-- A turn up to its end. -/
def conclusion (a : Agent σ) (s : Session) (c : Clock) (w : σ) : Turn σ × Option Conclusion :=
  let t := opening s c w
  match pendingRequests t.session with
  | [] =>
    if t.session.awaitsReply then a.conclusionFrom a.settings.maxIterations t
    else (t, some (.error (noUserMessage t.session)))
  | calls =>
    if t.clock.isRaised then (t, some (.error .cancelled))
    else match a.execute calls t with
      | (t, .never) => (t, none)
      | (t, .failed e) => (t, some (.error e))
      | (t, .next _) => a.conclusionFrom a.settings.maxIterations t

theorem loop_eq_closed (a : Agent σ) (left : Nat) (t : Turn σ) :
    a.loop left t = closed (a.conclusionFrom left t) := by
  induction left generalizing t with
  | zero =>
    rw [loop, conclusionFrom]
    split <;> rfl
  | succ left ih =>
    rw [loop, conclusionFrom]
    split
    · rfl
    · cases hquery : a.query t with | mk t₁ r₁
      cases r₁ with
      | never => rfl
      | failed e => rfl
      | next verdict =>
        cases verdict with
        | finish text => exact congrArg ended (t₁.finish_eq_close text)
        | execute calls =>
          dsimp only
          cases hexecute : a.execute calls t₁ with | mk t₂ r₂
          cases r₂ with
          | never => rfl
          | failed e => rfl
          | next _ => exact ih t₂

/-- A turn that can begin and finds nothing pending finds the user waiting. -/
theorem awaitsReply_of_none {s : Session} {c : Clock} {w : σ} (hs : s.Reachable)
    (hfit : s.canBegin = true) (hnone : pendingRequests (opening s c w).session = []) :
    (opening s c w).session.awaitsReply = true := by
  rw [session_opening] at hnone ⊢
  have hclosed : s.resume.2.pendingToolCalls = [] := by
    rw [Session.pendingToolCalls_resume hs]
    exact (pendingRequests_eq_nil_iff hs).mp hnone
  simpa [Session.canBegin, hclosed] using hfit

theorem snd_closed (r : Turn σ × Option Conclusion) :
    (closed r).2 = r.2.map TurnOutcome.ofConclusion := by
  obtain ⟨t, c⟩ := r
  cases c with
  | none => rfl
  | some c => cases c <;> rfl

/-- A turn that can begin ends as its conclusion says. -/
theorem runTurn_eq_closed (a : Agent σ) {s : Session} (hs : s.Reachable) (hfit : s.canBegin = true)
    (c : Clock) (w : σ) : a.runTurn s c w = closed (a.conclusion s c w) := by
  unfold runTurn conclusion
  dsimp only
  cases hcalls : pendingRequests (opening s c w).session with
  | nil =>
    dsimp only
    have hawaits := awaitsReply_of_none hs hfit hcalls
    rw [if_pos hawaits, if_pos hawaits]
    exact a.loop_eq_closed _ _
  | cons call rest =>
    dsimp only
    split
    · rfl
    · cases hexecute : a.execute (call :: rest) (opening s c w) with | mk t₁ r₁
      cases r₁ with
      | never => rfl
      | failed e => rfl
      | next _ => exact a.loop_eq_closed _ t₁

/-! ## Causes -/

/-- What an error that ends the loop goes back to: the backend failed, or its reply
makes no sense, the questions are used up, the signal is raised, or the session
refused a group of messages. -/
inductive Cause (a : Agent σ) (t : Turn σ) : AgentError → Prop
  | failure (e : ProviderError) (last : t.lastAnswer? = some (.error e)) :
      Cause a t (.provider e)
  | reply (reply : ProviderReply) (reason : String) (last : t.lastAnswer? = some (.ok reply)) :
      Cause a t (.provider (.malformed reason))
  | limit : Cause a t (.iterationLimitExceeded a.settings.maxIterations)
  | cancelled (raised : t.clock.isRaised = true) : Cause a t .cancelled
  | refused (e : AppendError) (mem : .refused e ∈ t.trace) : Cause a t e.toAgentError

theorem Queried.cause {e : AgentError} (h : Queried a t t' (.failed e)) : Cause a t' e := by
  cases h with
  | cancelled es os short stopped passes => exact .cancelled stopped
  | @settled t₁ _ _ q os view within passes settled =>
    have hlast : ∀ os, (∀ o ∈ os, o.isDialogue = false) → t'.trace = t₁.trace ++ os →
        t'.lastAnswer? = some q.answer := by
      intro os hos htrace
      rw [passes.trace] at htrace
      exact Turn.lastAnswer_of_question htrace hos
    generalize q.answer = answer at settled hlast
    cases settled with
    | failure e => exact .failure e (hlast [] (by simp) (by simp))
    | blank text u unsaid => exact .reply _ _ (hlast [] (by simp) (by simp))
    | empty u => exact .reply _ _ (hlast [] (by simp) (by simp))
    | cancelled done u nonempty stopped => exact .cancelled (by simpa using stopped)
    | unnamed done u e unnamed assigns passes' =>
      refine .reply _ _ (hlast os (fun o ho => ?_) (by rw [passes'.trace, Turn.trace_count]))
      exact Occurrence.not_dialogue_of_assignment (assigns o ho)
    | refused done u e nonempty assigns prepared refused passes' =>
      refine .refused e ?_
      rw [passes'.trace]
      simp

theorem Executed.cause {calls : List ToolCallRequest} {e : AgentError}
    (h : Executed a calls t t' (.failed e)) : Cause a t' e := by
  cases h with
  | cancelled works stopped => exact .cancelled stopped
  | refused results e each works refused => exact .refused e (by simp)

theorem conclude_cause {text : Option String} {e : AgentError}
    (said : ∀ answer, text = some answer → Text.isBlank answer = false)
    (h : t.conclude text = (t', .error e)) : Cause a t' e := by
  cases text with
  | none => cases h
  | some answer =>
    have hsaid := said answer rfl
    have hmessage : Message.assistant answer = .ok (.assistantText ⟨answer, hsaid⟩) :=
      NonBlank.map_ofText Message.assistantText hsaid
    simp only [Turn.conclude, hmessage, Turn.record] at h
    cases happend : t.session.appendAll [.assistantText ⟨answer, hsaid⟩] with
    | error refused =>
      rw [happend] at h
      cases h
      exact .refused refused (by simp)
    | ok s =>
      rw [happend] at h
      cases h

/-- What an error that ends the loop goes back to. -/
theorem conclusionFrom_cause {left : Nat} {e : AgentError}
    (h : a.conclusionFrom left t = (t', some (.error e))) : Cause a t' e := by
  induction left generalizing t with
  | zero =>
    rw [conclusionFrom] at h
    split at h
    · rename_i hraised
      cases h
      exact .cancelled hraised
    · cases h
      exact .limit
  | succ left ih =>
    rw [conclusionFrom] at h
    split at h
    · rename_i hraised
      cases h
      exact .cancelled hraised
    · cases hquery : a.query t with | mk t₁ r₁
      rw [hquery] at h
      have hqueried := query_cases hquery
      cases r₁ with
      | never => cases h
      | failed e =>
        cases h
        exact hqueried.cause
      | next verdict =>
        cases verdict with
        | finish text =>
          obtain ⟨q, hfinished⟩ := hqueried.finished
          dsimp only at h
          obtain ⟨hturn, hcause⟩ := Prod.mk.inj h
          refine conclude_cause (fun answer htext => ?_) (Prod.ext hturn (Option.some.inj hcause))
          subst htext
          exact hfinished.said
        | execute calls =>
          dsimp only at h
          cases hexecute : a.execute calls t₁ with | mk t₂ r₂
          rw [hexecute] at h
          cases r₂ with
          | never => cases h
          | failed e =>
            cases h
            exact (execute_cases hexecute).cause
          | next _ => exact ih h

/-- So with an error that ends a turn. -/
theorem conclusion_cause {s : Session} {c : Clock} {w : σ} {e : AgentError} (hs : s.Reachable)
    (hfit : s.canBegin = true) (h : a.conclusion s c w = (t', some (.error e))) :
    Cause a t' e := by
  unfold conclusion at h
  dsimp only at h
  cases hcalls : pendingRequests (opening s c w).session with
  | nil =>
    rw [hcalls] at h
    dsimp only at h
    rw [if_pos (awaitsReply_of_none hs hfit hcalls)] at h
    exact conclusionFrom_cause h
  | cons call rest =>
    rw [hcalls] at h
    dsimp only at h
    split at h
    · rename_i hraised
      cases h
      exact .cancelled hraised
    · cases hexecute : a.execute (call :: rest) (opening s c w) with | mk t₁ r₁
      rw [hexecute] at h
      cases r₁ with
      | never => cases h
      | failed e =>
        cases h
        exact (execute_cases hexecute).cause
      | next _ => exact conclusionFrom_cause h

/-- Telling that the turn is over does not touch what ended it. -/
theorem Cause.fail {e : AgentError} (h : Cause a t e) : Cause a (t.fail e).1 e := by
  have hlast : (t.fail e).1.lastAnswer? = t.lastAnswer? := by
    rw [Turn.lastAnswer?, Turn.trace_fail, Turn.answersIn_append]
    exact congrArg List.getLast? (List.append_nil _)
  cases h with
  | failure e last => exact .failure e (hlast.trans last)
  | reply reply reason last => exact .reply reply reason (hlast.trans last)
  | limit => exact .limit
  | cancelled raised => exact .cancelled raised
  | refused e mem => exact .refused e (by simp [mem])

end Agent

end AgentLoop
