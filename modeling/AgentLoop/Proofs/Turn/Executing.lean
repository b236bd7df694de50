/-
AgentLoop.Proofs.Turn.Executing — what running a batch makes of a turn.

* `Occurrence.isToolWork`, `Turn.Works` — what running tools leaves in the
  trace
* `Agent.Executed`, `Agent.execute_cases` — all that running a batch can
  come to

The results of a batch are recorded in one group, or none of them is. In
either case nothing but the work of the tools occurs on the way.
-/
import AgentLoop.Proofs.Session.Pairing
import AgentLoop.Proofs.Tool.Batch
import AgentLoop.Proofs.Turn.Trace

namespace AgentLoop

/-- Whether an occurrence belongs to the running of tools. -/
def Occurrence.isToolWork : Occurrence → Bool
  | .published (.stateChanged _ .executingTools) => true
  | .published (.toolCallStarted ..) => true
  | .published (.toolCallFinished ..) => true
  | .started _ => true
  | .recorded _ => true
  | _ => false

namespace Turn

variable {σ : Type} {t t' : Turn σ}

/-- A stretch of a turn in which tools are run and nothing else occurs. -/
def Works (t t' : Turn σ) : Prop :=
  ∃ os, (∀ o ∈ os, o.isToolWork = true) ∧ t.Passes os t'

namespace Works

theorem refl (t : Turn σ) : t.Works t := ⟨[], by simp, .refl t⟩

theorem after (h : t.Works t') (clock : Clock) (world : σ) :
    t.Works (t'.after clock world) := by
  obtain ⟨os, hos, hpass⟩ := h
  exact ⟨os, hos, hpass.after clock world⟩

theorem note (h : t.Works t') {o : Occurrence} (ho : o.isToolWork = true) :
    t.Works (t'.note o) := by
  obtain ⟨os, hos, hpass⟩ := h
  refine ⟨os ++ [o], ?_, hpass.note o⟩
  intro x hx
  rcases List.mem_append.mp hx with hx | hx
  · exact hos x hx
  · rw [List.mem_singleton.mp hx]
    exact ho

/-- A list of events about tools is published. -/
theorem foldl_publish {β : Type} (event : SessionId → β → AgentEvent)
    (hevent : ∀ id b, (Occurrence.published (event id b)).isToolWork = true)
    (h : t.Works t') (bs : List β) :
    t.Works (bs.foldl (fun t b => t.publish (event t.session.id b)) t') := by
  induction bs generalizing t' with
  | nil => exact h
  | cons b rest ih => exact ih (h.note (hevent t'.session.id b))

end Works

end Turn

namespace Agent

variable {σ : Type} {a : Agent σ} {t t' : Turn σ}

theorem answers?_toMessage (results : List ToolCallResult) :
    (results.map ToolCallResult.toMessage).map Message.answers? =
      results.map fun r => some r.callId := by
  rw [List.map_map]
  rfl

theorem answered_toMessage (results : List ToolCallResult) :
    Log.answered (results.map ToolCallResult.toMessage) = results.map (·.callId) := by
  rw [Log.answered, List.filterMap_map]
  show results.filterMap (some ∘ fun r => r.callId) = _
  rw [List.filterMap_eq_map]

theorem isSome_answers?_toMessage (results : List ToolCallResult) :
    ∀ m ∈ results.map ToolCallResult.toMessage, m.answers?.isSome := by
  intro m hm
  obtain ⟨r, -, rfl⟩ := List.mem_map.mp hm
  rfl

/-- All that running a batch can come to. -/
inductive Executed (a : Agent σ) (calls : List ToolCallRequest) (t : Turn σ) :
    Turn σ → StepResult Unit → Prop
  | never {t' : Turn σ} (works : t.Works t')
      (stuck : ¬ a.tools.Ends a.settings.toolTimeoutMs) :
      Executed a calls t t' .never
  | cancelled {t' : Turn σ} (works : t.Works t') (stopped : t'.clock.isRaised = true) :
      Executed a calls t t' (.failed .cancelled)
  | refused {t' : Turn σ} (results : List ToolCallResult) (e : AppendError)
      (each : results.map (·.callId) = calls.map (·.callId))
      (works : t.Works t')
      (refused : t.session.appendAll (results.map ToolCallResult.toMessage) = .error e) :
      Executed a calls t (t'.note (.refused e)) (.failed e.toAgentError)
  | recorded {t' : Turn σ} {s : Session} (results : List ToolCallResult)
      (each : results.map (·.callId) = calls.map (·.callId))
      (works : t.Works t')
      (recorded : t.session.appendAll (results.map ToolCallResult.toMessage) = .ok s) :
      Executed a calls t
        (({ t' with session := s } : Turn σ).note
          (.recorded (results.map ToolCallResult.toMessage))) (.next ())

theorem execute_cases {calls : List ToolCallRequest} {r : StepResult Unit}
    (h : a.execute calls t = (t', r)) : Executed a calls t t' r := by
  unfold execute at h
  dsimp only at h
  have hstart : t.Works (calls.foldl (fun t call =>
      t.publish (.toolCallStarted t.session.id call.callId call.toolName))
      (t.enter .executingTools)) :=
    Turn.Works.foldl_publish
      (fun id (c : ToolCallRequest) => .toolCallStarted id c.callId c.toolName)
      (fun _ _ => rfl) ((Turn.Works.refl t).note rfl) calls
  generalize calls.foldl _ _ = t₁ at h hstart
  split at h
  · rename_i clock world runs hnever
    cases h
    refine .never ((hstart.after clock world).note rfl) fun hends => ?_
    exact Batch.follow_ne_never (fun call _ => a.tools.invoke_ends hends call) _ _ _ _ _ hnever
  · rename_i clock world runs hcut
    cases h
    exact .cancelled ((hstart.after clock world).note rfl) (Batch.follow_interrupted hcut)
  · rename_i clock world runs results hready
    have hids := Batch.follow_ready
      (fun _ _ _ _ => a.tools.callId_of_invoke) hready
    have hfinish : t.Works (results.foldl (fun t r =>
        t.publish (.toolCallFinished t.session.id r.callId r.status))
        ((t₁.after clock world).note (.started runs))) :=
      Turn.Works.foldl_publish
        (fun id (r : ToolCallResult) => .toolCallFinished id r.callId r.status)
        (fun _ _ => rfl) ((hstart.after clock world).note rfl) results
    generalize results.foldl _ _ = t₂ at h hfinish
    obtain ⟨os, hos, hpass⟩ := hfinish
    unfold Turn.record at h
    rw [hpass.session] at h
    cases happend : t.session.appendAll (results.map ToolCallResult.toMessage) with
    | error e =>
      rw [happend] at h
      cases h
      exact .refused results e hids ⟨os, hos, hpass⟩ happend
    | ok s =>
      rw [happend] at h
      cases h
      exact .recorded results hids ⟨os, hos, hpass⟩ happend

end Agent

end AgentLoop
