/-
AgentLoop.Proofs.Session.Groups — messages appended in one group or in
several.

* `Session.appendGroups` — groups of messages one after the other, up to the
  first that is refused
* `Session.appendEach` — messages one by one, up to the first that is refused
* `CallLedger.acceptAll_append` — a ledger takes two groups in as it takes in
  both together
* `appendGroups_cases` — how messages are grouped makes no difference to
  whether and why they are refused, and of what they leave only to the status
* `status_of_appendEach` — the status behind messages that come one by one
* `appendAll_iff_appendEach` — a group against its messages one by one

A group is tried on one copy of the ledger, with the position of each message
worked out beforehand; one by one, each message finds the ledger and the log
that the one before it left. The status is derived once for a group, from the
ledger at its end: a session that is through with its turn does not notice
calls that their own group answers.
-/
import AgentLoop.Proofs.Session.Pending

namespace AgentLoop

theorem CallLedger.acceptAll_append (l : CallLedger) (position : Nat) (ms ms' : List Message) :
    l.acceptAll position (ms ++ ms') =
      match l.acceptAll position ms with
      | .error e => .error e
      | .ok l' => l'.acceptAll (position + ms.length) ms' := by
  induction ms generalizing l position with
  | nil => rfl
  | cons m rest ih =>
    rw [List.cons_append, acceptAll, acceptAll]
    cases l.accept position m with
    | error e => rfl
    | ok next =>
      have hposition : position + 1 + rest.length = position + (m :: rest).length := by
        rw [List.length_cons]
        omega
      simp only [ih, hposition]

namespace Session

variable {s s' : Session} {m : Message} {ms : List Message} {groups : List (List Message)}
  {e : AppendError}

/-- Appends groups of messages one after the other, up to the first that is
refused. -/
def appendGroups (s : Session) : List (List Message) → Except AppendError Session
  | [] => .ok s
  | ms :: rest =>
    match s.appendAll ms with
    | .error e => .error e
    | .ok s => s.appendGroups rest

/-- Appends messages one by one, up to the first that is refused. -/
def appendEach (s : Session) : List Message → Except AppendError Session
  | [] => .ok s
  | m :: rest =>
    match s.append m with
    | .error e => .error e
    | .ok s => s.appendEach rest

/-! ## How messages are grouped -/

theorem appendAll_cases (hlive : s.status ≠ .failed) (ms : List Message) :
    s.appendAll ms =
      match s.ledger.acceptAll s.history.length ms with
      | .error e => .error e
      | .ok ledger => .ok (s.extended ms ledger) := by
  rw [appendAll, if_neg hlive]
  rfl

theorem statusAfter_live (hlive : s.status ≠ .failed) (newTurns pending : Nat) :
    s.statusAfter newTurns pending ≠ .failed := by
  unfold statusAfter
  split
  · simp
  · split
    · simp
    · exact hlive

theorem live_of_appendAll (hlive : s.status ≠ .failed) (ok : s.appendAll ms = .ok s') :
    s'.status ≠ .failed := by
  rw [status_of_appendAll ok]
  exact statusAfter_live hlive _ _

/-- Groups are refused as their messages together are, and leave what these
leave, but for the status. -/
theorem appendGroups_cases (hlive : s.status ≠ .failed) (groups : List (List Message)) :
    match s.ledger.acceptAll s.history.length groups.flatten with
    | .error e => s.appendGroups groups = .error e
    | .ok ledger => ∃ status,
        s.appendGroups groups = .ok { s.extended groups.flatten ledger with status := status } := by
  induction groups generalizing s with
  | nil => exact ⟨s.status, by simp [appendGroups, extended]⟩
  | cons ms rest ih =>
    rw [List.flatten_cons, CallLedger.acceptAll_append, appendGroups, appendAll_cases hlive]
    cases s.ledger.acceptAll s.history.length ms with
    | error e => rfl
    | ok ledger =>
      have hrest := ih (s := s.extended ms ledger) (statusAfter_live hlive _ _)
      have hlength : (s.extended ms ledger).history.length = s.history.length + ms.length :=
        List.length_append
      rw [hlength] at hrest
      simp only [extended] at hrest ⊢
      cases hledger : ledger.acceptAll (s.history.length + ms.length) rest.flatten with
      | error e =>
        rw [hledger] at hrest
        exact hrest
      | ok ledger' =>
        rw [hledger] at hrest
        simpa [List.append_assoc, List.countP_append, Nat.add_assoc] using hrest

/-- Groups are appended to a session that has not failed exactly if its log may
go on with their messages. -/
theorem appendGroups_isOk_iff (h : s.Consistent) (hlive : s.status ≠ .failed) :
    (∃ s', s.appendGroups groups = .ok s') ↔ Log.Continues s.history groups.flatten := by
  rw [← CallLedger.acceptAll_ok_iff h.ledger]
  have hcases := appendGroups_cases hlive groups
  cases hledger : s.ledger.acceptAll s.history.length groups.flatten with
  | error e =>
    rw [hledger] at hcases
    simp [hcases]
  | ok ledger =>
    rw [hledger] at hcases
    obtain ⟨status, hok⟩ := hcases
    simp [hok]

theorem history_of_appendGroups (hlive : s.status ≠ .failed)
    (ok : s.appendGroups groups = .ok s') : s'.history = s.history ++ groups.flatten := by
  have hcases := appendGroups_cases hlive groups
  cases hledger : s.ledger.acceptAll s.history.length groups.flatten with
  | error e =>
    rw [hledger, ok] at hcases
    cases hcases
  | ok ledger =>
    rw [hledger, ok] at hcases
    obtain ⟨status, hok⟩ := hcases
    rw [Except.ok.injEq] at hok
    rw [hok]
    rfl

theorem Reachable.appendGroups (h : s.Reachable) (ok : s.appendGroups groups = .ok s') :
    s'.Reachable := by
  induction groups generalizing s with
  | nil =>
    cases ok
    exact h
  | cons ms rest ih =>
    rw [Session.appendGroups] at ok
    split at ok
    · cases ok
    · rename_i s₁ hfirst
      exact ih (h.appendAll hfirst) ok

/-! ## Messages one by one -/

theorem appendEach_eq_appendGroups (s : Session) (ms : List Message) :
    s.appendEach ms = s.appendGroups (ms.map fun m => [m]) := by
  induction ms generalizing s with
  | nil => rfl
  | cons m rest ih =>
    rw [appendEach, List.map_cons, appendGroups, append]
    cases s.appendAll [m] with
    | error e => rfl
    | ok s₁ => exact ih s₁

/-- Messages one by one come to the first one that is refused, behind those
that were appended. -/
theorem appendEach_error_iff : s.appendEach ms = .error e ↔
    ∃ before m after s₁, ms = before ++ m :: after ∧ s.appendEach before = .ok s₁ ∧
      s₁.append m = .error e := by
  constructor
  · intro herror
    induction ms generalizing s with
    | nil => cases herror
    | cons m rest ih =>
      rw [appendEach] at herror
      cases hfirst : s.append m with
      | error e' =>
        rw [hfirst] at herror
        cases herror
        exact ⟨[], m, rest, s, rfl, rfl, hfirst⟩
      | ok s₁ =>
        rw [hfirst] at herror
        obtain ⟨before, m', after, s₂, rfl, hbefore, hrefused⟩ := ih herror
        refine ⟨m :: before, m', after, s₂, rfl, ?_, hrefused⟩
        rw [appendEach, hfirst]
        exact hbefore
  · rintro ⟨before, m, after, s₁, rfl, hbefore, hrefused⟩
    induction before generalizing s with
    | nil =>
      cases hbefore
      rw [List.nil_append, appendEach, hrefused]
    | cons m' before ih =>
      rw [appendEach] at hbefore
      rw [List.cons_append, appendEach]
      cases hfirst : s.append m' with
      | error e' =>
        rw [hfirst] at hbefore
        cases hbefore
      | ok s₂ =>
        rw [hfirst] at hbefore
        exact ih hbefore

/-- Whether a message makes a session that is through with its turn active
again: a text of the user does, and a call. -/
def rouses (m : Message) : Bool := m.isUserText || m.issues?.isSome

/-- A call is pending behind its append. Behind any other message a call is
pending only if the session waited for tools. -/
theorem pending_of_append (h : s.Consistent) (hlive : s.status ≠ .failed)
    (ok : s.append m = .ok s') :
    (m.issues?.isSome = true → 0 < s'.pending) ∧
      (0 < s'.pending → m.issues?.isSome = true ∨ s.status = .awaitingTool) := by
  obtain ⟨-, ledger, hledger, rfl⟩ := appendAll_ok_iff.mp ok
  have haccept : s.ledger.accept s.history.length m = .ok ledger := by
    rw [CallLedger.acceptAll] at hledger
    split at hledger
    · cases hledger
    · cases hledger
      assumption
  have hwaits : 0 < s.pending → s.status = .awaitingTool := fun hpending =>
    status_of_open h hlive fun hnone => by
      have := (pending_eq_zero_iff h).mpr hnone
      omega
  rcases CallLedger.accept_cases haccept with ⟨id, hissues, -, rfl⟩ |
    ⟨id, slot, hanswers, -, -, rfl⟩ | ⟨hissues, -, hzero, rfl⟩
  · exact ⟨fun _ => Nat.succ_pos _, fun _ => Or.inl (by rw [hissues]; rfl)⟩
  · refine ⟨fun hcall => ?_, fun hpending => Or.inr (hwaits ?_)⟩
    · rw [Message.issues?_of_answers? hanswers] at hcall
      cases hcall
    · have hless : 0 < s.ledger.pending - 1 := hpending
      show 0 < s.ledger.pending
      omega
  · refine ⟨fun hcall => ?_, fun hpending => Or.inr (hwaits hpending)⟩
    rw [hissues] at hcall
    cases hcall

/-- One by one, a call has the effect on the status that a text of the user
has. -/
theorem status_of_appendEach (h : s.Reachable) (hlive : s.status ≠ .failed)
    (ok : s.appendEach ms = .ok s') :
    s'.status = s.statusAfter (ms.countP rouses) s'.pending := by
  induction ms generalizing s with
  | nil =>
    obtain rfl := Except.ok.inj ok
    have hwaits := h.consistent.awaiting
    have hquiet := h.consistent.quiet
    unfold statusAfter
    cases hstatus : s.status <;> simp_all
  | cons m rest ih =>
    rw [appendEach] at ok
    cases hfirst : s.append m with
    | error e =>
      rw [hfirst] at ok
      cases ok
    | ok s₁ =>
      rw [hfirst] at ok
      obtain ⟨hcall, hopen⟩ := pending_of_append h.consistent hlive hfirst
      have hstatus : s₁.status = s.statusAfter ([m].countP Message.isUserText) s₁.pending :=
        status_of_appendAll hfirst
      rw [ih (h.appendAll hfirst) (live_of_appendAll hlive hfirst) ok]
      by_cases hpending : 0 < s₁.pending
      · have hwaiting : s₁.status = .awaitingTool := by rw [hstatus, statusAfter, if_pos hpending]
        rcases hopen hpending with hissues | hwas
        · simp [statusAfter, hwaiting, rouses, hissues]
        · simp [statusAfter, hwaiting, hwas]
      · have hnocall : m.issues?.isSome = false :=
          Bool.eq_false_iff.mpr fun hissues => hpending (hcall hissues)
        have hrouses : rouses m = m.isUserText := by rw [rouses, hnocall, Bool.or_false]
        rw [statusAfter, if_neg hpending] at hstatus
        cases huser : m.isUserText with
        | true => simp_all [statusAfter]
        | false => by_cases hwas : s.status = .awaitingTool <;> simp_all [statusAfter]

/-! ## A group against its messages -/

/-- Messages one by one are refused as their group is, and leave what it
leaves, but for the status. -/
theorem appendEach_cases (hlive : s.status ≠ .failed) (ms : List Message) :
    match s.ledger.acceptAll s.history.length ms with
    | .error e => s.appendEach ms = .error e
    | .ok ledger =>
      ∃ status, s.appendEach ms = .ok { s.extended ms ledger with status := status } := by
  have hflatten : (ms.map fun m => [m]).flatten = ms := by
    rw [← List.flatMap_def, List.flatMap_singleton']
  have hcases := appendGroups_cases hlive (ms.map fun m => [m])
  rwa [hflatten, ← appendEach_eq_appendGroups] at hcases

theorem appendAll_error_iff (hne : ms ≠ []) :
    s.appendAll ms = .error e ↔ s.appendEach ms = .error e := by
  by_cases hfailed : s.status = .failed
  · obtain ⟨m, rest, rfl⟩ := List.exists_cons_of_ne_nil hne
    simp [appendEach, append, appendAll, hfailed]
  · have hcases := appendEach_cases hfailed ms
    rw [appendAll_cases hfailed]
    cases hledger : s.ledger.acceptAll s.history.length ms with
    | error e' =>
      rw [hledger] at hcases
      simp [hcases]
    | ok ledger =>
      rw [hledger] at hcases
      obtain ⟨status, hok⟩ := hcases
      simp [hok]

/-- More turns make another status only of a session that is through with its
turn, where they are the first, and only while nothing is pending. -/
theorem statusAfter_ne_iff (hlive : s.status ≠ .failed) {few many pending : Nat}
    (hle : few ≤ many) :
    s.statusAfter few pending ≠ s.statusAfter many pending ↔
      s.status = .completed ∧ few = 0 ∧ 0 < many ∧ pending = 0 := by
  unfold statusAfter
  by_cases hpending : 0 < pending
  · simp only [hpending, if_true, ne_eq, not_true_eq_false, false_iff]
    omega
  · by_cases hfew : 0 < few
    · have hmany : 0 < many := by omega
      simp [hpending, hfew, hmany, Nat.ne_of_gt hfew]
    · cases hstatus : s.status <;> simp_all [Nat.pos_iff_ne_zero]

/-- A group is appended exactly if its messages are one by one, and refused for
the very reason for which the first of them is refused. Both ways leave the
same session, but for one difference in the status: one that is through with
its turn stays so behind a group with calls and all their results that has no
text of the user, and is active when these come one by one. -/
theorem appendAll_iff_appendEach {s : Session} (h : s.Reachable) {ms : List Message}
    (hne : ms ≠ []) :
    ((∃ all, s.appendAll ms = .ok all) ↔ ∃ each, s.appendEach ms = .ok each) ∧
      (∀ e, s.appendAll ms = .error e ↔ ∃ before m after s₁, ms = before ++ m :: after ∧
        s.appendEach before = .ok s₁ ∧ s₁.append m = .error e) ∧
      ∀ all each, s.appendAll ms = .ok all → s.appendEach ms = .ok each →
        each = { all with status := each.status } ∧
        (all.status ≠ each.status ↔ s.status = .completed ∧
          (∃ m ∈ ms, m.issues?.isSome = true) ∧ (∀ m ∈ ms, m.isUserText = false) ∧
          all.pending = 0) ∧
        (all.status ≠ each.status → all.status = .completed ∧ each.status = .active) := by
  refine ⟨?_, fun e => (appendAll_error_iff hne).trans appendEach_error_iff, ?_⟩
  · have herror := fun e => appendAll_error_iff (s := s) (e := e) hne
    cases hall : s.appendAll ms <;> cases heach : s.appendEach ms <;> simp_all
  · intro all each hall heach
    have hlive := (appendAll_ok_iff.mp hall).1
    have hsame : each = { all with status := each.status } := by
      have hcases := appendEach_cases hlive ms
      rw [appendAll_cases hlive] at hall
      cases hledger : s.ledger.acceptAll s.history.length ms with
      | error e =>
        rw [hledger] at hall
        cases hall
      | ok ledger =>
        rw [hledger] at hall hcases
        obtain ⟨status, hok⟩ := hcases
        rw [heach, Except.ok.injEq] at hok
        rw [← Except.ok.inj hall, hok]
    have hpending : each.pending = all.pending := by rw [hsame]; rfl
    have hall_status := status_of_appendAll hall
    have heach_status := status_of_appendEach h hlive heach
    rw [hpending] at heach_status
    have hle : ms.countP Message.isUserText ≤ ms.countP rouses :=
      List.countP_mono_left fun m _ huser => by simp [rouses, huser]
    have hdiffer := @statusAfter_ne_iff s hlive _ _ all.pending hle
    rw [← hall_status, ← heach_status, List.countP_eq_zero, List.countP_pos_iff] at hdiffer
    refine ⟨hsame, hdiffer.trans ?_, fun hother => ?_⟩
    · constructor
      · rintro ⟨hwas, hnone, ⟨m, hm, hroused⟩, hzero⟩
        have hsilent : ∀ m ∈ ms, m.isUserText = false := fun m hm =>
          Bool.eq_false_iff.mpr (hnone m hm)
        rw [rouses, hsilent m hm, Bool.false_or] at hroused
        exact ⟨hwas, ⟨m, hm, hroused⟩, hsilent, hzero⟩
      · rintro ⟨hwas, ⟨m, hm, hcall⟩, hsilent, hzero⟩
        refine ⟨hwas, fun m hm => by simp [hsilent m hm], ⟨m, hm, ?_⟩, hzero⟩
        rw [rouses, hcall, Bool.or_true]
    · obtain ⟨hwas, hnone, hroused, hzero⟩ := hdiffer.mp hother
      rw [← List.countP_eq_zero] at hnone
      rw [← List.countP_pos_iff] at hroused
      rw [hall_status, heach_status]
      simp [statusAfter, hwas, hnone, hroused, hzero]

/-- Two groups for a session with an answer. The first one calls a tool and has
the result with it; in the second one a text of the user comes too early. -/
theorem groups_behind_an_answer :
    let s := (new ⟨"s"⟩).performAll
      [.append (.userText ⟨"go", by decide⟩), .append (.assistantText ⟨"done", by decide⟩),
       .markCompleted]
    let call : Message := .toolCall (.numbered 1) ⟨"look", by decide⟩ .null
    let answered : List Message := [call, .toolResult (.numbered 1) .ok .null]
    let early : List Message := [call, .userText ⟨"next", by decide⟩]
    s.Reachable ∧ answered ≠ [] ∧ early ≠ [] ∧
      (∃ all each, s.appendAll answered = .ok all ∧ s.appendEach answered = .ok each ∧
        each = { all with status := each.status } ∧
        all.status = .completed ∧ each.status = .active) ∧
      ∃ before m after s₁, early = before ++ m :: after ∧ s.appendEach before = .ok s₁ ∧
        s₁.append m = .error (.callsOpen .user 1) := by
  intro s call answered early
  have hs : s.Reachable := (Reachable.new ⟨"s"⟩).performAll _
  have hanswered : answered ≠ [] := List.cons_ne_nil _ _
  have hearly : early ≠ [] := List.cons_ne_nil _ _
  refine ⟨hs, hanswered, hearly, ?_, ?_⟩
  · obtain ⟨hiff, -, hok⟩ := appendAll_iff_appendEach hs hanswered
    have hzero : (s.appendAll answered).toOption.map pending = some 0 := by decide +kernel
    cases hall : s.appendAll answered with
    | error e =>
      rw [hall] at hzero
      cases hzero
    | ok all =>
      rw [hall] at hzero
      obtain ⟨each, heach⟩ := hiff.mp ⟨all, hall⟩
      obtain ⟨hsame, hdiffer, hthen⟩ := hok all each hall heach
      have hother : all.status ≠ each.status :=
        hdiffer.mpr ⟨by decide +kernel, ⟨call, List.mem_cons_self, rfl⟩, by decide +kernel,
          Option.some.inj hzero⟩
      exact ⟨all, each, rfl, heach, hsame, hthen hother⟩
  · obtain ⟨-, herror, -⟩ := appendAll_iff_appendEach hs hearly
    refine (herror _).mp ?_
    have hrefused : (match s.appendAll early with
        | .error e => some e
        | .ok _ => none) = some (.callsOpen .user 1) := by
      decide +kernel
    cases happend : s.appendAll early with
    | ok s' =>
      rw [happend] at hrefused
      cases hrefused
    | error e =>
      rw [happend] at hrefused
      rw [Option.some.inj hrefused]

end Session

end AgentLoop
