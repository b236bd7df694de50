/-
AgentLoop.Proofs.Session.Ledger — the ledger of a session against its log.

* `issuedAt?`, `answeredAt?` — the identifier that a position of a log
  issues or answers
* `CallLedger.Matches` — what the ledger says of every position of the log
* `CallLedger.acceptAll_matches` — taking messages in keeps the two in
  step
* `CallLedger.acceptAll_ok_iff` — the messages that a ledger takes in are
  exactly those that its log may go on with

The index keeps positions, and the counter is kept beside it; neither can
be read off the other. `Matches` therefore carries all of it at once:
the counter only goes down for a slot that was open, which holds because
the identifiers of the slots differ.
-/
import AgentLoop.Session.Calls
import AgentLoop.Proofs.Session.Pairing

namespace AgentLoop

namespace Log

/-! ## Positions -/

/-- The identifier that the call at a position issues. -/
def issuedAt? (log : List Message) (i : Nat) : Option CallId :=
  log[i]?.bind Message.issues?

/-- The identifier that the result at a position answers. -/
def answeredAt? (log : List Message) (i : Nat) : Option CallId :=
  log[i]?.bind Message.answers?

theorem mem_filterMap_iff_at {β : Type} {log : List Message}
    {f : Message → Option β} {b : β} :
    b ∈ log.filterMap f ↔ ∃ i : Nat, log[i]?.bind f = some b := by
  simp only [List.mem_filterMap, Option.bind_eq_some_iff]
  constructor
  · rintro ⟨m, hm, hf⟩
    obtain ⟨i, hi⟩ := List.mem_iff_getElem?.mp hm
    exact ⟨i, m, hi, hf⟩
  · rintro ⟨i, m, hi, hf⟩
    exact ⟨m, List.mem_of_getElem? hi, hf⟩

theorem mem_issued_iff_at {log : List Message} {id : CallId} :
    id ∈ issued log ↔ ∃ i, issuedAt? log i = some id :=
  mem_filterMap_iff_at

theorem mem_answered_iff_at {log : List Message} {id : CallId} :
    id ∈ answered log ↔ ∃ i, answeredAt? log i = some id :=
  mem_filterMap_iff_at

theorem bind_getElem?_append_singleton {β : Type} (log : List Message)
    (m : Message) (f : Message → Option β) (i : Nat) :
    (log ++ [m])[i]?.bind f = if i = log.length then f m else log[i]?.bind f := by
  by_cases h : i = log.length
  · simp [h]
  · by_cases hlt : i < log.length
    · simp [h, List.getElem?_append_left hlt]
    · have hout : (log ++ [m])[i]? = none :=
        List.getElem?_eq_none (by simp; omega)
      have hlog : log[i]? = none := List.getElem?_eq_none (by omega)
      simp [h, hout, hlog]

theorem issuedAt?_append_singleton (log : List Message) (m : Message) (i : Nat) :
    issuedAt? (log ++ [m]) i =
      if i = log.length then m.issues? else issuedAt? log i :=
  bind_getElem?_append_singleton log m _ i

theorem answeredAt?_append_singleton (log : List Message) (m : Message)
    (i : Nat) :
    answeredAt? (log ++ [m]) i =
      if i = log.length then m.answers? else answeredAt? log i :=
  bind_getElem?_append_singleton log m _ i

theorem lt_of_issuedAt? {log : List Message} {i : Nat} {id : CallId}
    (h : issuedAt? log i = some id) : i < log.length := by
  obtain ⟨m, hm, -⟩ := Option.bind_eq_some_iff.mp h
  exact (List.getElem?_eq_some_iff.mp hm).1

theorem lt_of_answeredAt? {log : List Message} {i : Nat} {id : CallId}
    (h : answeredAt? log i = some id) : i < log.length := by
  obtain ⟨m, hm, -⟩ := Option.bind_eq_some_iff.mp h
  exact (List.getElem?_eq_some_iff.mp hm).1

theorem issuedAt?_append {log : List Message} {i : Nat} {id : CallId}
    (h : issuedAt? log i = some id) (m : Message) :
    issuedAt? (log ++ [m]) i = some id := by
  have hlt := lt_of_issuedAt? h
  rw [issuedAt?_append_singleton, if_neg (by omega), h]

theorem answeredAt?_append {log : List Message} {i : Nat} {id : CallId}
    (h : answeredAt? log i = some id) (m : Message) :
    answeredAt? (log ++ [m]) i = some id := by
  have hlt := lt_of_answeredAt? h
  rw [answeredAt?_append_singleton, if_neg (by omega), h]

end Log

namespace CallIndex

/-! ## The index as a map -/

/-- The identifiers that have a slot. -/
def keys (c : CallIndex) : List CallId := c.entries.map Prod.fst

/-- The number of slots without a result. -/
def openCount (c : CallIndex) : Nat :=
  c.entries.countP fun e => e.2.resolvedAt.isNone

theorem find?_eq_none_iff {c : CallIndex} {id : CallId} :
    c.find? id = none ↔ id ∉ c.keys := by
  obtain ⟨entries⟩ := c
  simp only [find?, keys]
  induction entries with
  | nil => simp
  | cons e rest ih =>
    obtain ⟨k, slot⟩ := e
    by_cases h : id = k
    · simp [h]
    · rw [List.lookup_cons, beq_eq_false_iff_ne.mpr h]
      simp [h, ih]

/-- With one slot for each identifier, a slot is found exactly if it is
there. -/
theorem find?_eq_some_iff {c : CallIndex} (hkeys : c.keys.Nodup) {id : CallId}
    {slot : CallSlot} : c.find? id = some slot ↔ (id, slot) ∈ c.entries := by
  obtain ⟨entries⟩ := c
  simp only [find?, keys] at *
  induction entries with
  | nil => simp
  | cons e rest ih =>
    obtain ⟨k, other⟩ := e
    rw [List.map_cons, List.nodup_cons] at hkeys
    obtain ⟨hfresh, hrest⟩ := hkeys
    by_cases h : id = k
    · have hout : (id, slot) ∉ rest := by
        intro hmem
        rw [h] at hmem
        exact hfresh (List.mem_map.mpr ⟨_, hmem, rfl⟩)
      simp [h, h ▸ hout, eq_comm]
    · rw [List.lookup_cons, beq_eq_false_iff_ne.mpr h]
      simp [h, ih hrest]

@[simp] theorem keys_issue (c : CallIndex) (id : CallId) (position : Nat) :
    (c.issue id position).keys = id :: c.keys := rfl

@[simp] theorem keys_resolve (c : CallIndex) (id : CallId) (position : Nat) :
    (c.resolve id position).keys = c.keys := by
  simp only [keys, resolve, List.map_map]
  apply List.map_congr_left
  intro e _
  by_cases h : e.1 = id <;> simp [h]

theorem openCount_issue (c : CallIndex) (id : CallId) (position : Nat) :
    (c.issue id position).openCount = c.openCount + 1 := by
  simp [openCount, issue]

/-- Resolving a call closes one slot. The identifiers must differ, or more
than one slot would be closed. -/
theorem openCount_resolve {c : CallIndex} {id : CallId} {slot : CallSlot}
    (position : Nat) (hkeys : c.keys.Nodup) (hfind : c.find? id = some slot)
    (hopen : slot.resolvedAt = none) :
    (c.resolve id position).openCount + 1 = c.openCount := by
  obtain ⟨entries⟩ := c
  simp only [resolve, find?, openCount, keys] at *
  induction entries with
  | nil => simp at hfind
  | cons e rest ih =>
    obtain ⟨k, other⟩ := e
    rw [List.map_cons, List.nodup_cons] at hkeys
    obtain ⟨hfresh, hrest⟩ := hkeys
    by_cases h : id = k
    · subst h
      have hslot : other = slot := by simpa using hfind
      have hsame : rest.map (fun e =>
          if e.1 = id then (e.1, { e.2 with resolvedAt := some position }) else e)
          = rest.map fun e => e := by
        apply List.map_congr_left
        intro e he
        have hne : e.1 ≠ id := fun heq =>
          hfresh (List.mem_map.mpr ⟨e, he, heq⟩)
        exact if_neg hne
      rw [List.map_cons, hsame, List.map_id']
      simp [hslot, hopen]
    · rw [List.lookup_cons, beq_eq_false_iff_ne.mpr h] at hfind
      have hk : ¬ k = id := fun heq => h heq.symm
      rw [List.map_cons, if_neg hk, List.countP_cons, List.countP_cons,
        ← ih hrest hfind]
      omega

end CallIndex

namespace CallLedger

/-! ## Ledger and log in step -/

/-- What a ledger says of its log: each call has a slot of its own at the
call's position, a slot is resolved at the position of the result, which
stands behind the call, and the counter counts the slots that are not. -/
structure Matches (l : CallLedger) (log : List Message) : Prop where
  keys_nodup : l.calls.keys.Nodup
  issued_at : ∀ id slot, l.calls.find? id = some slot →
    Log.issuedAt? log slot.issuedAt = some id
  slot_of_call : ∀ i id, Log.issuedAt? log i = some id →
    ∃ r, l.calls.find? id = some ⟨i, r⟩
  resolved_at : ∀ id slot j, l.calls.find? id = some slot →
    slot.resolvedAt = some j →
    slot.issuedAt < j ∧ Log.answeredAt? log j = some id
  slot_of_result : ∀ j id, Log.answeredAt? log j = some id →
    ∃ i, l.calls.find? id = some ⟨i, some j⟩
  pending_eq : l.pending = l.calls.openCount

theorem matches_empty : Matches {} [] where
  keys_nodup := List.nodup_nil
  issued_at := by simp [CallIndex.find?]
  slot_of_call := by simp [Log.issuedAt?]
  resolved_at := by simp [CallIndex.find?]
  slot_of_result := by simp [Log.answeredAt?]
  pending_eq := rfl

namespace Matches

variable {l : CallLedger} {log : List Message}

theorem issue (h : l.Matches log) {m : Message} {id : CallId}
    (hm : m.issues? = some id) (hnew : l.calls.find? id = none) :
    Matches ⟨l.calls.issue id log.length, l.pending + 1⟩ (log ++ [m]) := by
  have hanswers : m.answers? = none := Message.answers?_of_issues? hm
  refine {
    keys_nodup := ?_, issued_at := ?_, slot_of_call := ?_,
    resolved_at := ?_, slot_of_result := ?_, pending_eq := ?_ }
  · rw [CallIndex.keys_issue, List.nodup_cons]
    exact ⟨CallIndex.find?_eq_none_iff.mp hnew, h.keys_nodup⟩
  · intro other slot hfind
    rw [CallIndex.find?_issue] at hfind
    split at hfind
    · rename_i heq
      cases hfind
      rw [Log.issuedAt?_append_singleton, if_pos rfl, hm, heq]
    · exact Log.issuedAt?_append (h.issued_at other slot hfind) m
  · intro i other hat
    rw [Log.issuedAt?_append_singleton] at hat
    rw [CallIndex.find?_issue]
    split at hat
    · rename_i hlast
      rw [hm, Option.some.injEq] at hat
      rw [if_pos hat.symm, hlast]
      exact ⟨none, rfl⟩
    · obtain ⟨r, hr⟩ := h.slot_of_call i other hat
      have hne : other ≠ id := by
        rintro rfl
        rw [hnew] at hr
        cases hr
      rw [if_neg hne]
      exact ⟨r, hr⟩
  · intro other slot j hfind hres
    rw [CallIndex.find?_issue] at hfind
    split at hfind
    · cases hfind
      cases hres
    · obtain ⟨hlt, hat⟩ := h.resolved_at other slot j hfind hres
      exact ⟨hlt, Log.answeredAt?_append hat m⟩
  · intro j other hat
    rw [Log.answeredAt?_append_singleton, hanswers] at hat
    split at hat
    · cases hat
    · obtain ⟨i, hi⟩ := h.slot_of_result j other hat
      have hne : other ≠ id := by
        rintro rfl
        rw [hnew] at hi
        cases hi
      rw [CallIndex.find?_issue, if_neg hne]
      exact ⟨i, hi⟩
  · simp only [CallIndex.openCount_issue, h.pending_eq]

theorem resolve (h : l.Matches log) {m : Message} {id : CallId}
    (hm : m.answers? = some id) {slot : CallSlot}
    (hfind : l.calls.find? id = some slot) (hopen : slot.resolvedAt = none) :
    Matches ⟨l.calls.resolve id log.length, l.pending - 1⟩ (log ++ [m]) := by
  have hissues : m.issues? = none := Message.issues?_of_answers? hm
  have hissued := Log.lt_of_issuedAt? (h.issued_at id slot hfind)
  refine {
    keys_nodup := ?_, issued_at := ?_, slot_of_call := ?_,
    resolved_at := ?_, slot_of_result := ?_, pending_eq := ?_ }
  · rw [CallIndex.keys_resolve]
    exact h.keys_nodup
  · intro other new hnew
    rw [CallIndex.find?_resolve, Option.map_eq_some_iff] at hnew
    obtain ⟨old, hold, rfl⟩ := hnew
    have hat := Log.issuedAt?_append (h.issued_at other old hold) m
    split <;> exact hat
  · intro i other hat
    rw [Log.issuedAt?_append_singleton, hissues] at hat
    split at hat
    · cases hat
    · obtain ⟨r, hr⟩ := h.slot_of_call i other hat
      rw [CallIndex.find?_resolve, hr]
      by_cases heq : other = id
      · exact ⟨some log.length, by simp [heq]⟩
      · exact ⟨r, by simp [heq]⟩
  · intro other new j hnew hres
    rw [CallIndex.find?_resolve, Option.map_eq_some_iff] at hnew
    obtain ⟨old, hold, rfl⟩ := hnew
    by_cases heq : other = id
    · subst heq
      rw [hfind, Option.some.injEq] at hold
      subst hold
      simp only [if_pos] at hres ⊢
      cases hres
      rw [Log.answeredAt?_append_singleton, if_pos rfl]
      exact ⟨hissued, hm⟩
    · simp only [if_neg heq] at hres ⊢
      obtain ⟨hlt, hat⟩ := h.resolved_at other old j hold hres
      exact ⟨hlt, Log.answeredAt?_append hat m⟩
  · intro j other hat
    rw [Log.answeredAt?_append_singleton] at hat
    rw [CallIndex.find?_resolve]
    split at hat
    · rename_i hlast
      rw [hm, Option.some.injEq] at hat
      subst hat
      exact ⟨slot.issuedAt, by simp [hfind, hlast]⟩
    · obtain ⟨i, hi⟩ := h.slot_of_result j other hat
      have hne : other ≠ id := by
        rintro rfl
        rw [hfind, Option.some.injEq] at hi
        rw [hi] at hopen
        cases hopen
      exact ⟨i, by simp [hi, hne]⟩
  · have hcount := CallIndex.openCount_resolve log.length h.keys_nodup hfind hopen
    have hpending := h.pending_eq
    show l.pending - 1 = (l.calls.resolve id log.length).openCount
    omega

theorem text (h : l.Matches log) {m : Message} (hissues : m.issues? = none)
    (hanswers : m.answers? = none) : Matches l (log ++ [m]) := by
  refine { h with issued_at := ?_, slot_of_call := ?_, resolved_at := ?_, slot_of_result := ?_ }
  · exact fun id slot hfind => Log.issuedAt?_append (h.issued_at id slot hfind) m
  · intro i id hat
    rw [Log.issuedAt?_append_singleton, hissues] at hat
    split at hat
    · cases hat
    · exact h.slot_of_call i id hat
  · intro id slot j hfind hres
    obtain ⟨hlt, hat⟩ := h.resolved_at id slot j hfind hres
    exact ⟨hlt, Log.answeredAt?_append hat m⟩
  · intro j id hat
    rw [Log.answeredAt?_append_singleton, hanswers] at hat
    split at hat
    · cases hat
    · exact h.slot_of_result j id hat

/-! ## What a ledger knows of its log -/

theorem find?_isSome_iff (h : l.Matches log) {id : CallId} :
    (l.calls.find? id).isSome ↔ id ∈ Log.issued log := by
  rw [Log.mem_issued_iff_at, Option.isSome_iff_exists]
  constructor
  · rintro ⟨slot, hfind⟩
    exact ⟨_, h.issued_at id slot hfind⟩
  · rintro ⟨i, hat⟩
    obtain ⟨r, hr⟩ := h.slot_of_call i id hat
    exact ⟨_, hr⟩

theorem resolvedAt_isSome_iff (h : l.Matches log) {id : CallId} {slot : CallSlot}
    (hfind : l.calls.find? id = some slot) :
    slot.resolvedAt.isSome ↔ id ∈ Log.answered log := by
  rw [Log.mem_answered_iff_at, Option.isSome_iff_exists]
  constructor
  · rintro ⟨j, hres⟩
    exact ⟨j, (h.resolved_at id slot j hfind hres).2⟩
  · rintro ⟨j, hat⟩
    obtain ⟨i, hi⟩ := h.slot_of_result j id hat
    rw [hfind, Option.some.injEq] at hi
    exact ⟨j, by rw [hi]⟩

/-- Every result of the log answers a call of the log. -/
theorem issued_of_answered (h : l.Matches log) {id : CallId}
    (hid : id ∈ Log.answered log) : id ∈ Log.issued log := by
  obtain ⟨j, hj⟩ := Log.mem_answered_iff_at.mp hid
  obtain ⟨i, hi⟩ := h.slot_of_result j id hj
  exact h.find?_isSome_iff.mp (by rw [hi]; rfl)

/-- The counter is zero exactly when every call has its result. -/
theorem pending_eq_zero_iff (h : l.Matches log) :
    l.pending = 0 ↔ ∀ id ∈ Log.issued log, id ∈ Log.answered log := by
  rw [h.pending_eq, CallIndex.openCount, List.countP_eq_zero]
  constructor
  · intro hnone id hid
    obtain ⟨slot, hfind⟩ := Option.isSome_iff_exists.mp (h.find?_isSome_iff.mpr hid)
    have hmem := (CallIndex.find?_eq_some_iff h.keys_nodup).mp hfind
    refine (h.resolvedAt_isSome_iff hfind).mp ?_
    simpa [Option.isSome_iff_ne_none] using hnone _ hmem
  · rintro hall ⟨id, slot⟩ hmem
    have hfind := (CallIndex.find?_eq_some_iff h.keys_nodup).mpr hmem
    have hid := h.find?_isSome_iff.mp (by rw [hfind]; rfl)
    have hres := (h.resolvedAt_isSome_iff hfind).mpr (hall id hid)
    simpa [Option.isSome_iff_ne_none] using hres

/-- While a call is open the counter is above zero. -/
theorem pending_pos_of_open (h : l.Matches log) {id : CallId} {slot : CallSlot}
    (hfind : l.calls.find? id = some slot) (hopen : slot.resolvedAt = none) :
    0 < l.pending := by
  have hcount := CallIndex.openCount_resolve 0 h.keys_nodup hfind hopen
  rw [h.pending_eq]
  omega

/-- No identifier is issued twice. -/
theorem issued_nodup (h : l.Matches log) : (Log.issued log).Nodup := by
  rw [Log.issued, List.Nodup, List.pairwise_filterMap, List.pairwise_iff_getElem]
  rintro i j hi hj hlt first hfirst second hsecond rfl
  have hati : Log.issuedAt? log i = some first := by
    simpa [Log.issuedAt?, hi] using hfirst
  have hatj : Log.issuedAt? log j = some first := by
    simpa [Log.issuedAt?, hj] using hsecond
  obtain ⟨r, hr⟩ := h.slot_of_call i first hati
  obtain ⟨r', hr'⟩ := h.slot_of_call j first hatj
  rw [hr, Option.some.injEq, CallSlot.mk.injEq] at hr'
  omega

end Matches

/-! ## Taking messages in -/

variable {l l' : CallLedger} {log ms : List Message} {m : Message}

/-- All that taking in a message can do. -/
theorem accept_cases {position : Nat} (ok : l.accept position m = .ok l') :
    (∃ id, m.issues? = some id ∧ l.calls.find? id = none ∧
      l' = ⟨l.calls.issue id position, l.pending + 1⟩) ∨
    (∃ id slot, m.answers? = some id ∧ l.calls.find? id = some slot ∧
      slot.resolvedAt = none ∧
      l' = ⟨l.calls.resolve id position, l.pending - 1⟩) ∨
    (m.issues? = none ∧ m.answers? = none ∧ l.pending = 0 ∧ l' = l) := by
  cases m with
  | toolCall id tool arguments =>
    simp only [accept] at ok
    split at ok
    · cases ok
    · rename_i hnew
      cases ok
      exact Or.inl ⟨id, rfl, hnew, rfl⟩
  | toolResult id status content =>
    simp only [accept] at ok
    split at ok
    · cases ok
    · rename_i slot hfind
      split at ok
      · cases ok
      · rename_i hopen
        cases ok
        have hnone : slot.resolvedAt = none := by simpa using hopen
        exact Or.inr (Or.inl ⟨id, slot, rfl, hfind, hnone, rfl⟩)
  | _ =>
    simp only [accept] at ok
    split at ok
    · cases ok
    · cases ok
      exact Or.inr (Or.inr ⟨rfl, rfl, by omega, rfl⟩)

theorem accept_matches (h : l.Matches log)
    (ok : l.accept log.length m = .ok l') : l'.Matches (log ++ [m]) := by
  rcases accept_cases ok with ⟨id, hm, hnew, rfl⟩ |
    ⟨id, slot, hm, hfind, hopen, rfl⟩ | ⟨hissues, hanswers, -, rfl⟩
  · exact h.issue hm hnew
  · exact h.resolve hm hfind hopen
  · exact h.text hissues hanswers

/-- A message is taken in exactly if the log may go on with it. -/
theorem accept_ok_iff (h : l.Matches log) :
    (∃ l', l.accept log.length m = .ok l') ↔ Log.Admits log m := by
  cases m with
  | toolCall id tool arguments =>
    have hfind := @Matches.find?_isSome_iff _ _ h id
    simp only [accept, Log.Admits, ← hfind]
    cases l.calls.find? id <;> simp
  | toolResult id status content =>
    simp only [accept, Log.Admits]
    cases hfind : l.calls.find? id with
    | none =>
      have hno : id ∉ Log.issued log := by
        rw [← h.find?_isSome_iff, hfind]
        simp
      simp [hno]
    | some slot =>
      have hyes : id ∈ Log.issued log := by
        rw [← h.find?_isSome_iff, hfind]
        rfl
      have hres := h.resolvedAt_isSome_iff hfind
      cases hr : slot.resolvedAt <;> simp_all
  | _ =>
    simp only [accept, Log.Admits, ← h.pending_eq_zero_iff]
    by_cases hp : l.pending = 0
    · simp [hp]
    · simp [hp, Nat.pos_of_ne_zero hp]

theorem acceptAll_matches (h : l.Matches log)
    (ok : l.acceptAll log.length ms = .ok l') : l'.Matches (log ++ ms) := by
  induction ms generalizing l log with
  | nil =>
    cases ok
    simpa using h
  | cons m rest ih =>
    simp only [acceptAll] at ok
    split at ok
    · cases ok
    · rename_i next hnext
      have hm := accept_matches h hnext
      have hlen : (log ++ [m]).length = log.length + 1 := by simp
      rw [← hlen] at ok
      simpa using ih hm ok

/-- A group of messages is taken in exactly if the log may go on with
it. -/
theorem acceptAll_ok_iff (h : l.Matches log) :
    (∃ l', l.acceptAll log.length ms = .ok l') ↔ Log.Continues log ms := by
  induction ms generalizing l log with
  | nil => simp [acceptAll, Log.Continues]
  | cons m rest ih =>
    rw [Log.Continues, ← accept_ok_iff h]
    have hlen : (log ++ [m]).length = log.length + 1 := by simp
    cases hm : l.accept log.length m with
    | error e => simp [acceptAll, hm]
    | ok next =>
      have hrest := ih (accept_matches h hm)
      rw [hlen] at hrest
      simp [acceptAll, hm, ← hrest]

end CallLedger

end AgentLoop
