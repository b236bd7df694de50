/-
AgentLoop.Proofs.Session.Pairing — calls and results in a log, without
any index.

* `Log.issued`, `Log.answered` — the identifiers of the calls and of the
  results of a log
* `Log.openCalls` — the calls without a result
* `Log.Admits`, `Log.Continues` — the messages that a log may go on with

The rules are stated on the log alone; `Proofs.Session.Ledger` shows that
the bookkeeping of a session enforces exactly these. The two groups that
a turn appends are characterised here: a group of calls
(`continues_calls_iff`, `openCalls_append_calls`) and a group of results
(`continues_results_iff`, `openCalls_append_results`).
-/
import AgentLoop.Message.Basic

namespace AgentLoop

namespace Message

/-- The identifier that a call issues. -/
def issues? : Message → Option CallId
  | .toolCall id _ _ => some id
  | _ => none

/-- The identifier of the call that a result answers. -/
def answers? : Message → Option CallId
  | .toolResult id _ _ => some id
  | _ => none

theorem answers?_of_issues? {m : Message} {id : CallId}
    (h : m.issues? = some id) : m.answers? = none := by
  cases m <;> simp_all [issues?, answers?]

theorem issues?_of_answers? {m : Message} {id : CallId}
    (h : m.answers? = some id) : m.issues? = none := by
  cases m <;> simp_all [issues?, answers?]

end Message

namespace Log

/-! ## Identifiers of a log -/

/-- The identifiers of the calls of a log, in its order. -/
def issued (log : List Message) : List CallId :=
  log.filterMap Message.issues?

/-- The identifiers of the calls that the results of a log answer, in its
order. -/
def answered (log : List Message) : List CallId :=
  log.filterMap Message.answers?

@[simp] theorem issued_nil : issued [] = [] := rfl

@[simp] theorem answered_nil : answered [] = [] := rfl

@[simp] theorem issued_append (log ms : List Message) :
    issued (log ++ ms) = issued log ++ issued ms := by
  simp [issued]

@[simp] theorem answered_append (log ms : List Message) :
    answered (log ++ ms) = answered log ++ answered ms := by
  simp [answered]

theorem issued_cons (m : Message) (ms : List Message) :
    issued (m :: ms) = m.issues?.toList ++ issued ms := by
  cases h : m.issues? <;> simp [issued, h]

theorem answered_cons (m : Message) (ms : List Message) :
    answered (m :: ms) = m.answers?.toList ++ answered ms := by
  cases h : m.answers? <;> simp [answered, h]

/-- Messages that issue some identifiers, one each, issue just these. -/
theorem issued_of_map {ms : List Message} {ids : List CallId}
    (h : ms.map Message.issues? = ids.map some) : issued ms = ids := by
  have hids := congrArg (List.filterMap id) h
  simpa [issued, List.filterMap_map, Function.comp_def] using hids

theorem mem_issued {log : List Message} {id : CallId} :
    id ∈ issued log ↔ ∃ m ∈ log, m.issues? = some id := by
  simp [issued]

/-! ## Open calls -/

/-- Whether a message is a call without a result in a log. -/
def isOpen (log : List Message) (m : Message) : Bool :=
  m.issues?.any fun id => decide (id ∉ answered log)

/-- The calls of a log that have no result, in its order. -/
def openCalls (log : List Message) : List Message :=
  log.filter (isOpen log)

theorem isOpen_iff {log : List Message} {m : Message} :
    isOpen log m = true ↔ ∃ id, m.issues? = some id ∧ id ∉ answered log := by
  cases h : m.issues? <;> simp [isOpen, h]

theorem mem_openCalls {log : List Message} {m : Message} :
    m ∈ openCalls log ↔
      m ∈ log ∧ ∃ id, m.issues? = some id ∧ id ∉ answered log := by
  rw [openCalls, List.mem_filter, isOpen_iff]

/-- No call is open exactly when every identifier that was issued was
answered. -/
theorem openCalls_eq_nil_iff {log : List Message} :
    openCalls log = [] ↔ ∀ id ∈ issued log, id ∈ answered log := by
  rw [List.eq_nil_iff_forall_not_mem]
  constructor
  · intro h id hid
    obtain ⟨m, hm, hi⟩ := mem_issued.mp hid
    have hclosed := h m
    rw [mem_openCalls] at hclosed
    exact Classical.not_not.mp fun hn => hclosed ⟨hm, id, hi, hn⟩
  · intro h m hm
    obtain ⟨hlog, id, hi, hn⟩ := mem_openCalls.mp hm
    exact hn (h id (mem_issued.mpr ⟨m, hlog, hi⟩))

/-- Calls under new identifiers are open behind those that were. -/
theorem openCalls_append_calls {log calls : List Message}
    (hcalls : ∀ m ∈ calls, m.issues?.isSome)
    (hknown : ∀ id ∈ answered log, id ∈ issued log)
    (hnew : ∀ id ∈ issued calls, id ∉ issued log) :
    openCalls (log ++ calls) = openCalls log ++ calls := by
  have hnone : answered calls = [] := by
    rw [answered, List.filterMap_eq_nil_iff]
    intro m hm
    obtain ⟨id, hid⟩ := Option.isSome_iff_exists.mp (hcalls m hm)
    exact Message.answers?_of_issues? hid
  have hsame : answered (log ++ calls) = answered log := by
    rw [answered_append, hnone, List.append_nil]
  have hopen : isOpen (log ++ calls) = isOpen log := by
    funext m; rw [isOpen, isOpen, hsame]
  rw [openCalls, List.filter_append, hopen, openCalls]
  congr 1
  rw [List.filter_eq_self]
  intro m hm
  obtain ⟨id, hid⟩ := Option.isSome_iff_exists.mp (hcalls m hm)
  have hmem : id ∈ issued calls := mem_issued.mpr ⟨m, hm, hid⟩
  exact isOpen_iff.mpr ⟨id, hid, fun ha => hnew id hmem (hknown id ha)⟩

/-- Results for all open calls leave none open. -/
theorem openCalls_append_results {log results : List Message}
    (hresults : ∀ m ∈ results, m.answers?.isSome)
    (hall : ∀ id ∈ issued (openCalls log), id ∈ answered results) :
    openCalls (log ++ results) = [] := by
  rw [openCalls_eq_nil_iff]
  intro id hid
  rw [issued_append, List.mem_append] at hid
  rw [answered_append, List.mem_append]
  rcases hid with hid | hid
  · by_cases ha : id ∈ answered log
    · exact Or.inl ha
    · obtain ⟨m, hm, hi⟩ := mem_issued.mp hid
      have hopen : m ∈ openCalls log := mem_openCalls.mpr ⟨hm, id, hi, ha⟩
      exact Or.inr (hall id (mem_issued.mpr ⟨m, hopen, hi⟩))
  · obtain ⟨m, hm, hi⟩ := mem_issued.mp hid
    obtain ⟨other, ho⟩ := Option.isSome_iff_exists.mp (hresults m hm)
    rw [Message.issues?_of_answers? ho] at hi
    cases hi

/-! ## What a log may go on with -/

/-- A log may go on with a call under a new identifier, with a result for
an open call, and with a text while no call is open. -/
def Admits (log : List Message) : Message → Prop
  | .toolCall id _ _ => id ∉ issued log
  | .toolResult id _ _ => id ∈ issued log ∧ id ∉ answered log
  | _ => ∀ id ∈ issued log, id ∈ answered log

/-- A log may go on with some messages, one after the other. -/
def Continues (log : List Message) : List Message → Prop
  | [] => True
  | m :: rest => Admits log m ∧ Continues (log ++ [m]) rest

theorem admits_of_issues? {log : List Message} {m : Message} {id : CallId}
    (h : m.issues? = some id) : Admits log m ↔ id ∉ issued log := by
  cases m <;> simp_all [Message.issues?, Admits]

theorem admits_of_answers? {log : List Message} {m : Message} {id : CallId}
    (h : m.answers? = some id) :
    Admits log m ↔ id ∈ issued log ∧ id ∉ answered log := by
  cases m <;> simp_all [Message.answers?, Admits]

theorem admits_of_text {log : List Message} {m : Message}
    (hissues : m.issues? = none) (hanswers : m.answers? = none) :
    Admits log m ↔ ∀ id ∈ issued log, id ∈ answered log := by
  cases m <;> simp_all [Message.issues?, Message.answers?, Admits]

/-- A log may go on with a group of calls exactly when their identifiers
are new and differ from each other. -/
theorem continues_calls_iff {log calls : List Message}
    (hcalls : ∀ m ∈ calls, m.issues?.isSome) :
    Continues log calls ↔
      (issued calls).Nodup ∧ ∀ id ∈ issued calls, id ∉ issued log := by
  induction calls generalizing log with
  | nil => simp [Continues]
  | cons m calls ih =>
    obtain ⟨id, hid⟩ := Option.isSome_iff_exists.mp (hcalls m (by simp))
    have hone : issued [m] = [id] := by simp [issued, hid]
    have hcons : issued (m :: calls) = id :: issued calls := by
      simp [issued_cons, hid]
    have hrest : ∀ m ∈ calls, m.issues?.isSome :=
      fun x hx => hcalls x (by simp [hx])
    rw [Continues, admits_of_issues? hid, ih hrest, hcons, issued_append, hone]
    simp only [List.nodup_cons, List.mem_cons, List.mem_append,
      List.not_mem_nil, or_false, forall_eq_or_imp]
    constructor
    · rintro ⟨hnew, hnodup, hother⟩
      refine ⟨⟨fun hmem => hother id hmem (Or.inr rfl), hnodup⟩, hnew, ?_⟩
      exact fun x hx hlog => hother x hx (Or.inl hlog)
    · rintro ⟨⟨hfresh, hnodup⟩, hnew, hother⟩
      refine ⟨hnew, hnodup, fun x hx hmem => ?_⟩
      rcases hmem with hlog | rfl
      · exact hother x hx hlog
      · exact hfresh hx

/-- A log may go on with a group of results exactly when they answer
different calls, each of them open. -/
theorem continues_results_iff {log results : List Message}
    (hresults : ∀ m ∈ results, m.answers?.isSome) :
    Continues log results ↔ (answered results).Nodup ∧
      ∀ id ∈ answered results, id ∈ issued log ∧ id ∉ answered log := by
  induction results generalizing log with
  | nil => simp [Continues]
  | cons m results ih =>
    obtain ⟨id, hid⟩ := Option.isSome_iff_exists.mp (hresults m (by simp))
    have hone : answered [m] = [id] := by simp [answered, hid]
    have hnone : issued [m] = [] := by
      simp [issued, Message.issues?_of_answers? hid]
    have hcons : answered (m :: results) = id :: answered results := by
      simp [answered_cons, hid]
    have hrest : ∀ m ∈ results, m.answers?.isSome :=
      fun x hx => hresults x (by simp [hx])
    rw [Continues, admits_of_answers? hid, ih hrest, hcons, issued_append,
      answered_append, hone, hnone, List.append_nil]
    simp only [List.nodup_cons, List.mem_cons, List.mem_append,
      List.not_mem_nil, or_false, forall_eq_or_imp, not_or]
    constructor
    · rintro ⟨hopen, hnodup, hother⟩
      refine ⟨⟨fun hmem => (hother id hmem).2.2 rfl, hnodup⟩, hopen, ?_⟩
      exact fun x hx => ⟨(hother x hx).1, (hother x hx).2.1⟩
    · rintro ⟨⟨hfresh, hnodup⟩, hopen, hother⟩
      refine ⟨hopen, hnodup, fun x hx => ⟨(hother x hx).1, (hother x hx).2, ?_⟩⟩
      rintro rfl
      exact hfresh hx

end Log

end AgentLoop
