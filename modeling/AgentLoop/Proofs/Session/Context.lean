/-
AgentLoop.Proofs.Session.Context — what a history keeps when it is fitted to
a budget.

* `WellPaired.issued_nodup`, `WellPaired.answered_nodup` — no identifier is on
  two calls or on two results
* `WellPaired.behind_closed` — calls that are all answered may be dropped from
  the front of a log
* `Log.Coherent`, `coherent_of_closed` — every call has its result behind it
* `Context.fitToBudget_cases` — a history is kept whole or cut at a message of
  the user
* `Context.Keeps`, `keeps_fitToBudget` — the order, the system texts and the
  latest turn stay
* `Context.together_fitToBudget` — a call and its result stay or go together

A cut knows nothing of calls. It parts no pair because a message of the user
stands only where every call before it is answered.
-/
import Mathlib.Data.List.Induction
import AgentLoop.Proofs.Session.WellPaired
import AgentLoop.Session.Context

namespace AgentLoop

namespace Log

variable {log old new kept ms : List Message} {m : Message}

/-! ## Well-paired logs -/

theorem issued_singleton {id : CallId} (h : m.issues? = some id) : issued [m] = [id] := by
  simp [issued, h]

theorem answered_singleton {id : CallId} (h : m.answers? = some id) :
    answered [m] = [id] := by
  simp [answered, h]

/-- Only what was called is answered. -/
theorem WellPaired.issued_of_answered (h : WellPaired log) :
    ∀ id ∈ answered log, id ∈ issued log := by
  induction log using List.reverseRecOn with
  | nil => simp
  | append_singleton log m ih =>
    obtain ⟨hlog, hm⟩ := wellPaired_append_singleton.mp h
    intro id hid
    rw [answered_append, List.mem_append] at hid
    rw [issued_append, List.mem_append]
    rcases hid with hid | hid
    · exact Or.inl (ih hlog id hid)
    · cases hanswers : m.answers? with
      | none => simp [answered, hanswers] at hid
      | some other =>
        rw [answered_singleton hanswers, List.mem_singleton] at hid
        subst hid
        exact Or.inl ((admits_of_answers? hanswers).mp hm).1

/-- No identifier is on two calls. -/
theorem WellPaired.issued_nodup (h : WellPaired log) : (issued log).Nodup := by
  induction log using List.reverseRecOn with
  | nil => simp
  | append_singleton log m ih =>
    obtain ⟨hlog, hm⟩ := wellPaired_append_singleton.mp h
    rw [issued_append]
    cases hissues : m.issues? with
    | none => simpa [issued, hissues] using ih hlog
    | some id =>
      have hnew := (admits_of_issues? hissues).mp hm
      rw [issued_singleton hissues, List.nodup_append]
      refine ⟨ih hlog, by simp, ?_⟩
      intro other hother id' hid'
      rw [List.mem_singleton] at hid'
      subst hid'
      rintro rfl
      exact hnew hother

/-- No identifier is on two results. -/
theorem WellPaired.answered_nodup (h : WellPaired log) : (answered log).Nodup := by
  induction log using List.reverseRecOn with
  | nil => simp
  | append_singleton log m ih =>
    obtain ⟨hlog, hm⟩ := wellPaired_append_singleton.mp h
    rw [answered_append]
    cases hanswers : m.answers? with
    | none => simpa [answered, hanswers] using ih hlog
    | some id =>
      have hopen := (admits_of_answers? hanswers).mp hm
      rw [answered_singleton hanswers, List.nodup_append]
      refine ⟨ih hlog, by simp, ?_⟩
      intro other hother id' hid'
      rw [List.mem_singleton] at hid'
      subst hid'
      rintro rfl
      exact hopen.2 hother

/-! ## Dropping the front of a log -/

/-- A call is answered behind its place. -/
theorem WellPaired.answered_right (h : WellPaired (old ++ new)) {id : CallId}
    (hid : id ∈ issued new) (hanswered : id ∈ answered (old ++ new)) : id ∈ answered new := by
  rw [answered_append, List.mem_append] at hanswered
  refine hanswered.resolve_left ?_
  intro hold
  have hnodup := h.issued_nodup
  rw [issued_append, List.nodup_append] at hnodup
  have hcalled := (wellPaired_append.mp h).1.issued_of_answered id hold
  exact hnodup.2.2 id hcalled id hid rfl

/-- The front `old` of a log answered all it called, and what is left of it,
`kept`, has neither calls nor results. -/
structure Droppable (old kept : List Message) : Prop where
  closed : ∀ id ∈ issued old, id ∈ answered old
  issued_kept : issued kept = []
  answered_kept : answered kept = []

theorem Droppable.admits (h : Droppable old kept) (hpaired : WellPaired (old ++ ms))
    (hm : Admits (old ++ ms) m) : Admits (kept ++ ms) m := by
  have hissued : issued (kept ++ ms) = issued ms := by simp [h.issued_kept]
  have hanswered : answered (kept ++ ms) = answered ms := by simp [h.answered_kept]
  cases hissues : m.issues? with
  | some id =>
    rw [admits_of_issues? hissues] at hm ⊢
    rw [hissued]
    intro hid
    exact hm (by simp [hid])
  | none =>
    cases hanswers : m.answers? with
    | some id =>
      rw [admits_of_answers? hanswers] at hm ⊢
      rw [hissued, hanswered]
      obtain ⟨hcalled, hopen⟩ := hm
      rw [answered_append, List.mem_append] at hopen
      rw [issued_append, List.mem_append] at hcalled
      refine ⟨hcalled.resolve_left ?_, fun hid => hopen (Or.inr hid)⟩
      intro hid
      exact hopen (Or.inl (h.closed id hid))
    | none =>
      rw [admits_of_text hissues hanswers] at hm ⊢
      rw [hissued, hanswered]
      intro id hid
      exact hpaired.answered_right hid (hm id (by simp [hid]))

theorem Droppable.continues (h : Droppable old kept) (hpaired : WellPaired (old ++ ms))
    (hnew : Continues (old ++ ms) new) : Continues (kept ++ ms) new := by
  induction new generalizing ms with
  | nil => simp [Continues]
  | cons m rest ih =>
    obtain ⟨hm, hrest⟩ := hnew
    have hpaired' := wellPaired_append_singleton.mpr ⟨hpaired, hm⟩
    rw [List.append_assoc] at hpaired' hrest
    refine ⟨h.admits hpaired hm, ?_⟩
    rw [List.append_assoc]
    exact ih hpaired' hrest

theorem wellPaired_of_texts (hissued : issued kept = []) (hanswered : answered kept = []) :
    WellPaired kept := by
  have hcalls := List.filterMap_eq_nil_iff.mp hissued
  have hresults := List.filterMap_eq_nil_iff.mp hanswered
  intro i hi
  have hmem := List.getElem_mem hi
  rw [admits_of_text (hcalls _ hmem) (hresults _ hmem)]
  intro id hid
  obtain ⟨m, hm, hissues⟩ := mem_issued.mp hid
  rw [hcalls m (List.mem_of_mem_take hm)] at hissues
  cases hissues

/-- Behind a front that can be dropped a log is still well paired. -/
theorem WellPaired.behind_closed (h : Droppable old kept) (hpaired : WellPaired (old ++ new)) :
    WellPaired (kept ++ new) := by
  obtain ⟨hold, hnew⟩ := wellPaired_append.mp hpaired
  rw [← List.append_nil old] at hold hnew
  rw [← List.append_nil kept, wellPaired_append, List.append_nil]
  exact ⟨wellPaired_of_texts h.issued_kept h.answered_kept,
    by simpa using h.continues hold hnew⟩

/-! ## Pairs -/

/-- Every result has its call in front of it and every call its result behind
it, and each of them is the only one with its identifier. -/
structure Coherent (log : List Message) : Prop where
  result_preceded : ∀ before m after id, log = before ++ m :: after →
    m.answers? = some id → id ∈ issued before
  call_followed : ∀ before m after id, log = before ++ m :: after →
    m.issues? = some id → id ∈ answered after
  calls_distinct : (issued log).Nodup
  results_distinct : (answered log).Nodup

theorem admits_of_split {before after : List Message} (h : WellPaired (before ++ m :: after)) :
    WellPaired before ∧ Admits before m := by
  have hfront := (wellPaired_append.mp h).2
  exact ⟨(wellPaired_append.mp h).1, hfront.1⟩

theorem coherent_of_closed (h : WellPaired log) (hclosed : openCalls log = []) :
    Coherent log where
  result_preceded := by
    rintro before m after id rfl hanswers
    exact ((admits_of_answers? hanswers).mp (admits_of_split h).2).1
  call_followed := by
    rintro before m after id rfl hissues
    obtain ⟨hbefore, hm⟩ := admits_of_split h
    have hid := openCalls_eq_nil_iff.mp hclosed id (by simp [issued_cons, hissues])
    have hnone := Message.answers?_of_issues? hissues
    rw [answered_append, answered_cons, hnone] at hid
    rcases List.mem_append.mp hid with hid | hid
    · exact absurd (hbefore.issued_of_answered id hid) ((admits_of_issues? hissues).mp hm)
    · exact hid
  calls_distinct := h.issued_nodup
  results_distinct := h.answered_nodup

/-- A call and its result are both in a part of the log, or neither is. -/
def Together (log part : List Message) : Prop :=
  ∀ call ∈ log, ∀ result ∈ log, call.issues?.isSome → call.issues? = result.answers? →
    (call ∈ part ↔ result ∈ part)

end Log

namespace Context

open Log (WellPaired Droppable issued answered Admits)

variable {log : List Message} {cut budget : Nat}

/-! ## A cut -/

theorem issued_systemTexts (log : List Message) :
    issued (log.filter Message.isSystemText) = [] := by
  rw [issued, List.filterMap_eq_nil_iff]
  intro m hm
  have hsystem := (List.mem_filter.mp hm).2
  cases m <;> simp_all [Message.isSystemText, Message.issues?]

theorem answered_systemTexts (log : List Message) :
    answered (log.filter Message.isSystemText) = [] := by
  rw [answered, List.filterMap_eq_nil_iff]
  intro m hm
  have hsystem := (List.mem_filter.mp hm).2
  cases m <;> simp_all [Message.isSystemText, Message.answers?]

theorem cutAt_sublist (cut : Nat) (log : List Message) : (cutAt cut log).Sublist log := by
  have h := (List.filter_sublist (p := Message.isSystemText) (l := log.take cut)).append
    (List.Sublist.refl (log.drop cut))
  rwa [List.take_append_drop] at h

theorem systemTexts_cutAt (cut : Nat) (log : List Message) :
    (cutAt cut log).filter Message.isSystemText = log.filter Message.isSystemText := by
  have hsplit := congrArg (List.filter Message.isSystemText) (List.take_append_drop cut log)
  rw [List.filter_append] at hsplit
  simpa [cutAt] using hsplit

/-- Everything in front of a message of the user is answered. -/
theorem droppable_of_userText (h : WellPaired log) {u : Message} (hu : log[cut]? = some u)
    (huser : u.isUserText = true) :
    Droppable (log.take cut) ((log.take cut).filter Message.isSystemText) where
  closed := by
    obtain ⟨hlt, hget⟩ := List.getElem?_eq_some_iff.mp hu
    have hadmits := h cut hlt
    rw [hget] at hadmits
    cases u <;> simp [Message.isUserText] at huser
    exact hadmits
  issued_kept := issued_systemTexts _
  answered_kept := answered_systemTexts _

/-- A message that is no system text is behind the cut or left out. -/
theorem mem_cutAt {m : Message} (hm : m.isSystemText = false) :
    m ∈ cutAt cut log ↔ m ∈ log.drop cut := by
  simp [cutAt, hm]

theorem issued_cutAt (cut : Nat) (log : List Message) :
    issued (cutAt cut log) = issued (log.drop cut) := by
  rw [cutAt, Log.issued_append, issued_systemTexts, List.nil_append]

theorem answered_cutAt (cut : Nat) (log : List Message) :
    answered (cutAt cut log) = answered (log.drop cut) := by
  rw [cutAt, Log.answered_append, answered_systemTexts, List.nil_append]

theorem wellPaired_split (h : WellPaired log) (cut : Nat) :
    WellPaired (log.take cut ++ log.drop cut) := by
  rwa [List.take_append_drop]

section UserText

variable {u : Message}

theorem wellPaired_cutAt (h : WellPaired log) (hu : log[cut]? = some u)
    (huser : u.isUserText = true) : WellPaired (cutAt cut log) :=
  WellPaired.behind_closed (droppable_of_userText h hu huser) (wellPaired_split h cut)

theorem openCalls_cutAt (h : WellPaired log) (hclosed : Log.openCalls log = []) (cut : Nat) :
    Log.openCalls (cutAt cut log) = [] := by
  have hpaired := wellPaired_split h cut
  rw [Log.openCalls_eq_nil_iff] at hclosed ⊢
  rw [issued_cutAt, answered_cutAt]
  intro id hid
  refine hpaired.answered_right hid ?_
  rw [List.take_append_drop]
  exact hclosed id (List.Sublist.subset ((List.drop_sublist cut log).filterMap _) hid)

theorem together_cutAt (h : WellPaired log) (hu : log[cut]? = some u)
    (huser : u.isUserText = true) : Log.Together log (cutAt cut log) := by
  intro call hcall result hresult hissues hpair
  obtain ⟨id, hid⟩ := Option.isSome_iff_exists.mp hissues
  rw [hid] at hpair
  have hpaired := wellPaired_split h cut
  have hnodup := hpaired.issued_nodup
  rw [Log.issued_append, List.nodup_append] at hnodup
  have hcalled : ∀ part, call ∈ part → id ∈ issued part :=
    fun part hmem => Log.mem_issued.mpr ⟨call, hmem, hid⟩
  have hanswered : ∀ part, result ∈ part → id ∈ answered part :=
    fun part hmem => List.mem_filterMap.mpr ⟨result, hmem, hpair.symm⟩
  have hcallText : call.isSystemText = false := by
    cases call <;> simp_all [Message.issues?, Message.isSystemText]
  have hresultText : result.isSystemText = false := by
    cases result <;> simp_all [Message.answers?, Message.isSystemText]
  rw [mem_cutAt hcallText, mem_cutAt hresultText]
  rw [← List.take_append_drop cut log, List.mem_append] at hcall hresult
  constructor
  · -- a result in front of the cut would have its call there, too
    intro hbehind
    refine hresult.resolve_left ?_
    intro hfront
    have hpairedFront := (Log.wellPaired_append.mp hpaired).1
    have hold := hpairedFront.issued_of_answered id (hanswered _ hfront)
    exact hnodup.2.2 id hold id (hcalled _ hbehind) rfl
  · -- a call in front of the cut has its result there
    intro hbehind
    refine hcall.resolve_left ?_
    intro hfront
    have hclosed := (droppable_of_userText h hu huser).closed id (hcalled _ hfront)
    have hresults := hpaired.answered_nodup
    rw [Log.answered_append, List.nodup_append] at hresults
    exact hresults.2.2 id hclosed id (hanswered _ hbehind) rfl

end UserText

/-! ## Fitting to a budget -/

theorem mem_turnStarts {start i : Nat} (h : i ∈ turnStarts start log) :
    ∃ j u, i = start + j ∧ log[j]? = some u ∧ u.isUserText = true := by
  induction log generalizing start with
  | nil => simp [turnStarts] at h
  | cons m rest ih =>
    have hlater : i ∈ turnStarts (start + 1) rest →
        ∃ j u, i = start + j ∧ (m :: rest)[j]? = some u ∧ u.isUserText = true := by
      intro hi
      obtain ⟨j, u, rfl, hu, huser⟩ := ih hi
      exact ⟨j + 1, u, by omega, by simpa using hu, huser⟩
    rw [turnStarts] at h
    split at h
    · rename_i huser
      rcases List.mem_cons.mp h with rfl | h
      · exact ⟨0, m, rfl, rfl, huser⟩
      · exact hlater h
    · exact hlater h

theorem firstFit_cases (budget : Nat) (log kept : List Message) (cuts : List Nat) :
    firstFit budget log cuts kept = kept ∨
      ∃ cut ∈ cuts, firstFit budget log cuts kept = cutAt cut log := by
  induction cuts generalizing kept with
  | nil => simp [firstFit]
  | cons cut rest ih =>
    simp only [firstFit]
    split
    · exact Or.inr ⟨cut, by simp, rfl⟩
    · rcases ih (cutAt cut log) with hcut | ⟨later, hlater, heq⟩
      · exact Or.inr ⟨cut, by simp, hcut⟩
      · exact Or.inr ⟨later, by simp [hlater], heq⟩

/-- A history that is fitted to a budget is whole, or cut at a message of the
user. -/
theorem fitToBudget_cases (budget : Nat) (log : List Message) :
    fitToBudget budget log = log ∨ ∃ cut u, log[cut]? = some u ∧ u.isUserText = true ∧
      fitToBudget budget log = cutAt cut log := by
  unfold fitToBudget
  split
  · exact Or.inl rfl
  · rcases firstFit_cases budget log log ((turnStarts 0 log).drop 1) with hwhole | ⟨cut, hcut, heq⟩
    · exact Or.inl hwhole
    · obtain ⟨j, u, rfl, hu, huser⟩ := mem_turnStarts (List.mem_of_mem_drop hcut)
      rw [Nat.zero_add] at heq
      exact Or.inr ⟨j, u, hu, huser, heq⟩

/-- What a part of a log keeps of it: the order, all system texts, and all
from the latest message of the user on. -/
structure Keeps (log part : List Message) : Prop where
  order : part.Sublist log
  systemTexts : part.filter Message.isSystemText = log.filter Message.isSystemText
  latestTurn : ∀ before u after, log = before ++ u :: after → u.isUserText = true →
    (∀ m ∈ after, m.isUserText = false) → u :: after <:+ part

theorem Keeps.whole (log : List Message) : Keeps log log where
  order := List.Sublist.refl log
  systemTexts := rfl
  latestTurn := by
    rintro before u after rfl - -
    exact List.suffix_append before _

theorem keeps_cutAt {u : Message} (hu : log[cut]? = some u) (huser : u.isUserText = true) :
    Keeps log (cutAt cut log) where
  order := cutAt_sublist cut log
  systemTexts := systemTexts_cutAt cut log
  latestTurn := by
    rintro before latest after rfl hlatest hnone
    -- no message of the user stands behind the latest one, so the cut does not
    have hle : cut ≤ before.length := by
      apply Nat.not_lt.mp
      intro hlt
      rw [List.getElem?_append_right (by omega)] at hu
      have hmem : u ∈ after := by
        have hpos : cut - before.length = (cut - before.length - 1) + 1 := by omega
        rw [hpos, List.getElem?_cons_succ] at hu
        exact List.mem_of_getElem? hu
      rw [hnone u hmem] at huser
      cases huser
    rw [cutAt, List.drop_append_of_le_length hle, ← List.append_assoc]
    exact List.suffix_append _ _

/-- A budget costs the oldest turns only. -/
theorem keeps_fitToBudget (budget : Nat) (log : List Message) :
    Keeps log (fitToBudget budget log) := by
  rcases fitToBudget_cases budget log with hwhole | ⟨cut, u, hu, huser, hcut⟩
  · rw [hwhole]
    exact Keeps.whole log
  · rw [hcut]
    exact keeps_cutAt hu huser

/-- No budget parts a call from its result. -/
theorem together_fitToBudget (h : WellPaired log) (budget : Nat) :
    Log.Together log (fitToBudget budget log) := by
  rcases fitToBudget_cases budget log with hwhole | ⟨cut, u, hu, huser, hcut⟩
  · rw [hwhole]
    intro call hcall result hresult _ _
    exact iff_of_true hcall hresult
  · rw [hcut]
    exact together_cutAt h hu huser

/-- A log whose calls are all answered is coherent within every budget. -/
theorem coherent_fitToBudget (h : WellPaired log) (hclosed : Log.openCalls log = [])
    (budget : Nat) : Log.Coherent (fitToBudget budget log) := by
  rcases fitToBudget_cases budget log with hwhole | ⟨cut, u, hu, huser, hcut⟩
  · rw [hwhole]
    exact Log.coherent_of_closed h hclosed
  · rw [hcut]
    exact Log.coherent_of_closed (wellPaired_cutAt h hu huser) (openCalls_cutAt h hclosed cut)

end Context

end AgentLoop
