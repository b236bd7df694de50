/-
AgentLoop.Proofs.Session.Budget — how much of a history a budget costs.

* `exactTokens` — the rough number of tokens, however great
* `userPositions`, `fromTurn` — where the turns of a history begin, and the
  history from one of them on, said of positions
* `turnStarts_eq_userPositions`, `fromTurn_eq_cutAt` — these are the cuts that the
  loop goes through
* `firstFit_of_fits`, `firstFit_of_none` — the loop ends at the first cut that
  fits, or at the last one
* `DropsFewest`, `fitToBudget_drops_fewest` — a budget costs the fewest oldest
  turns; fitting twice is fitting once, and a greater budget keeps no less

The loop writes its result anew at each cut and stops late. Which cut it stops
at depends only on which cuts fit, so the loop is read as a search in the list
of cuts; all else is said of the list.
-/
import Mathlib.Data.List.Basic
import Mathlib.Data.Nat.Find
import AgentLoop.Proofs.Session.Context

namespace AgentLoop.Context

variable {log part : List Message} {budget : Nat}

/-! ## Tokens -/

/-- The rough number of tokens of a history, however great it is. -/
def exactTokens (log : List Message) : Nat :=
  log.foldr (fun m tokens => m.estimateTokens + tokens) 0

/-- A part has no more tokens than the whole. -/
theorem exactTokens_le_of_sublist (h : part.Sublist log) : exactTokens part ≤ exactTokens log := by
  induction h with
  | slnil => exact Nat.le_refl _
  | cons m _ ih => exact Nat.le_trans ih (Nat.le_add_left _ _)
  | cons_cons m _ ih => exact Nat.add_le_add_left ih _

/-- Within 32 bits the count is exact, also of every part. -/
theorem estimateTokens_of_sublist (hexact : exactTokens log ≤ Number.max32)
    (h : part.Sublist log) : estimateTokens part = exactTokens part := by
  have hle := Nat.le_trans (exactTokens_le_of_sublist h) hexact
  exact Nat.mod_eq_of_lt (Nat.lt_succ_of_le hle)

/-! ## Turns -/

/-- The positions of the user's messages. -/
def userPositions (log : List Message) : List Nat :=
  (log.zipIdx.filter fun p => p.1.isUserText).map (·.2)

/-- The messages from the beginning of turn `j` on, counted from zero, and all
system texts, in their order. -/
def fromTurn (j : Nat) (log : List Message) : List Message :=
  (log.zipIdx.filter fun p =>
    (userPositions log)[j]?.any (· ≤ p.2) || p.1.isSystemText).map (·.1)

theorem turnStarts_eq_filter (start : Nat) (log : List Message) :
    turnStarts start log =
      ((log.zipIdx start).filter fun p => p.1.isUserText).map (·.2) := by
  induction log generalizing start with
  | nil => rfl
  | cons m rest ih =>
    rw [turnStarts, List.zipIdx_cons, List.filter_cons, ih]
    split <;> rfl

theorem turnStarts_eq_userPositions (log : List Message) :
    turnStarts 0 log = userPositions log := turnStarts_eq_filter 0 log

/-- The user's messages stand one behind the other. -/
theorem userPositions_ascending (log : List Message) :
    (userPositions log).Pairwise (· < ·) := by
  have hsub : (userPositions log).Sublist (log.zipIdx.map (·.2)) :=
    List.filter_sublist.map _
  rw [List.zipIdx_map_snd] at hsub
  exact List.Pairwise.sublist hsub List.pairwise_lt_range'

/-- A cut keeps what stands at its position or behind it, and the system
texts. -/
theorem cutAt_eq_filter (cut start : Nat) (log : List Message) :
    cutAt cut log = ((log.zipIdx start).filter fun p =>
      start + cut ≤ p.2 || p.1.isSystemText).map (·.1) := by
  induction log generalizing cut start with
  | nil => simp [cutAt]
  | cons m rest ih =>
    cases cut with
    | zero =>
      have hall : ((m :: rest).zipIdx start).filter (fun p =>
          start + 0 ≤ p.2 || p.1.isSystemText) = (m :: rest).zipIdx start := by
        refine List.filter_eq_self.mpr fun p hp => ?_
        have hle := List.le_snd_of_mem_zipIdx hp
        simp [hle]
      rw [hall, List.zipIdx_map_fst]
      simp [cutAt]
    | succ cut =>
      have hrest := ih cut (start + 1)
      rw [show start + 1 + cut = start + (cut + 1) by omega] at hrest
      simp only [cutAt] at hrest ⊢
      have hfront : ¬ start + (cut + 1) ≤ start := by omega
      rw [List.zipIdx_cons, List.filter_cons, List.take_succ_cons, List.drop_succ_cons,
        List.filter_cons]
      cases m.isSystemText <;> simp [hrest, hfront]

theorem fromTurn_eq_cutAt {j cut : Nat} (h : (userPositions log)[j]? = some cut) :
    fromTurn j log = cutAt cut log := by
  rw [cutAt_eq_filter cut 0]
  simp [fromTurn, h]

theorem fromTurn_sublist (j : Nat) (log : List Message) : (fromTurn j log).Sublist log := by
  have hsub := (List.filter_sublist (l := log.zipIdx) (p := fun p =>
    (userPositions log)[j]?.any (· ≤ p.2) || p.1.isSystemText)).map Prod.fst
  rwa [List.zipIdx_map_fst] at hsub

/-- A later turn begins further behind. -/
theorem userPositions_le {i j first later : Nat} (hle : i ≤ j)
    (hi : (userPositions log)[i]? = some first) (hj : (userPositions log)[j]? = some later) :
    first ≤ later := by
  obtain ⟨hilt, rfl⟩ := List.getElem?_eq_some_iff.mp hi
  obtain ⟨hjlt, rfl⟩ := List.getElem?_eq_some_iff.mp hj
  rcases Nat.eq_or_lt_of_le hle with rfl | hlt
  · exact Nat.le_refl _
  · have hascending := List.pairwise_iff_getElem.mp (userPositions_ascending log)
    exact Nat.le_of_lt (hascending i j hilt hjlt hlt)

/-- From a later turn on there is no more than from an earlier one. -/
theorem fromTurn_sublist_fromTurn {i j : Nat} (h : i ≤ j) (log : List Message) :
    (fromTurn j log).Sublist (fromTurn i log) := by
  refine (List.monotone_filter_right _ fun p hp => ?_).map _
  rw [Bool.or_eq_true] at hp ⊢
  refine hp.imp_left fun hbehind => ?_
  cases hj : (userPositions log)[j]? with
  | none => simp [hj] at hbehind
  | some later =>
    have hlt := (List.getElem?_eq_some_iff.mp hj).1
    have hi := List.getElem?_eq_getElem (Nat.lt_of_le_of_lt h hlt)
    have hle := userPositions_le h hi hj
    simp only [hj, Option.any_some, decide_eq_true_eq] at hbehind
    simpa only [hi, Option.any_some, decide_eq_true_eq] using Nat.le_trans hle hbehind

theorem length_userPositions (log : List Message) :
    (userPositions log).length = log.countP Message.isUserText := by
  have hfirst : log.countP Message.isUserText =
      (log.zipIdx.map Prod.fst).countP Message.isUserText := by rw [List.zipIdx_map_fst]
  rw [hfirst, List.countP_map, userPositions, List.length_map, List.countP_eq_length_filter]
  rfl

/-- From turn `j` on there are `j` turns less. -/
theorem turns_fromTurn {j : Nat} (hj : j < (userPositions log).length) :
    (userPositions (fromTurn j log)).length = (userPositions log).length - j := by
  have hget := List.getElem?_eq_getElem hj
  have hascending := userPositions_ascending log
  have hcount : ∀ cut, (userPositions log)[j]? = some cut →
      (fromTurn j log).countP Message.isUserText = (userPositions log).countP (cut ≤ ·) := by
    intro cut hcut
    rw [fromTurn, hcut, List.countP_map, List.countP_filter, userPositions, List.countP_map,
      List.countP_filter]
    refine List.countP_congr fun p _ => ?_
    obtain ⟨m, i⟩ := p
    cases m <;> simp [Message.isUserText, Message.isSystemText]
  rw [length_userPositions, hcount _ hget]
  generalize userPositions log = ps at hj hascending
  have horder := List.pairwise_iff_getElem.mp hascending
  have hfront : (ps.take j).countP (ps[j] ≤ ·) = 0 := by
    rw [List.countP_eq_zero]
    intro p hp
    obtain ⟨i, hi, rfl⟩ := List.mem_take_iff_getElem.mp hp
    have hlt := horder i j (by omega) hj (by omega)
    simpa using hlt
  have hbehind : (ps.drop j).countP (ps[j] ≤ ·) = (ps.drop j).length := by
    rw [List.countP_eq_length]
    intro p hp
    obtain ⟨i, hi, rfl⟩ := List.mem_drop_iff_getElem.mp hp
    rcases Nat.eq_zero_or_pos i with rfl | hpos
    · simp
    · have hlt := horder j (j + i) hj (by omega) (by omega)
      simpa using Nat.le_of_lt hlt
  have hsplit := congrArg (List.countP (ps[j] ≤ ·)) (List.take_append_drop j ps)
  rw [List.countP_append, hfront, hbehind, List.length_drop] at hsplit
  omega

/-! ## The loop -/

/-- The loop ends at the first cut that fits. -/
theorem firstFit_of_fits {cuts : List Nat} {i : Nat} (hi : i < cuts.length)
    (hfits : estimateTokens (cutAt cuts[i] log) ≤ budget)
    (hearlier : ∀ k (hk : k < i), budget < estimateTokens (cutAt cuts[k] log))
    (kept : List Message) : firstFit budget log cuts kept = cutAt cuts[i] log := by
  induction cuts generalizing i kept with
  | nil => cases hi
  | cons cut rest ih =>
    rw [firstFit]
    cases i with
    | zero => exact if_pos hfits
    | succ i =>
      have hfirst : budget < estimateTokens (cutAt cut log) := hearlier 0 (Nat.succ_pos i)
      rw [if_neg (Nat.not_le.mpr hfirst)]
      exact ih (Nat.lt_of_succ_lt_succ hi) hfits
        (fun k hk => hearlier (k + 1) (Nat.succ_lt_succ hk)) _

/-- If no cut fits, the loop ends at the last one. -/
theorem firstFit_of_none {cuts : List Nat} (hcuts : cuts ≠ [])
    (hnone : ∀ cut ∈ cuts, budget < estimateTokens (cutAt cut log)) (kept : List Message) :
    firstFit budget log cuts kept = cutAt (cuts.getLast hcuts) log := by
  induction cuts generalizing kept with
  | nil => exact absurd rfl hcuts
  | cons cut rest ih =>
    obtain ⟨hcut, hrest⟩ := List.forall_mem_cons.mp hnone
    rw [firstFit, if_neg (Nat.not_le.mpr hcut)]
    cases rest with
    | nil => rfl
    | cons next rest => exact ih (List.cons_ne_nil next rest) hrest _

/-! ## The fewest turns -/

/-- From turn `j` on, `j` not being the first, a history is within a budget. -/
def Suffices (budget : Nat) (log : List Message) (j : Nat) : Prop :=
  1 ≤ j ∧ j < (userPositions log).length ∧ exactTokens (fromTurn j log) ≤ budget

/-- What is kept of a history: the whole of it if this is within the budget, or
if there is no second turn; else all from the least turn that suffices on, or
the latest turn if none does. The system texts stay in any case. -/
structure DropsFewest (budget : Nat) (log kept : List Message) : Prop where
  whole : exactTokens log ≤ budget ∨ (userPositions log).length < 2 → kept = log
  least : ∀ j, budget < exactTokens log → Suffices budget log j →
    (∀ i < j, ¬ Suffices budget log i) → kept = fromTurn j log
  latest : budget < exactTokens log → 2 ≤ (userPositions log).length →
    (∀ j, ¬ Suffices budget log j) → kept = fromTurn ((userPositions log).length - 1) log

/-- A cut of the loop is a turn. -/
theorem cutAt_getElem_drop {i : Nat} (hi : i < ((userPositions log).drop 1).length) :
    cutAt ((userPositions log).drop 1)[i] log = fromTurn (i + 1) log := by
  have hlt : i + 1 < (userPositions log).length := by
    rw [List.length_drop] at hi
    omega
  rw [fromTurn_eq_cutAt (List.getElem?_eq_getElem hlt), List.getElem_drop]
  simp only [Nat.add_comm 1 i]

theorem dropsFewest_fitToBudget (hexact : exactTokens log ≤ Number.max32) (budget : Nat) :
    DropsFewest budget log (fitToBudget budget log) := by
  have hwhole := estimateTokens_of_sublist hexact (List.Sublist.refl log)
  have hturn := fun j => estimateTokens_of_sublist hexact (fromTurn_sublist j log)
  have hover : budget < exactTokens log →
      fitToBudget budget log = firstFit budget log ((userPositions log).drop 1) log := by
    intro h
    rw [fitToBudget, hwhole, if_neg (Nat.not_le.mpr h), turnStarts_eq_userPositions]
  have htight : ∀ i (hi : i < ((userPositions log).drop 1).length),
      ¬ Suffices budget log (i + 1) →
        budget < estimateTokens (cutAt ((userPositions log).drop 1)[i] log) := by
    intro i hi hnot
    rw [cutAt_getElem_drop hi, hturn]
    rw [List.length_drop] at hi
    exact Nat.not_le.mp fun hfits => hnot ⟨by omega, by omega, hfits⟩
  constructor
  case whole =>
    intro h
    by_cases hfits : exactTokens log ≤ budget
    · rw [fitToBudget, hwhole, if_pos hfits]
    · have hnone : (userPositions log).drop 1 = [] :=
        List.drop_eq_nil_of_le (by omega)
      rw [hover (Nat.not_le.mp hfits), hnone]
      rfl
  case least =>
    rintro j hlarge ⟨hpos, hlt, hfits⟩ hearlier
    obtain ⟨i, rfl⟩ : ∃ i, j = i + 1 := ⟨j - 1, by omega⟩
    have hi : i < ((userPositions log).drop 1).length := by
      rw [List.length_drop]
      omega
    rw [hover hlarge, ← cutAt_getElem_drop hi]
    refine firstFit_of_fits hi ?_ (fun k hk => ?_) log
    · rw [cutAt_getElem_drop hi, hturn]
      exact hfits
    · exact htight k (Nat.lt_trans hk hi) (hearlier (k + 1) (by omega))
  case latest =>
    intro hlarge htwo hnone
    have hlength : ((userPositions log).drop 1).length = (userPositions log).length - 1 :=
      List.length_drop
    have hcuts : (userPositions log).drop 1 ≠ [] := List.ne_nil_of_length_pos (by omega)
    rw [hover hlarge, firstFit_of_none hcuts, List.getLast_eq_getElem, cutAt_getElem_drop]
    · congr 1
      omega
    · intro cut hcut
      obtain ⟨i, hi, rfl⟩ := List.getElem_of_mem hcut
      exact htight i hi (hnone (i + 1))

/-- The first turn that is kept when a history is cut: no turn in front of it
suffices, and it does itself or is the latest. -/
def KeptFrom (budget : Nat) (log : List Message) (j : Nat) : Prop :=
  j < (userPositions log).length ∧ (∀ i < j, ¬ Suffices budget log i) ∧
    (Suffices budget log j ∨ j + 1 = (userPositions log).length)

/-- A history is kept whole or cut at one turn. -/
theorem fitToBudget_whole_or_cut (hexact : exactTokens log ≤ Number.max32) (budget : Nat) :
    (exactTokens log ≤ budget ∨ (userPositions log).length < 2) ∧ fitToBudget budget log = log ∨
      budget < exactTokens log ∧ 2 ≤ (userPositions log).length ∧
        ∃ j, KeptFrom budget log j ∧ fitToBudget budget log = fromTurn j log := by
  have h := dropsFewest_fitToBudget hexact budget
  by_cases hwhole : exactTokens log ≤ budget ∨ (userPositions log).length < 2
  · exact Or.inl ⟨hwhole, h.whole hwhole⟩
  · rw [not_or, Nat.not_le, Nat.not_lt] at hwhole
    obtain ⟨hlarge, htwo⟩ := hwhole
    refine Or.inr ⟨hlarge, htwo, ?_⟩
    by_cases hany : ∃ j, Suffices budget log j
    · classical
      have hleast : ∀ i < Nat.find hany, ¬ Suffices budget log i := fun i => Nat.find_min hany
      have hfound := Nat.find_spec hany
      exact ⟨_, ⟨hfound.2.1, hleast, Or.inl hfound⟩, h.least _ hlarge hfound hleast⟩
    · have hnone := not_exists.mp hany
      refine ⟨_, ⟨?_, fun i _ => hnone i, Or.inr ?_⟩, h.latest hlarge htwo hnone⟩ <;> omega

/-- Fitting what was fitted changes nothing. -/
theorem fitToBudget_twice (hexact : exactTokens log ≤ Number.max32) (budget : Nat) :
    fitToBudget budget (fitToBudget budget log) = fitToBudget budget log := by
  rcases fitToBudget_whole_or_cut hexact budget with
    ⟨-, hkeep⟩ | ⟨-, -, j, ⟨hlt, -, hfits | hlatest⟩, hkeep⟩
  · rw [hkeep, hkeep]
  all_goals
    have hpart := Nat.le_trans (exactTokens_le_of_sublist (fromTurn_sublist j log)) hexact
    rw [hkeep]
    refine (dropsFewest_fitToBudget hpart budget).whole ?_
  · exact Or.inl hfits.2.2
  · -- the latest turn alone has no second turn that could go
    rw [turns_fromTurn hlt]
    exact Or.inr (by omega)

/-- Within a greater budget no message is kept less. -/
theorem fitToBudget_sublist (hexact : exactTokens log ≤ Number.max32) {small large : Nat}
    (h : small ≤ large) : (fitToBudget small log).Sublist (fitToBudget large log) := by
  rcases fitToBudget_whole_or_cut hexact large with
    ⟨-, hlarge⟩ | ⟨hover, htwo, j, ⟨hjlt, hleast, -⟩, hlarge⟩
  · rw [hlarge]
    exact (keeps_fitToBudget small log).order
  · rcases fitToBudget_whole_or_cut hexact small with
      ⟨hwhole, -⟩ | ⟨-, -, i, ⟨-, -, hi⟩, hkeep⟩
    · omega
    · have hle : j ≤ i := by
        rcases hi with ⟨hpos, hlt, hfits⟩ | hlatest
        · refine Nat.not_lt.mp fun hij => hleast i hij ⟨hpos, hlt, ?_⟩
          exact Nat.le_trans hfits h
        · omega
      rw [hlarge, hkeep]
      exact fromTurn_sublist_fromTurn hle log

/-- What a budget costs a history whose tokens can be counted in 32 bits, so that
the count of every part is exact: the fewest oldest turns that bring it within
the budget. Fitting to a budget a second time changes nothing, and a greater
budget keeps all that a smaller one keeps, so no fewer messages. -/
theorem fitToBudget_drops_fewest (log : List Message)
    (hexact : exactTokens log ≤ Number.max32) :
    (∀ part : List Message, part.Sublist log → estimateTokens part = exactTokens part) ∧
    (∀ budget, DropsFewest budget log (fitToBudget budget log) ∧
      fitToBudget budget (fitToBudget budget log) = fitToBudget budget log) ∧
    ∀ small large, small ≤ large →
      (fitToBudget small log).Sublist (fitToBudget large log) ∧
        (fitToBudget small log).length ≤ (fitToBudget large log).length := by
  refine ⟨fun part => estimateTokens_of_sublist hexact, fun budget => ?_, fun small large h => ?_⟩
  · exact ⟨dropsFewest_fitToBudget hexact budget, fitToBudget_twice hexact budget⟩
  · have hsub := fitToBudget_sublist hexact h
    exact ⟨hsub, hsub.length_le⟩

/-- Three turns behind a greeting, with a system text and a call in the second
one. -/
def threeTurns : List Message :=
  [.assistantText ⟨"welcome", by decide⟩, .userText ⟨"yo", by decide⟩,
   .assistantText ⟨"hello", by decide⟩, .userText ⟨"and now?", by decide⟩,
   .systemText ⟨"be terse", by decide⟩, .toolCall ⟨"k1", by decide⟩ ⟨"seek", by decide⟩ .null,
   .toolResult ⟨"k1", by decide⟩ .ok .null, .userText ⟨"so on", by decide⟩]

/-- With 42 tokens in all, a budget of 41 is met from the second turn on, and
one of 11 from the third on, where the system text stands in front. No turn
meets a budget of 10, so it keeps the third one, and no more the second
time. -/
theorem budgets_of_three_turns :
    exactTokens threeTurns ≤ Number.max32 ∧
    fitToBudget 41 threeTurns = fromTurn 1 threeTurns ∧
    fitToBudget 11 threeTurns = fromTurn 2 threeTurns ∧
    fitToBudget 10 threeTurns = fromTurn 2 threeTurns ∧
    fitToBudget 10 (fitToBudget 10 threeTurns) = fromTurn 2 threeTurns ∧
    (fitToBudget 10 threeTurns).Sublist (fitToBudget 41 threeTurns) := by
  have hexact : exactTokens threeTurns ≤ Number.max32 := by decide +kernel
  obtain ⟨-, hfit, hgrows⟩ := fitToBudget_drops_fewest threeTurns hexact
  have hturns : (userPositions threeTurns).length = 3 := by decide +kernel
  have htokens : exactTokens threeTurns = 42 ∧ exactTokens (fromTurn 1 threeTurns) = 28 ∧
      exactTokens (fromTurn 2 threeTurns) = 11 := by decide +kernel
  obtain ⟨hall, hsecond, hthird⟩ := htokens
  have hlatest : fitToBudget 10 threeTurns = fromTurn 2 threeTurns := by
    have hkept := (hfit 10).1.latest (by omega) (by omega) fun j ⟨hpos, hlt, hfits⟩ => by
      have hj : j = 1 ∨ j = 2 := by omega
      rcases hj with rfl | rfl <;> omega
    rwa [hturns] at hkept
  refine ⟨hexact, ?_, ?_, hlatest, (hfit 10).2.trans hlatest, (hgrows 10 41 (by decide)).1⟩
  · refine (hfit 41).1.least 1 (by omega) ⟨by decide, by omega, by omega⟩ fun i hi hsuffices => ?_
    exact absurd hsuffices.1 (by omega)
  · refine (hfit 11).1.least 2 (by omega) ⟨by decide, by omega, by omega⟩ fun i hi hsuffices => ?_
    obtain ⟨hpos, -, hfits⟩ := hsuffices
    have hone : i = 1 := by omega
    rw [hone] at hfits
    omega

end AgentLoop.Context
