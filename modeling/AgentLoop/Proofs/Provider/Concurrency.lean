/-
AgentLoop.Proofs.Provider.Concurrency — what requests that are under way at the
same time do to the cursor of their chain.

* `Course.phase_stays`, `Course.refused_since` — a request stays where its own
  last step left it
* `FailsOver` — under failover the cursor moves slot by slot, each slot past a
  member that failed there, and once only
* `GoesRound`, `countP_residue` — in turn, each member is the first to be asked as
  often as any other, but for one request
* `concurrent_requests` — this holds of all courses, as long as the counter of
  the cursor does not begin again at zero

The cursor is read when a request starts and moved when a member has failed,
with any steps of others in between. What ties the two together is that no
request is at a slot that the cursor has not come to.
-/
import Mathlib.Data.Int.CardIntervalMod
import AgentLoop.Proofs.Provider.Requests

namespace AgentLoop.Chain

variable {ι : Type} [DecidableEq ι] {members : Nat}

/-! ## Single steps -/

theorem slotAfter_le (slot offset : Nat) : Cursor.slotAfter slot offset ≤ slot + offset :=
  Nat.mod_le _ _

theorem slotAfter_one {slot : Nat} (h : slot + 1 < Cursor.slots) :
    Cursor.slotAfter slot 1 = slot + 1 := Cursor.slotAfter_of_lt h

/-- A slot further on is at most the next one. -/
theorem slotAfter_succ_le (slot offset : Nat) :
    Cursor.slotAfter slot (offset + 1) ≤ Cursor.slotAfter slot offset + 1 := by
  rw [← Cursor.slotAfter_slotAfter]
  exact slotAfter_le _ 1

/-- No counter is its own successor. -/
theorem slotAfter_one_ne (slot : Nat) : Cursor.slotAfter slot 1 ≠ slot := by
  simp only [Cursor.slotAfter, Cursor.slots, Number.max64]
  omega

/-- Every request is at a slot that the cursor has come to. -/
def Traffic.Behind (t : Traffic ι) : Prop :=
  ∀ i slot, (t.phase i).slot? = some slot → slot ≤ t.cursor.index

namespace Step

variable {t t' : Traffic ι} {e : Event ι}

theorem strategy (h : Step members t e t') : t'.cursor.strategy = t.cursor.strategy := by
  cases h with
  | start hphase =>
    simp only [Traffic.cursor_place, Cursor.start]
    split <;> rfl
  | answer hphase result => rfl
  | move hphase =>
    simp only [Traffic.cursor_place, Cursor.advancePast]
    split <;> rfl
  | rest => rfl

/-- A request is moved by its own steps only. -/
theorem phase_of_other (h : Step members t e t') {i : ι} (hother : e.request? ≠ some i) :
    t'.phase i = t.phase i := by
  cases h with
  | rest => rfl
  | _ =>
    refine Traffic.phase_place_of_ne _ (fun hi => hother ?_) _
    rw [hi]
    rfl

/-- A request has yet to move the cursor when it has heard of a failure that may
pass. -/
theorem answered_of_refused (h : Step members t e t') {i : ι} (hown : e.request? = some i)
    {first offset : Nat} {error : ProviderError}
    (hphase : t'.phase i = .refused first offset error) :
    error.retryable = true ∧ e = .answered i (Cursor.slotAfter first offset)
      (Cursor.slotAfter first offset % members) (.error error) := by
  cases h with
  | rest => cases hown
  | start hwaits =>
    cases hown
    rw [Traffic.phase_place_self] at hphase
    cases hphase
  | move hrefused =>
    cases hown
    rw [Traffic.phase_place_self, Phase.past] at hphase
    split at hphase <;> cases hphase
  | answer hasks result =>
    cases hown
    rw [Traffic.phase_place_self] at hphase
    cases result with
    | ok reply => cases hphase
    | error err =>
      rw [Phase.answered] at hphase
      split at hphase
      · cases hphase
        exact ⟨‹_›, rfl⟩
      · cases hphase

/-- A request moves the cursor when it is to. -/
theorem refused_of_moved {i : ι} {slot : Nat} (h : Step members t (.moved i slot) t') :
    ∃ first offset error,
      t.phase i = .refused first offset error ∧ slot = Cursor.slotAfter first offset := by
  cases h with
  | move hrefused => exact ⟨_, _, _, hrefused, rfl⟩

/-- A request that starts takes the slot of the cursor and asks the member
there. -/
theorem asking_of_started {i : ι} {slot member : Nat}
    (h : Step members t (.started i slot member) t') :
    slot = t.cursor.index ∧ member = Cursor.slotAfter slot 0 % members ∧
      t.phase i = .waiting ∧ t'.phase i = .asking slot 0 := by
  cases h with
  | start hwaits =>
    refine ⟨?_, rfl, hwaits, Traffic.phase_place_self ..⟩
    rw [Cursor.start]
    split <;> rfl

/-- A request that gets an answer has asked for it. -/
theorem asking_of_answered {i : ι} {slot member : Nat} {r : ProviderResult}
    (h : Step members t (.answered i slot member r) t') :
    ∃ first offset, t.phase i = .asking first offset ∧ slot = Cursor.slotAfter first offset ∧
      member = slot % members := by
  cases h with
  | answer hasks => exact ⟨_, _, hasks, rfl, rfl⟩

/-- No request waits to be started twice. -/
theorem not_waiting (h : Step members t e t') {i : ι} (hi : t.phase i ≠ .waiting) :
    t'.phase i ≠ .waiting := by
  by_cases hown : e.request? = some i
  · cases h with
    | rest => cases hown
    | start hwaits =>
      cases hown
      rw [Traffic.phase_place_self]
      rintro ⟨⟩
    | answer hasks result =>
      cases hown
      rw [Traffic.phase_place_self]
      unfold Phase.answered
      repeat' split
      all_goals rintro ⟨⟩
    | move hrefused =>
      cases hown
      rw [Traffic.phase_place_self, Phase.past]
      split <;> rintro ⟨⟩
  · rw [h.phase_of_other hown]
    exact hi

/-- Under failover only a request that heard of a failure moves the cursor: past
its slot, if the cursor is still there. -/
theorem index_failover (h : Step members t e t') (hstrategy : t.cursor.strategy = .failover) :
    t'.cursor.index = t.cursor.index ∨ ∃ i first offset error,
      t.phase i = .refused first offset error ∧
        e = .moved i (Cursor.slotAfter first offset) ∧
        t.cursor.index = Cursor.slotAfter first offset ∧
        t'.cursor.index = Cursor.slotAfter t.cursor.index 1 := by
  cases h with
  | start hwaits =>
    left
    simp only [Traffic.cursor_place, Cursor.start, hstrategy]
  | answer hasks result => exact Or.inl rfl
  | @move i first offset error hrefused =>
    by_cases hthere : t.cursor.index = Cursor.slotAfter first offset
    · refine Or.inr ⟨i, first, offset, error, hrefused, rfl, hthere, ?_⟩
      simp [Cursor.advancePast, hstrategy, hthere]
    · left
      simp [Cursor.advancePast, hthere]
  | rest => exact Or.inl rfl

/-- In turn the cursor moves with each request that starts, -/
theorem index_of_started (hstrategy : t.cursor.strategy = .roundRobin) {i : ι} {slot member : Nat}
    (h : Step members t (.started i slot member) t') :
    t'.cursor.index = Cursor.slotAfter t.cursor.index 1 := by
  cases h with
  | start hwaits => simp only [Traffic.cursor_place, Cursor.start, hstrategy]

/-- and with nothing else. -/
theorem index_of_not_started (h : Step members t e t')
    (hstrategy : t.cursor.strategy = .roundRobin)
    (hnone : ∀ i slot member, e ≠ .started i slot member) :
    t'.cursor.index = t.cursor.index := by
  cases h with
  | start hwaits => exact absurd rfl (hnone _ _ _)
  | answer hasks result => rfl
  | move hrefused => simp [Cursor.advancePast, hstrategy]
  | rest => rfl

/-- The cursor does not go back. -/
theorem index_le (h : Step members t e t') (hstrategy : t.cursor.strategy = .failover)
    (hwrap : t'.cursor.index ≠ t.cursor.index → t.cursor.index + 1 < Cursor.slots) :
    t.cursor.index ≤ t'.cursor.index := by
  by_cases hsame : t'.cursor.index = t.cursor.index
  · exact Nat.le_of_eq hsame.symm
  · obtain ⟨_, _, _, _, -, -, -, hnext⟩ := (h.index_failover hstrategy).resolve_left hsame
    rw [hnext, slotAfter_one (hwrap hsame)]
    exact Nat.le_succ _

/-- Behind its move of the cursor a request is past its slot. -/
theorem slot_lt_of_moved {i : ι} {slot : Nat} (h : Step members t (.moved i slot) t')
    (hstrategy : t.cursor.strategy = .failover) (hbehind : t.Behind)
    (hwrap : t'.cursor.index ≠ t.cursor.index → t.cursor.index + 1 < Cursor.slots) :
    slot < t'.cursor.index := by
  have hle := h.index_le hstrategy hwrap
  cases h with
  | move hrefused =>
    have hslot := hbehind i _ (congrArg Phase.slot? hrefused)
    rcases Nat.eq_or_lt_of_le hslot with heq | hlt
    · simp only [Traffic.cursor_place, Cursor.advancePast, hstrategy, ← heq, decide_true,
        Bool.and_self, if_true] at hwrap ⊢
      have hsmall := hwrap (slotAfter_one_ne _)
      rw [slotAfter_one hsmall]
      exact Nat.lt_succ_self _
    · exact Nat.lt_of_lt_of_le hlt hle

/-- No step brings a request in front of the cursor. -/
theorem behind (h : Step members t e t') (hstrategy : t.cursor.strategy = .failover)
    (hbehind : t.Behind)
    (hwrap : t'.cursor.index ≠ t.cursor.index → t.cursor.index + 1 < Cursor.slots) :
    t'.Behind := by
  have hle := h.index_le hstrategy hwrap
  intro j slot hslot
  by_cases hown : e.request? = some j
  · cases h with
    | rest => cases hown
    | start hwaits =>
      cases hown
      rw [Traffic.phase_place_self] at hslot
      cases hslot
      simp only [Traffic.cursor_place, Cursor.start, hstrategy]
      exact slotAfter_le _ 0
    | answer hasks result =>
      cases hown
      have hsame := hbehind j _ (congrArg Phase.slot? hasks)
      rw [Traffic.phase_place_self] at hslot
      rw [Phase.slot?_answered hslot]
      exact hsame
    | @move _ first offset error hrefused =>
      cases hown
      have hpast := slot_lt_of_moved (.move hrefused) hstrategy hbehind hwrap
      rw [Traffic.phase_place_self, Phase.past] at hslot
      split at hslot
      · cases hslot
        exact Nat.le_trans (slotAfter_succ_le first offset) hpast
      · cases hslot
  · rw [h.phase_of_other hown] at hslot
    exact Nat.le_trans (hbehind j slot hslot) hle

end Step

/-! ## Numbers in a row -/

theorem countP_range'_add_count (p : Nat → Prop) [DecidablePred p] (base count : Nat) :
    (List.range' base count).countP p + Nat.count p base = Nat.count p (base + count) := by
  induction count with
  | zero => simp
  | succ count ih =>
    rw [List.range'_1_concat, List.countP_append, ← Nat.add_assoc, Nat.count_succ, ← ih]
    simp [List.countP_singleton]
    omega

/-- A fraction that is rounded up. -/
theorem div_rounded_up {n : Nat} (hn : 0 < n) (count : Nat) :
    (count + n - 1) / n = count / n + if count % n = 0 then 0 else 1 := by
  have hsplit := Nat.add_div (a := count) (b := n - 1) hn
  have hsmall : (n - 1) / n = 0 := Nat.div_eq_of_lt (by omega)
  have hrest : (n - 1) % n = n - 1 := Nat.mod_eq_of_lt (by omega)
  rw [show count + n - 1 = count + (n - 1) by omega, hsplit, hsmall, hrest]
  have hlt := Nat.mod_lt count hn
  split <;> split <;> omega

/-- Among numbers in a row each residue is found as often as any other, but for
one time. -/
theorem countP_residue {n m : Nat} (hm : m < n) (base count : Nat) :
    (List.range' base count).countP (· % n = m) = count / n ∨
      (List.range' base count).countP (· % n = m) = (count + n - 1) / n := by
  have hn : 0 < n := by omega
  have hresidue : ∀ k, (k ≡ m [MOD n]) = (k % n = m) := by
    intro k
    rw [Nat.ModEq, Nat.mod_eq_of_lt hm]
  have hcount : ∀ k, Nat.count (· % n = m) k = k / n + if m < k % n then 1 else 0 := by
    intro k
    have h := Nat.count_modEq_card k hn m
    simpa only [hresidue, Nat.mod_eq_of_lt hm] using h
  have hsum := countP_range'_add_count (· % n = m) base count
  rw [hcount, hcount, Nat.add_div hn, Nat.add_mod] at hsum
  rw [div_rounded_up hn]
  have hbase := Nat.mod_lt base hn
  have hrest := Nat.mod_lt count hn
  generalize base % n = b at *
  generalize count % n = r at *
  by_cases hover : n ≤ b + r
  · have hmod : (b + r) % n = b + r - n := by
      rw [Nat.mod_eq_sub_mod hover, Nat.mod_eq_of_lt (by omega)]
    rw [hmod] at hsum
    split_ifs at hsum ⊢ <;> omega
  · rw [Nat.mod_eq_of_lt (Nat.not_le.mp hover)] at hsum
    split_ifs at hsum ⊢ <;> omega

namespace Course

variable {c : Course ι members}

/-! ## Courses -/

/-- The slot that the cursor is at. -/
def index (c : Course ι members) (k : Nat) : Nat := (c.state k).cursor.index

/-- Wherever the cursor moves, its counter has a successor. -/
def Unwrapped (c : Course ι members) : Prop :=
  ∀ k, c.index (k + 1) ≠ c.index k → c.index k + 1 < Cursor.slots

/-- A request hears from the member at a slot that it failed, but not for
good. -/
def Refuses (c : Course ι members) (k : Nat) (i : ι) (slot : Nat) : Prop :=
  ∃ e : ProviderError, e.retryable = true ∧
    c.event k = .answered i slot (slot % members) (.error e)

theorem strategy_stays (c : Course ι members) (k : Nat) :
    (c.state k).cursor.strategy = (c.state 0).cursor.strategy := by
  induction k with
  | zero => rfl
  | succ k ih => exact (c.step k).strategy.trans ih

/-- A request stays where its last step left it. -/
theorem phase_stays {i : ι} {j k : Nat} (hlt : j < k)
    (hquiet : ∀ l, j < l → l < k → (c.event l).request? ≠ some i) :
    (c.state k).phase i = (c.state (j + 1)).phase i := by
  induction k with
  | zero => cases hlt
  | succ k ih =>
    rcases Nat.eq_or_lt_of_le (Nat.le_of_lt_succ hlt) with rfl | hlt
    · rfl
    · rw [(c.step k).phase_of_other (hquiet k hlt (Nat.lt_succ_self k))]
      exact ih hlt fun l hjl hlk => hquiet l hjl (Nat.lt_succ_of_lt hlk)

/-- A request that has yet to move the cursor has just heard of a failure. -/
theorem refused_since (hfresh : ∀ i, (c.state 0).phase i = .waiting) {k : Nat} {i : ι}
    {first offset : Nat} {e : ProviderError} (h : (c.state k).phase i = .refused first offset e) :
    ∃ j < k, c.Refuses j i (Cursor.slotAfter first offset) ∧
      ∀ l, j < l → l < k → (c.event l).request? ≠ some i := by
  induction k with
  | zero =>
    rw [hfresh i] at h
    cases h
  | succ k ih =>
    by_cases hown : (c.event k).request? = some i
    · obtain ⟨hretry, hevent⟩ := (c.step k).answered_of_refused hown h
      exact ⟨k, Nat.lt_succ_self k, ⟨e, hretry, hevent⟩, fun l hkl hl => by omega⟩
    · rw [(c.step k).phase_of_other hown] at h
      obtain ⟨j, hj, hrefuses, hquiet⟩ := ih h
      refine ⟨j, Nat.lt_succ_of_lt hj, hrefuses, fun l hjl hl => ?_⟩
      rcases Nat.eq_or_lt_of_le (Nat.le_of_lt_succ hl) with rfl | hlt
      · exact hown
      · exact hquiet l hjl hlt

/-! ## Failover -/

/-- How the cursor moves under failover. -/
structure FailsOver (c : Course ι members) : Prop where
  /-- It does not go back. -/
  grows : ∀ k l, k ≤ l → c.index k ≤ c.index l
  /-- It is moved by one, by a request that has heard of a failure at its slot, one
  that may pass, and has done nothing since. -/
  moves : ∀ k, c.index (k + 1) ≠ c.index k → c.index (k + 1) = c.index k + 1 ∧
    ∃ i, c.event k = .moved i (c.index k) ∧ ∃ j < k, c.Refuses j i (c.index k) ∧
      ∀ l, j < l → l < k → (c.event l).request? ≠ some i
  /-- A request that was to move it past a slot has heard of a failure there, and
  from then on it is past that slot. -/
  past : ∀ k i slot, c.event k = .moved i slot →
    (∃ j < k, c.Refuses j i slot) ∧ ∀ l, k < l → slot + 1 ≤ c.index l
  /-- It is moved past a slot once only. -/
  once : ∀ k l, c.index (k + 1) ≠ c.index k → c.index (l + 1) ≠ c.index l →
    c.index k = c.index l → k = l
  /-- A request starts with the slot of the cursor, and at every slot that this has
  left behind some request has heard of a failure that may pass. -/
  starts : ∀ k i slot member, c.event k = .started i slot member →
    slot = c.index k ∧ ∀ p, c.index 0 ≤ p → p < slot → ∃ j < k, ∃ i', c.Refuses j i' p

section Failover

variable (hfresh : ∀ i, (c.state 0).phase i = .waiting) (hwrap : c.Unwrapped)
  (hstrategy : (c.state 0).cursor.strategy = .failover)

include hwrap hstrategy

theorem index_le_of_le {k l : Nat} (h : k ≤ l) : c.index k ≤ c.index l := by
  induction l, h using Nat.le_induction with
  | base => exact Nat.le_refl _
  | succ l _ ih =>
    exact Nat.le_trans ih ((c.step l).index_le ((c.strategy_stays l).trans hstrategy) (hwrap l))

include hfresh

theorem behind_cursor (k : Nat) : (c.state k).Behind := by
  induction k with
  | zero =>
    intro i slot hslot
    rw [hfresh i] at hslot
    cases hslot
  | succ k ih => exact (c.step k).behind ((c.strategy_stays k).trans hstrategy) ih (hwrap k)

theorem moved_by_refused {k : Nat} (h : c.index (k + 1) ≠ c.index k) :
    c.index (k + 1) = c.index k + 1 ∧
      ∃ i, c.event k = .moved i (c.index k) ∧ ∃ j < k, c.Refuses j i (c.index k) ∧
        ∀ l, j < l → l < k → (c.event l).request? ≠ some i := by
  obtain ⟨i, first, offset, e, hphase, hevent, hslot, hnext⟩ :=
    ((c.step k).index_failover ((c.strategy_stays k).trans hstrategy)).resolve_left h
  obtain ⟨j, hj, hrefuses, hquiet⟩ := refused_since hfresh hphase
  rw [← hslot] at hevent hrefuses
  exact ⟨hnext.trans (slotAfter_one (hwrap k h)), i, hevent, j, hj, hrefuses, hquiet⟩

/-- No slot is left behind without a failure there. -/
theorem refused_of_left_behind {k p : Nat} (hfirst : c.index 0 ≤ p) (hp : p < c.index k) :
    ∃ j < k, ∃ i, c.Refuses j i p := by
  induction k with
  | zero => omega
  | succ k ih =>
    by_cases hbefore : p < c.index k
    · obtain ⟨j, hj, hrefuses⟩ := ih hbefore
      exact ⟨j, Nat.lt_succ_of_lt hj, hrefuses⟩
    · obtain ⟨hnext, i, -, j, hj, hrefuses, -⟩ :=
        moved_by_refused hfresh hwrap hstrategy (k := k) (by omega)
      have hthere : c.index k = p := by omega
      rw [hthere] at hrefuses
      exact ⟨j, Nat.lt_succ_of_lt hj, i, hrefuses⟩

theorem failsOver : c.FailsOver := by
  have hgrows : ∀ k l, k ≤ l → c.index k ≤ c.index l :=
    fun k l h => index_le_of_le hwrap hstrategy h
  have hmoves := fun k => moved_by_refused hfresh hwrap hstrategy (k := k)
  have hkept := fun k => (c.strategy_stays k).trans hstrategy
  constructor
  case grows => exact hgrows
  case moves => exact hmoves
  case past =>
    intro k i slot hevent
    have hstep := c.step k
    rw [hevent] at hstep
    constructor
    · obtain ⟨first, offset, e, hphase, rfl⟩ := hstep.refused_of_moved
      obtain ⟨j, hj, hrefuses, -⟩ := refused_since hfresh hphase
      exact ⟨j, hj, hrefuses⟩
    · intro l hl
      have hpast := hstep.slot_lt_of_moved (hkept k) (behind_cursor hfresh hwrap hstrategy k)
        (hwrap k)
      exact Nat.le_trans hpast (hgrows (k + 1) l hl)
  case once =>
    have hlater : ∀ k l, k < l → c.index (k + 1) ≠ c.index k → c.index k ≠ c.index l := by
      intro k l hkl hk
      have hnext := (hmoves k hk).1
      have hle := hgrows (k + 1) l hkl
      omega
    intro k l hk hl hsame
    rcases Nat.lt_trichotomy k l with hkl | hkl | hkl
    · exact absurd hsame (hlater k l hkl hk)
    · exact hkl
    · exact absurd hsame.symm (hlater l k hkl hl)
  case starts =>
    intro k i slot member hevent
    have hslot : slot = c.index k := by
      have hstep := c.step k
      rw [hevent] at hstep
      exact hstep.asking_of_started.1
    refine ⟨hslot, fun p hfirst hp => ?_⟩
    rw [hslot] at hp
    exact refused_of_left_behind hfresh hwrap hstrategy hfirst hp

end Failover

/-! ## In turn -/

/-- The start of a request: which one, its slot, and the member that it asks
first. -/
structure Start (ι : Type) where
  request : ι
  slot : Nat
  member : Nat

/-- The start that a step is. -/
def start? : Event ι → Option (Start ι)
  | .started i slot member => some ⟨i, slot, member⟩
  | _ => none

/-- The requests that have started by then, in their order. -/
def starts (c : Course ι members) (k : Nat) : List (Start ι) :=
  (List.range k).filterMap fun j => start? (c.event j)

theorem starts_succ (c : Course ι members) (k : Nat) :
    c.starts (k + 1) = c.starts k ++ (start? (c.event k)).toList := by
  rw [starts, List.range_succ, List.filterMap_append]
  cases h : start? (c.event k) <;> simp [starts, h]

/-- How the members are asked in turn. -/
structure GoesRound (c : Course ι members) : Prop where
  /-- No request starts twice. -/
  requests : ∀ k, ((c.starts k).map (·.request)).Nodup
  /-- The requests get one slot after the other. -/
  slots : ∀ k, (c.starts k).map (·.slot) = List.range' (c.index 0) (c.starts k).length
  /-- A request asks the member behind its slot. -/
  asked : ∀ k, ∀ s ∈ c.starts k, s.member = s.slot % members
  /-- The first answer that a request gets is one of that member. -/
  first : ∀ j k i slot member slot' member' result, j < k →
    c.event j = .started i slot member → c.event k = .answered i slot' member' result →
      (∀ l, j < l → l < k → (c.event l).request? ≠ some i) → slot' = slot ∧ member' = member
  /-- Every member is asked first by its share of the requests, a fraction rounded
  down or up. -/
  shares : ∀ k m, m < members →
    (c.starts k).countP (·.member = m) = (c.starts k).length / members ∨
      (c.starts k).countP (·.member = m) = ((c.starts k).length + members - 1) / members

section RoundRobin

variable (hwrap : c.Unwrapped) (hstrategy : (c.state 0).cursor.strategy = .roundRobin)

include hwrap hstrategy

/-- A start takes the slot of the cursor, and moves the cursor by one. -/
theorem started_at_cursor {k slot member : Nat} {i : ι} (h : c.event k = .started i slot member) :
    slot = c.index k ∧ member = slot % members ∧ Cursor.slotAfter slot 0 = slot ∧
      c.index (k + 1) = c.index k + 1 := by
  have hstep := c.step k
  rw [h] at hstep
  have hnext : c.index (k + 1) = Cursor.slotAfter (c.index k) 1 :=
    hstep.index_of_started ((c.strategy_stays k).trans hstrategy)
  have hsmall := hwrap k (hnext ▸ slotAfter_one_ne _)
  obtain ⟨hslot, hmember, -, -⟩ := hstep.asking_of_started
  have hzero : Cursor.slotAfter slot 0 = slot := by
    rw [hslot]
    exact Nat.mod_eq_of_lt (Nat.lt_of_succ_lt hsmall)
  rw [hzero] at hmember
  exact ⟨hslot, hmember, hzero, hnext.trans (slotAfter_one hsmall)⟩

/-- The starts take one slot after the other. -/
theorem slots_of_starts (k : Nat) :
    (c.starts k).map (·.slot) = List.range' (c.index 0) (c.starts k).length ∧
      c.index k = c.index 0 + (c.starts k).length ∧
        ∀ s ∈ c.starts k, s.member = s.slot % members := by
  induction k with
  | zero => exact ⟨rfl, rfl, nofun⟩
  | succ k ih =>
    obtain ⟨hslots, hindex, hmembers⟩ := ih
    rw [starts_succ]
    cases hevent : c.event k with
    | started i slot member =>
      obtain ⟨hslot, hmember, -, hnext⟩ := started_at_cursor hwrap hstrategy hevent
      rw [start?, Option.toList_some]
      refine ⟨?_, ?_, ?_⟩
      · rw [List.map_append, hslots, List.length_append, List.length_singleton,
          List.range'_1_concat, ← hindex, ← hslot]
        rfl
      · rw [hnext, hindex, List.length_append, List.length_singleton, Nat.add_assoc]
      · intro s hs
        rcases List.mem_append.mp hs with hs | hs
        · exact hmembers s hs
        · rw [List.mem_singleton.mp hs]
          exact hmember
    | _ =>
      have hsame : c.index (k + 1) = c.index k :=
        (c.step k).index_of_not_started ((c.strategy_stays k).trans hstrategy)
          (by simp [hevent])
      simpa [start?, hslots, hsame, hindex] using hmembers

end RoundRobin

theorem started_not_waiting (k : Nat) :
    ∀ s ∈ c.starts k, (c.state k).phase s.request ≠ .waiting := by
  induction k with
  | zero => nofun
  | succ k ih =>
    have hstep := c.step k
    intro s hs
    rw [starts_succ] at hs
    rcases List.mem_append.mp hs with hs | hs
    · exact hstep.not_waiting (ih s hs)
    · cases hevent : c.event k with
      | started i slot member =>
        rw [hevent] at hstep hs
        rw [List.mem_singleton.mp hs, hstep.asking_of_started.2.2.2]
        nofun
      | _ =>
        rw [hevent] at hs
        cases hs

theorem requests_nodup (k : Nat) : ((c.starts k).map (·.request)).Nodup := by
  induction k with
  | zero => exact List.nodup_nil
  | succ k ih =>
    have hstep := c.step k
    rw [starts_succ]
    cases hevent : c.event k with
    | started i slot member =>
      rw [hevent] at hstep
      obtain ⟨-, -, hwaits, -⟩ := hstep.asking_of_started
      rw [start?, Option.toList_some, List.map_append, List.nodup_append]
      refine ⟨ih, List.nodup_singleton _, ?_⟩
      rintro j hj _ hi rfl
      obtain ⟨s, hs, rfl⟩ := List.mem_map.mp hj
      refine started_not_waiting k s hs ?_
      rw [List.mem_singleton.mp hi]
      exact hwaits
    | _ => simpa [start?] using ih

theorem goesRound (hwrap : c.Unwrapped) (hstrategy : (c.state 0).cursor.strategy = .roundRobin) :
    c.GoesRound := by
  have hstarts := slots_of_starts hwrap hstrategy
  constructor
  case requests => exact requests_nodup
  case slots => exact fun k => (hstarts k).1
  case asked => exact fun k => (hstarts k).2.2
  case first =>
    intro j k i slot member slot' member' result hlt hstarted hanswered hquiet
    have hstart := c.step j
    have hanswer := c.step k
    rw [hstarted] at hstart
    rw [hanswered] at hanswer
    obtain ⟨-, -, -, hasks⟩ := hstart.asking_of_started
    obtain ⟨first, offset, hphase, hslot', hmember'⟩ := hanswer.asking_of_answered
    rw [phase_stays hlt hquiet, hasks] at hphase
    cases hphase
    obtain ⟨-, hmember, hzero, -⟩ := started_at_cursor hwrap hstrategy hstarted
    rw [hzero] at hslot'
    exact ⟨hslot', by rw [hmember', hslot', hmember]⟩
  case shares =>
    intro k m hm
    obtain ⟨hslots, -, hmembers⟩ := hstarts k
    have hcount : (c.starts k).countP (·.member = m) =
        ((c.starts k).map (·.slot)).countP (· % members = m) := by
      rw [List.countP_map]
      refine List.countP_congr fun s hs => ?_
      rw [hmembers s hs]
      rfl
    rw [hcount, hslots]
    exact countP_residue hm _ _

end Course

/-! ## Any course -/

/-- Requests that are under way at the same time, in any order of their steps and
with any answers, on a chain of any length, as long as the counter of the cursor
does not begin again. Under failover the cursor moves past a member only when
that has failed, and once only; in turn the members share the requests. What a
request does when it is alone is a course of these steps, so they are what a
request to a chain does. -/
theorem concurrent_requests (c : Course ι members) (hfresh : ∀ i, (c.state 0).phase i = .waiting)
    (hwrap : c.Unwrapped) :
    ((c.state 0).cursor.strategy = .failover → c.FailsOver) ∧
    ((c.state 0).cursor.strategy = .roundRobin → c.GoesRound) ∧
    ∀ (μ τ : Type) (asked : List (Asked μ τ)) (chain chain' : Chain μ) (shared shared' : τ)
      (result : ProviderResult), chain.members.length = asked.length → chain.members ≠ [] →
      (complete asked chain shared).Gives (chain', shared') result →
        Asks asked (alone chain.cursor .waiting) (alone chain'.cursor (.settled result)) :=
  ⟨Course.failsOver hfresh hwrap, Course.goesRound hwrap,
    fun _ _ _ _ _ _ _ _ hlength hsome h => complete_asks hlength hsome h⟩

/-- Two requests to a chain of two members, the one behind the other at each step.
Both start at slot 0 and hear that the first member is down before either has
moved the cursor. -/
def colliding : Course Bool 2 :=
  let down : ProviderError := .unavailable "down"
  let t₀ : Traffic Bool := ⟨⟨.failover, 0⟩, fun _ => .waiting⟩
  let t₁ := t₀.place false (.asking 0 0)
  let t₂ := t₁.place true (.asking 0 0)
  let t₃ := t₂.place false (.refused 0 0 down)
  let t₄ := t₃.place true (.refused 0 0 down)
  let t₅ := { t₄ with cursor := ⟨.failover, 1⟩ }.place false (.asking 0 1)
  let t₆ := t₅.place true (.asking 0 1)
  let answer (i : Bool) (t : Traffic Bool) (h : t.phase i = .asking 0 0) :=
    @Step.answer Bool _ 2 t i 0 0 h (.error down)
  let move (i : Bool) (t : Traffic Bool) (h : t.phase i = .refused 0 0 down) :=
    @Step.move Bool _ 2 t i 0 0 down h
  (Course.still 2 t₆)
    |>.behind (t := t₅) (move true t₅ rfl)
    |>.behind (t := t₄) (move false t₄ rfl)
    |>.behind (t := t₃) (answer true t₃ rfl)
    |>.behind (t := t₂) (answer false t₂ rfl)
    |>.behind (t := t₁) (.start (i := true) rfl)
    |>.behind (t := t₀) (.start (i := false) rfl)

/-- Three requests to a chain of two members in turn. -/
def rotating : Course (Fin 3) 2 :=
  let t₀ : Traffic (Fin 3) := ⟨⟨.roundRobin, 7⟩, fun _ => .waiting⟩
  let t₁ := { t₀ with cursor := ⟨.roundRobin, 8⟩ }.place 2 (.asking 7 0)
  let t₂ := { t₁ with cursor := ⟨.roundRobin, 9⟩ }.place 0 (.asking 8 0)
  let t₃ := { t₂ with cursor := ⟨.roundRobin, 10⟩ }.place 1 (.asking 9 0)
  (Course.still 2 t₃)
    |>.behind (t := t₂) (.start (i := 1) rfl)
    |>.behind (t := t₁) (.start (i := 0) rfl)
    |>.behind (t := t₀) (.start (i := 2) rfl)

theorem unwrapped_colliding : colliding.Unwrapped := by
  have hsmall : ∀ k, colliding.index k ≤ 1
    | 0 | 1 | 2 | 3 | 4 => Nat.zero_le 1
    | 5 | _ + 6 => Nat.le_refl 1
  exact fun k _ => Nat.lt_of_le_of_lt (Nat.succ_le_succ (hsmall k)) (by decide)

theorem unwrapped_rotating : rotating.Unwrapped := by
  have hsmall : ∀ k, rotating.index k ≤ 10
    | 0 | 1 | 2 => by decide
    | _ + 3 => Nat.le_refl 10
  exact fun k _ => Nat.lt_of_le_of_lt (Nat.succ_le_succ (hsmall k)) (by decide)

/-- The first member is down, the second replies. -/
def secondReplies : List (Asked Unit Unit) :=
  [fun _ => .done ((), ()) (.error (.unavailable "down")),
   fun _ => .done ((), ()) (.ok (.finalAnswer "fine" none))]

/-- The cursor of a chain is moved past a failed member twice and moves once. Of
three requests in turn, from slot 7 on, the second member is the first to be
asked by two. A request that is alone gets the reply of the second member and
leaves the cursor there. -/
theorem cursor_of_colliding_requests :
    (colliding.event 4 = .moved false 0 ∧ colliding.event 5 = .moved true 0 ∧
      colliding.index 4 = 0 ∧ (∃ j < 5, colliding.Refuses j true 0) ∧
      ∀ k, 4 < k → 1 ≤ colliding.index k) ∧
    ((rotating.starts 3).map (·.slot) = [7, 8, 9] ∧
      ((rotating.starts 3).countP (·.member = 1) = 3 / 2 ∨
        (rotating.starts 3).countP (·.member = 1) = (3 + 2 - 1) / 2)) ∧
    Asks secondReplies (alone ⟨.failover, 0⟩ .waiting)
      (alone ⟨.failover, 1⟩ (.settled (.ok (.finalAnswer "fine" none)))) := by
  obtain ⟨hfailover, -, halone⟩ :=
    concurrent_requests colliding (fun _ => rfl) unwrapped_colliding
  have hround := (concurrent_requests rotating (fun _ => rfl) unwrapped_rotating).2.1 rfl
  have hfirst : colliding.event 4 = .moved false 0 := rfl
  have hsecond : colliding.event 5 = .moved true 0 := rfl
  have hpast := (hfailover rfl).past
  have hgives : (complete secondReplies ⟨⟨.failover, 0⟩, [(), ()]⟩ ()).Gives
      (⟨⟨.failover, 1⟩, [(), ()]⟩, ()) (.ok (.finalAnswer "fine" none)) := ⟨rfl, rfl⟩
  refine ⟨⟨hfirst, hsecond, rfl, (hpast 5 true 0 hsecond).1, (hpast 4 false 0 hfirst).2⟩,
    ⟨hround.slots 3, hround.shares 3 1 (by decide)⟩, ?_⟩
  exact halone Unit Unit secondReplies _ _ () () _ rfl (List.cons_ne_nil _ _) hgives

end AgentLoop.Chain
