/-
AgentLoop.Proofs.Provider.Succession — which members a request asks, and with
which of them the next request starts.

* `Attempt`, `Asking` — members that are asked one after the other, each with its
  answer
* `Stretch`, `askFrom_stretch` — the rest of a request, from one of its offsets on
* `Served`, `Served.in_turn` — a whole request, and the places that it comes to
* `Cursor.behind`, `complete_served` — a request leaves the cursor so many slots
  further on as members failed, or at the next slot
* `Succession` — requests one after the other, and where each of them starts
* `requests_in_succession` — all of this for requests of any number

A request asks every member as the member was when the request came. No member
is asked twice, as long as the slots do not begin again at zero, so that is the
state it is in when its turn comes.
-/
import Mathlib.Data.Int.ModEq
import Mathlib.Data.List.Nodup
import Mathlib.Tactic.Choose
import AgentLoop.Proofs.Provider.Requests
import AgentLoop.Rehearsal.Backend

namespace AgentLoop

/-! ## The cursor -/

namespace Cursor

/-- Past the slot it is at, a cursor is at the next one. -/
theorem advancePast_index {index : Nat} :
    advancePast ⟨.failover, index⟩ index = ⟨.failover, slotAfter index 1⟩ := by
  simp [advancePast]

/-- In turn a cursor is moved when a request starts, and then no more. -/
theorem advancePast_roundRobin {c : Cursor} (h : c.strategy = .roundRobin) (failed : Nat) :
    c.advancePast failed = c := by
  simp [advancePast, h]

/-- Where a request leaves the cursor, if so many of the members that it asked
failed and may be asked again. -/
def behind (c : Cursor) (failures : Nat) : Cursor :=
  { c with
    index := slotAfter c.index (match c.strategy with
      | .failover => failures
      | .roundRobin => 1) }

end Cursor

namespace Chain

open Cursor (slotAfter)

variable {μ τ : Type}

/-! ## Members that are asked -/

/-- A member that was asked, by its place in the chain, and its answer. -/
structure Attempt where
  place : Nat
  answer : ProviderResult

/-- The failures among some answers that may pass. -/
def failures (attempts : List Attempt) : Nat :=
  attempts.countP fun a => mayPass a.answer

theorem failures_cons {a : Attempt} (h : mayPass a.answer = true) (attempts : List Attempt) :
    failures (a :: attempts) = failures attempts + 1 :=
  List.countP_cons_of_pos h

/-- The member that was asked first. -/
def firstPlace? (attempts : List Attempt) : Option Nat := attempts.head?.map Attempt.place

/-- The member that was asked last. -/
def lastPlace? (attempts : List Attempt) : Option Nat := attempts.getLast?.map Attempt.place

/-- Members are asked one after the other: each gives its answer in the state
that the one before it left to all of them. -/
inductive Asking (asked : List (Asked μ τ)) : List μ → τ → List Attempt → List μ → τ → Prop
  | none (members : List μ) (shared : τ) : Asking asked members shared [] members shared
  | next {ask : Asked μ τ} {members members' : List μ} {shared shared₁ shared' : τ} {place : Nat}
      {member : μ} {answer : ProviderResult} {attempts : List Attempt}
      (hplace : asked[place]? = some ask)
      (hanswer : (ask shared).Gives (member, shared₁) answer)
      (hrest : Asking asked (members.set place member) shared₁ attempts members' shared') :
      Asking asked members shared (⟨place, answer⟩ :: attempts) members' shared'

/-- The last of some answers decides, unless there is none. -/
def decision (last : ProviderResult) (attempts : List Attempt) : ProviderResult :=
  (attempts.getLast?.map Attempt.answer).getD last

theorem decision_cons (last : ProviderResult) (a : Attempt) (attempts : List Attempt) :
    decision last (a :: attempts) = decision a.answer attempts := by
  rw [decision, decision, List.getLast?_cons]
  cases attempts.getLast? <;> rfl

theorem getLast?_answer (last : ProviderResult) {attempts : List Attempt} (h : attempts ≠ []) :
    attempts.getLast?.map Attempt.answer = some (decision last attempts) := by
  rw [decision, List.getLast?_eq_some_getLast h]
  rfl

/-! ## The rest of a request -/

section Rest

variable {asked : List (Asked μ τ)} {first offset left : Nat} {last : ProviderError}

/-- The rest of a request that has `offset` members behind it, the latest of them
with the error `last`: which members it asks, what it comes to, and where it leaves
the cursor. -/
structure Stretch (asked : List (Asked μ τ)) (first offset left : Nat) (last : ProviderError)
    (before after : Chain μ × τ) (attempts : List Attempt) (result : ProviderResult) : Prop where
  asking : Asking asked before.1.members before.2 attempts after.1.members after.2
  slots : attempts.map Attempt.place =
    (List.range' offset attempts.length).map fun j => slotAfter first j % asked.length
  within_left : attempts.length ≤ left
  passed : ∀ a ∈ attempts.dropLast, mayPass a.answer = true
  decided : decision (.error last) attempts = result
  exhausted : mayPass result = true → attempts.length = left
  -- under failover the cursor stands at the slot that is asked next
  moved : before.1.cursor = ⟨.failover, slotAfter first offset⟩ →
    after.1.cursor = ⟨.failover, slotAfter first (offset + failures attempts)⟩
  kept : before.1.cursor.strategy = .roundRobin → after.1.cursor = before.1.cursor

namespace Stretch

/-- No member is left. -/
theorem none (first offset : Nat) (last : ProviderError) (state : Chain μ × τ) :
    Stretch asked first offset 0 last state state [] (.error last) where
  asking := .none ..
  slots := rfl
  within_left := Nat.le_refl _
  passed := by simp
  decided := rfl
  exhausted _ := rfl
  moved h := h
  kept _ := rfl

variable {ask : Asked μ τ} {chain : Chain μ} {shared shared₁ : τ} {member : μ}

/-- The answer of the next member is the result of the request. -/
theorem settled {r : ProviderResult}
    (hplace : asked[slotAfter first offset % asked.length]? = some ask)
    (hanswer : (ask shared).Gives (member, shared₁) r) (hstays : mayPass r = false) :
    Stretch asked first offset (left + 1) last (chain, shared)
      (⟨chain.cursor, chain.members.set (slotAfter first offset % asked.length) member⟩, shared₁)
      [⟨slotAfter first offset % asked.length, r⟩] r where
  asking := .next hplace hanswer (.none ..)
  slots := rfl
  within_left := by simp
  passed := by simp
  decided := rfl
  exhausted h := by simp [hstays] at h
  moved h := by simpa [failures, hstays] using h
  kept _ := rfl

/-- The next member fails, and the request goes on behind it. -/
theorem refused {e : ProviderError} {after : Chain μ × τ} {attempts : List Attempt}
    {result : ProviderResult}
    (hplace : asked[slotAfter first offset % asked.length]? = some ask)
    (hanswer : (ask shared).Gives (member, shared₁) (.error e))
    (hpasses : mayPass (.error e) = true)
    (h : Stretch asked first (offset + 1) left e
      (⟨chain.cursor.advancePast (slotAfter first offset),
        chain.members.set (slotAfter first offset % asked.length) member⟩, shared₁)
      after attempts result) :
    Stretch asked first offset (left + 1) last (chain, shared) after
      (⟨slotAfter first offset % asked.length, .error e⟩ :: attempts) result where
  asking := .next hplace hanswer h.asking
  slots := by
    rw [List.map_cons, List.length_cons, List.range'_succ, List.map_cons, h.slots]
  within_left := Nat.succ_le_succ h.within_left
  passed := by
    cases hattempts : attempts with
    | nil => simp
    | cons b rest =>
      intro a ha
      rw [List.dropLast_cons_cons, List.mem_cons] at ha
      rcases ha with rfl | ha
      · exact hpasses
      · exact h.passed a (hattempts ▸ ha)
  decided := by rw [decision_cons, h.decided]
  exhausted hresult := congrArg (· + 1) (h.exhausted hresult)
  moved hcursor := by
    have hnext : chain.cursor.advancePast (slotAfter first offset) =
        ⟨.failover, slotAfter first (offset + 1)⟩ := by
      rw [show chain.cursor = _ from hcursor, Cursor.advancePast_index,
        Cursor.slotAfter_slotAfter]
    have hrest := h.moved hnext
    rw [hrest, failures_cons hpasses, Nat.add_assoc, Nat.add_comm 1]
  kept hturn := by
    have hsame := Cursor.advancePast_roundRobin hturn (slotAfter first offset)
    have hrest := h.kept (by rw [hsame]; exact hturn)
    rw [hrest]
    exact hsame

end Stretch

/-- A request with a member left asks it. -/
theorem Stretch.ne_nil {before after : Chain μ × τ} {attempts : List Attempt}
    {result : ProviderResult}
    (h : Stretch asked first offset left last before after attempts result)
    (hleft : 0 < left) (hlast : mayPass (.error last) = true) : attempts ≠ [] := by
  intro hnone
  subst hnone
  -- the result would be the latest failure, behind which nobody is left
  have hall := h.exhausted (h.decided ▸ hlast)
  simp only [List.length_nil] at hall
  omega

/-- The members that are left are asked one after the other. -/
theorem askFrom_stretch {chain chain' : Chain μ} {shared shared' : τ} {result : ProviderResult}
    (hsome : 0 < asked.length) (hlength : chain.members.length = asked.length)
    (h : (askFrom asked first left offset last chain shared).Gives (chain', shared') result) :
    ∃ attempts, Stretch asked first offset left last (chain, shared) (chain', shared') attempts
      result := by
  -- on the members that are left; the cursor and the latest failure go along
  induction left generalizing offset last chain shared with
  | zero =>
    obtain ⟨hstate, rfl⟩ := h
    rw [← hstate]
    exact ⟨[], .none first offset last _⟩
  | succ left ih =>
    obtain ⟨ask, member, shared₁, r, hplace, hanswer, hcase⟩ := askFrom_cases hsome hlength h
    rcases hcase with ⟨hstays, rfl, rfl, rfl⟩ | ⟨e, rfl, hpasses, hrest⟩
    · exact ⟨_, .settled hplace hanswer hstays⟩
    · obtain ⟨attempts, hstretch⟩ := ih (by simp [hlength]) hrest
      exact ⟨_, hstretch.refused hplace hanswer hpasses⟩

/-- The members that are left come to a result, if every member answers. -/
theorem askFrom_ends (hanswers : ∀ ask ∈ asked, ∀ shared, Activity.Ends (ask shared))
    (chain : Chain μ) (shared : τ) : (askFrom asked first left offset last chain shared).Ends := by
  induction left generalizing offset last chain shared with
  | zero => exact trivial
  | succ left ih =>
    rw [askFrom]
    split
    · exact trivial
    · rename_i ask hplace
      have hask := hanswers ask (List.mem_of_getElem? hplace) shared
      refine (hask.mapState _).bind fun state r => ?_
      cases r with
      | ok reply => exact trivial
      | error e =>
        dsimp only
        split
        · exact ih ..
        · exact trivial

end Rest

/-! ## A whole request -/

section Request

variable {asked : List (Asked μ τ)} {before after : Chain μ × τ} {attempts : List Attempt}
  {result : ProviderResult}

/-- A request to a chain. Its members are asked in the order of the slots, from
that of the cursor on, until one gives an answer that is no failure that may pass.
That answer is the result; if all members fail, the failure of the last is. -/
structure Served (asked : List (Asked μ τ)) (before after : Chain μ × τ)
    (attempts : List Attempt) (result : ProviderResult) : Prop where
  asking : Asking asked before.1.members before.2 attempts after.1.members after.2
  slots : attempts.map Attempt.place = (List.range attempts.length).map fun j =>
    slotAfter before.1.cursor.index j % asked.length
  within_members : attempts.length ≤ asked.length
  passed : ∀ a ∈ attempts.dropLast, mayPass a.answer = true
  decided : attempts.getLast?.map Attempt.answer = some result
  exhausted : mayPass result = true → attempts.length = asked.length

/-- Places that follow one another, as many as there are members at most, are
different ones. -/
theorem nodup_places {members count : Nat} (first : Nat) (h : count ≤ members) :
    ((List.range count).map fun j => (first + j) % members).Nodup := by
  refine List.Nodup.map_on ?_ List.nodup_range
  intro i hi j hj hsame
  have hi' := List.mem_range.mp hi
  have hj' := List.mem_range.mp hj
  have hmod : i % members = j % members := Nat.ModEq.add_left_cancel' first hsame
  rwa [Nat.mod_eq_of_lt (by omega), Nat.mod_eq_of_lt (by omega)] at hmod

namespace Served

/-- As long as the slots do not begin again at zero, the members are asked in
turn, and none of them twice. -/
theorem in_turn (h : Served asked before after attempts result)
    (hwrap : before.1.cursor.index + attempts.length ≤ Cursor.slots) :
    attempts.map Attempt.place =
        ((List.range attempts.length).map fun j => (before.1.cursor.index + j) % asked.length) ∧
      (attempts.map Attempt.place).Nodup := by
  have hplaces : attempts.map Attempt.place =
      (List.range attempts.length).map fun j => (before.1.cursor.index + j) % asked.length := by
    rw [h.slots]
    refine List.map_congr_left fun j hj => ?_
    have hj' := List.mem_range.mp hj
    rw [Cursor.slotAfter_of_lt (by omega)]
  refine ⟨hplaces, ?_⟩
  rw [hplaces]
  exact nodup_places _ h.within_members

theorem ne_nil (h : Served asked before after attempts result) : attempts ≠ [] := by
  intro hnone
  have hdecided := h.decided
  simp [hnone] at hdecided

/-- The member that a request starts with. -/
theorem first_place (h : Served asked before after attempts result)
    (hindex : before.1.cursor.index < Cursor.slots) :
    firstPlace? attempts = some (before.1.cursor.index % asked.length) := by
  have hpos := List.length_pos_iff.mpr h.ne_nil
  rw [firstPlace?, ← List.head?_map, h.slots, List.head?_map, List.head?_range, if_neg (by omega)]
  exact congrArg (fun slot => some (slot % asked.length)) (Nat.mod_eq_of_lt hindex)

/-- The member that a request ends with. -/
theorem last_place (h : Served asked before after attempts result) :
    lastPlace? attempts =
      some (slotAfter before.1.cursor.index (attempts.length - 1) % asked.length) := by
  have hpos := List.length_pos_iff.mpr h.ne_nil
  rw [lastPlace?, ← List.getLast?_map, h.slots, List.getLast?_map, List.getLast?_range,
    if_neg (by omega)]
  rfl

/-- All answers but the last are failures, and the last may be one. -/
theorem failures_eq (h : Served asked before after attempts result) :
    failures attempts = if mayPass result then asked.length else attempts.length - 1 := by
  obtain ⟨a, ha, hanswer⟩ := Option.map_eq_some_iff.mp h.decided
  have hsplit := List.dropLast_append_getLast? a ha
  have hfront : attempts.dropLast.countP (fun a => mayPass a.answer) = attempts.length - 1 := by
    rw [List.countP_eq_length.mpr h.passed, List.length_dropLast]
  have hpos := List.length_pos_iff.mpr h.ne_nil
  rw [failures, ← hsplit, List.countP_append, hfront, List.countP_singleton, hanswer, hsplit]
  split
  · have hall := h.exhausted ‹_›
    omega
  · rfl

end Served

/-- A request that comes to a result has asked its members one after the other,
and has moved the cursor. -/
theorem complete_served (hlength : before.1.members.length = asked.length)
    (hsome : 0 < asked.length) (hindex : before.1.cursor.index < Cursor.slots)
    (h : (complete asked before.1 before.2).Gives after result) :
    ∃ attempts, Served asked before after attempts result ∧
      after.1.cursor = before.1.cursor.behind (failures attempts) := by
  obtain ⟨⟨⟨strategy, index⟩, members⟩, shared⟩ := before
  obtain ⟨chain', shared'⟩ := after
  have hmembers : members ≠ [] := List.length_pos_iff.mp (hlength ▸ hsome)
  have hfirst : slotAfter index 0 = index := Cursor.slotAfter_of_lt hindex
  have hstart : (Cursor.mk strategy index).start.1 = index := by cases strategy <;> rfl
  rw [complete, if_neg (by simpa using hmembers)] at h
  dsimp only at h hlength
  rw [hstart, hlength] at h
  obtain ⟨attempts, hstretch⟩ := askFrom_stretch hsome hlength h
  have hattempts := hstretch.ne_nil hsome rfl
  refine ⟨attempts, ?_, ?_⟩
  · exact {
      asking := hstretch.asking
      slots := by rw [List.range_eq_range']; exact hstretch.slots
      within_members := hstretch.within_left
      passed := hstretch.passed
      decided := by rw [getLast?_answer _ hattempts, hstretch.decided]
      exhausted := hstretch.exhausted }
  · cases strategy with
    | failover =>
      have hmoved := hstretch.moved (by rw [hfirst]; rfl)
      rw [hmoved, Nat.zero_add]
      rfl
    | roundRobin => exact hstretch.kept rfl

/-- A request comes to a result if every member does. -/
theorem complete_ends (hanswers : ∀ ask ∈ asked, ∀ shared, Activity.Ends (ask shared))
    (chain : Chain μ) (shared : τ) : (complete asked chain shared).Ends := by
  rw [complete]
  split
  · trivial
  · exact askFrom_ends hanswers ..

end Request

/-! ## Requests one after the other -/

/-- Requests to a chain, each of which comes to its result before the next one
starts. Between two of them the members and what they share may change, but
nobody else moves the cursor. -/
structure Succession (ask : List Message → List ToolSpec → μ → Asked μ τ)
    (members count : Nat) where
  history : Nat → List Message
  tools : Nat → List ToolSpec
  before : Nat → Chain μ × τ
  after : Nat → Chain μ × τ
  result : Nat → ProviderResult
  size : ∀ k < count, (before k).1.members.length = members
  counter : (before 0).1.cursor.index < Cursor.slots
  answered : ∀ k < count,
    (complete ((before k).1.members.map (ask (history k) (tools k))) (before k).1
      (before k).2).Gives (after k) (result k)
  next : ∀ k, k + 1 < count → (before (k + 1)).1.cursor = (after k).1.cursor

namespace Succession

variable {ask : List Message → List ToolSpec → μ → Asked μ τ} {members count k : Nat}
  (s : Succession ask members count)

/-- The members as a request asks them: all of them with its history and its
tools. -/
def asked (k : Nat) : List (Asked μ τ) :=
  (s.before k).1.members.map (ask (s.history k) (s.tools k))

/-- The slot of the cursor when a request starts. -/
def index (k : Nat) : Nat := (s.before k).1.cursor.index

/-- The strategy of the chain. -/
def strategy : Strategy := (s.before 0).1.cursor.strategy

theorem length_asked (hk : k < count) : (s.asked k).length = members := by
  rw [asked, List.length_map, s.size k hk]

theorem served (hsome : 0 < members) (hk : k < count) (hindex : s.index k < Cursor.slots) :
    ∃ attempts, Served (s.asked k) (s.before k) (s.after k) attempts (s.result k) ∧
      (s.after k).1.cursor = (s.before k).1.cursor.behind (failures attempts) :=
  complete_served (by rw [s.length_asked hk, s.size k hk]) (by rwa [s.length_asked hk]) hindex
    (s.answered k hk)

/-- The cursor is at a slot when a request starts, and the strategy stays. -/
theorem cursor_sound (hsome : 0 < members) (hk : k < count) :
    s.index k < Cursor.slots ∧ (s.before k).1.cursor.strategy = s.strategy := by
  induction k with
  | zero => exact ⟨s.counter, rfl⟩
  | succ k ih =>
    obtain ⟨hindex, hstrategy⟩ := ih (by omega)
    obtain ⟨attempts, -, hcursor⟩ := s.served hsome (by omega) hindex
    rw [index, s.next k hk, hcursor]
    exact ⟨Cursor.slotAfter_lt .., hstrategy⟩

/-- In turn each request starts at the next slot. -/
theorem index_roundRobin (hsome : 0 < members) (hturn : s.strategy = .roundRobin) (hk : k < count)
    (hwrap : s.index 0 + k < Cursor.slots) : s.index k = s.index 0 + k := by
  induction k with
  | zero => rfl
  | succ k ih =>
    obtain ⟨hindex, hstrategy⟩ := s.cursor_sound hsome (Nat.lt_of_succ_lt hk)
    obtain ⟨attempts, -, hcursor⟩ := s.served hsome (by omega) hindex
    have hnext : s.index (k + 1) = slotAfter (s.index k) 1 := by
      rw [index, s.next k hk, hcursor, Cursor.behind, hstrategy, hturn]
      rfl
    rw [hnext, ih (by omega) (by omega), Cursor.slotAfter_of_lt (by omega), Nat.add_assoc]

/-- Under failover each request starts so many slots further on as members failed
in the one before it. -/
theorem index_failover (hsome : 0 < members) (hstrategy : s.strategy = .failover)
    (hk : k + 1 < count) {attempts : List Attempt}
    (hcursor : (s.after k).1.cursor = (s.before k).1.cursor.behind (failures attempts)) :
    s.index (k + 1) = slotAfter (s.index k) (failures attempts) := by
  have hbefore := (s.cursor_sound hsome (Nat.lt_of_succ_lt hk)).2
  rw [index, s.next k hk, hcursor, Cursor.behind, hbefore, hstrategy]
  rfl

/-- The members that a request asks, and where it leaves the cursor. -/
structure Asks (k : Nat) (attempts : List Attempt) : Prop where
  served : Served (s.asked k) (s.before k) (s.after k) attempts (s.result k)
  first_place : firstPlace? attempts = some (s.index k % members)
  moved : (s.after k).1.cursor = (s.before k).1.cursor.behind (failures attempts)

theorem exists_asks (hsome : 0 < members) :
    ∃ attempts : Nat → List Attempt, ∀ k < count, s.Asks k (attempts k) := by
  have hall (k : Nat) : ∃ attempts, k < count → s.Asks k attempts := by
    by_cases hk : k < count
    · have hindex := (s.cursor_sound hsome hk).1
      obtain ⟨attempts, hserved, hmoved⟩ := s.served hsome hk hindex
      have hfirst := hserved.first_place hindex
      rw [s.length_asked hk] at hfirst
      exact ⟨attempts, fun _ => ⟨hserved, hfirst, hmoved⟩⟩
    · exact ⟨[], fun h => absurd h hk⟩
  choose attempts hattempts using hall
  exact ⟨attempts, hattempts⟩

variable {s} {attempts : List Attempt}

namespace Asks

/-- The members are asked in turn, as long as the slots do not begin again at
zero. -/
theorem in_turn (h : s.Asks k attempts) (hk : k < count)
    (hwrap : s.index k + attempts.length ≤ Cursor.slots) :
    attempts.map Attempt.place =
        ((List.range attempts.length).map fun j => (s.index k + j) % members) ∧
      (attempts.map Attempt.place).Nodup := by
  have hturn := h.served.in_turn hwrap
  rwa [s.length_asked hk] at hturn

/-- The member that gave a deciding answer is where the cursor is left, -/
theorem last_place (h : s.Asks k attempts) (hsome : 0 < members)
    (hstrategy : s.strategy = .failover) (hk : k + 1 < count)
    (hstays : mayPass (s.result k) = false) :
    lastPlace? attempts = some (s.index (k + 1) % members) := by
  have hlength := s.length_asked (Nat.lt_of_succ_lt hk)
  rw [h.served.last_place, s.index_failover hsome hstrategy hk h.moved, h.served.failures_eq,
    hstays, hlength]
  rfl

/-- and if all members failed, it has come round to where it was. -/
theorem comes_round (h : s.Asks k attempts) (hsome : 0 < members)
    (hstrategy : s.strategy = .failover) (hk : k + 1 < count)
    (hpasses : mayPass (s.result k) = true) (hwrap : s.index k + members < Cursor.slots) :
    s.index (k + 1) % members = s.index k % members := by
  have hlength := s.length_asked (Nat.lt_of_succ_lt hk)
  rw [s.index_failover hsome hstrategy hk h.moved, h.served.failures_eq, hpasses, if_pos rfl,
    hlength, Cursor.slotAfter_of_lt hwrap, Nat.add_mod_right]

end Asks

end Succession

/-! ## Chains within chains -/

section Nested

open Rehearsal (Backend Stage)

theorem askEach_eq_map (history : List Message) (tools : List ToolSpec) (backends : List Backend) :
    Backend.askEach history tools backends = backends.map (Backend.ask history tools) := by
  induction backends with
  | nil => rfl
  | cons b rest ih => rw [Backend.askEach, ih, List.map_cons]

/-- A chain that is a member of another one, at whatever depth, is asked as any
chain is. -/
theorem ask_chain_gives {history : List Message} {tools : List ToolSpec} {cursor : Cursor}
    {backends : List Backend} {stage stage' : Stage} {backend' : Backend} {r : ProviderResult} :
    ((Backend.chain cursor backends).ask history tools stage).Gives (backend', stage') r ↔
      ∃ chain' : Chain Backend, .chain chain'.cursor chain'.members = backend' ∧
        (complete (backends.map (Backend.ask history tools)) ⟨cursor, backends⟩ stage).Gives
          (chain', stage') r := by
  rw [Backend.ask, askEach_eq_map, Activity.gives_mapState]
  constructor
  · rintro ⟨⟨chain', stage''⟩, hstate, hgives⟩
    cases hstate
    exact ⟨chain', rfl, hgives⟩
  · rintro ⟨chain', rfl, hgives⟩
    exact ⟨(chain', stage'), rfl, hgives⟩

end Nested

/-! ## Main result -/

/-- Requests to a chain, one after the other. Each asks members in turn, none of
them twice and all of them with the same history and the same tools, up to the
first answer that is no failure that may pass. Under failover the next request
starts with the member that gave that answer, and in turn each starts with the next
member, whichever failed before. A request comes to a result if every member does,
and a member may be a chain itself. -/
theorem requests_in_succession {ask : List Message → List ToolSpec → μ → Asked μ τ}
    {members count : Nat} (s : Succession ask members count) (hsome : 0 < members) :
    (∃ attempts : Nat → List Attempt,
      (∀ k < count,
        Served (s.asked k) (s.before k) (s.after k) (attempts k) (s.result k) ∧
          firstPlace? (attempts k) = some (s.index k % members) ∧
          (s.index k + (attempts k).length ≤ Cursor.slots →
            (attempts k).map Attempt.place =
                ((List.range (attempts k).length).map fun j => (s.index k + j) % members) ∧
              ((attempts k).map Attempt.place).Nodup)) ∧
        (s.strategy = .failover → ∀ k, k + 1 < count →
          (mayPass (s.result k) = false →
            firstPlace? (attempts (k + 1)) = lastPlace? (attempts k)) ∧
          (mayPass (s.result k) = true → s.index k + members < Cursor.slots →
            firstPlace? (attempts (k + 1)) = firstPlace? (attempts k))) ∧
        (s.strategy = .roundRobin → ∀ k < count, s.index 0 + k < Cursor.slots →
          firstPlace? (attempts k) = some ((s.index 0 + k) % members))) ∧
      (∀ (history : List Message) (tools : List ToolSpec) (chain : Chain μ) (shared : τ),
        (∀ member ∈ chain.members, ∀ shared, (ask history tools member shared).Ends) →
        (complete (chain.members.map (ask history tools)) chain shared).Ends) ∧
      ∀ (history : List Message) (tools : List ToolSpec) (cursor : Cursor)
        (backends : List Rehearsal.Backend) (stage stage' : Rehearsal.Stage)
        (backend' : Rehearsal.Backend) (r : ProviderResult),
        ((Rehearsal.Backend.chain cursor backends).ask history tools stage).Gives
            (backend', stage') r ↔
          ∃ chain' : Chain Rehearsal.Backend,
            .chain chain'.cursor chain'.members = backend' ∧
              (complete (backends.map (Rehearsal.Backend.ask history tools)) ⟨cursor, backends⟩
                stage).Gives (chain', stage') r := by
  refine ⟨?_, ?_, fun _ _ _ _ _ _ _ _ => ask_chain_gives⟩
  · obtain ⟨attempts, hasks⟩ := s.exists_asks hsome
    refine ⟨attempts, ?_, ?_, ?_⟩
    · intro k hk
      have h := hasks k hk
      exact ⟨h.served, h.first_place, h.in_turn hk⟩
    · intro hstrategy k hk
      have hthis := hasks k (Nat.lt_of_succ_lt hk)
      have hnext := hasks (k + 1) hk
      rw [hnext.first_place, hthis.first_place]
      constructor
      · intro hstays
        rw [hthis.last_place hsome hstrategy hk hstays]
      · intro hpasses hwrap
        rw [hthis.comes_round hsome hstrategy hk hpasses hwrap]
    · intro hturn k hk hwrap
      rw [(hasks k hk).first_place, s.index_roundRobin hsome hturn hk hwrap]
  · intro history tools chain shared hanswers
    refine complete_ends ?_ chain shared
    intro ask hask
    obtain ⟨member, hmember, rfl⟩ := List.mem_map.mp hask
    exact hanswers member hmember

section Nested

open Rehearsal (Backend Stage)

/-- A script with some results to come, and as many requests behind it. -/
def scripted (results : List ProviderResult) (received : Nat) : Backend :=
  .script { results, received := List.replicate received ⟨[], []⟩ }

/-- A backend that is down, and behind it two others that take turns: before the
first request, between the two and behind the second. -/
def nested : Nat → Chain Backend × Stage
  | 0 =>
    (⟨⟨.failover, 0⟩,
      [scripted [.error (.unavailable "down")] 0,
        .chain ⟨.roundRobin, 0⟩
          [scripted [.ok (.finalAnswer "a" none)] 0, scripted [.ok (.finalAnswer "b" none)] 0]]⟩,
      { })
  | 1 =>
    (⟨⟨.failover, 1⟩,
      [scripted [] 1,
        .chain ⟨.roundRobin, 1⟩ [scripted [] 1, scripted [.ok (.finalAnswer "b" none)] 0]]⟩,
      { asked := List.replicate 2 ⟨"scripted", [], []⟩ })
  | _ =>
    (⟨⟨.failover, 1⟩,
      [scripted [] 1, .chain ⟨.roundRobin, 2⟩ [scripted [] 1, scripted [] 1]]⟩,
      { asked := List.replicate 3 ⟨"scripted", [], []⟩ })

/-- Two requests to them. -/
def nestedRequests : Succession Backend.ask 2 2 where
  history _ := []
  tools _ := []
  before := nested
  after k := nested (k + 1)
  result k := .ok (.finalAnswer (if k = 0 then "a" else "b") none)
  size k hk := by
    match k, hk with
    | 0, _ => rfl
    | 1, _ => rfl
  counter := by decide
  answered k hk := by
    match k, hk with
    | 0, _ => exact ⟨rfl, rfl⟩
    | 1, _ => exact ⟨rfl, rfl⟩
  next k hk := rfl

/-- The second request starts where the first came to its answer, with the chain
within the chain. -/
theorem nested_requests_in_succession :
    0 < 2 ∧ ∃ attempts : Nat → List Attempt,
      (∀ k < 2, Served (nestedRequests.asked k) (nested k) (nested (k + 1)) (attempts k)
        (nestedRequests.result k)) ∧
        firstPlace? (attempts 0) = some 0 ∧ lastPlace? (attempts 0) = some 1 ∧
        firstPlace? (attempts 1) = some 1 := by
  obtain ⟨⟨attempts, hserved, hstays, -⟩, -⟩ :=
    requests_in_succession nestedRequests Nat.two_pos
  have hfirst := (hserved 0 Nat.two_pos).2.1
  have hsecond := (hserved 1 Nat.one_lt_two).2.1
  have hsame := (hstays rfl 0 Nat.one_lt_two).1 rfl
  exact ⟨Nat.two_pos, attempts, fun k hk => (hserved k hk).1, hfirst, hsame.symm.trans hsecond,
    hsecond⟩

end Nested

end Chain

end AgentLoop
