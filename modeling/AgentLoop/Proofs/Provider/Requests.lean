/-
AgentLoop.Proofs.Provider.Requests — requests to a chain that are under way at
the same time.

* `Phase`, `Traffic` — where each request is, and the cursor that they share
* `Event`, `Step` — the single steps of the requests: taking a slot, getting an
  answer, moving the cursor past a slot
* `Course` — steps of any requests in any order, each with any answer
* `Activity.Gives`, `Activity.ends_iff_gives` — what an activity ends with,
  whatever the waits in between
* `Cursor.slotAfter_slotAfter`, `Cursor.slotAfter_of_lt` — slots further on
* `mayPass`, `askFrom_cases` — the answers behind which the next member is
  asked, and the two ways in which a request goes on from an answer
* `Asks`, `complete_asks` — a request that is alone takes just these steps, so
  `Chain.complete` is what every request of a course does

Between two of its steps a request waits for a member or has been set aside, so
that all others may take any number of steps there. Nothing is said of how long
a member takes: a request whose member never answers takes no further step.
-/
import Mathlib.Logic.Function.Basic
import AgentLoop.Provider.Chain

namespace AgentLoop

/-! ## What an activity ends with -/

namespace Activity

variable {σ τ α β : Type}

/-- An activity ends with a result, in a state. -/
def Gives : Activity σ α → σ → α → Prop
  | .done s a, s', a' => s = s' ∧ a = a'
  | .stuck _, _, _ => False
  | .wait _ _ rest, s', a' => rest.Gives s' a'
  | .raise rest, s', a' => rest.Gives s' a'

theorem gives_mapState {f : σ → τ} {activity : Activity σ α} {t : τ} {a : α} :
    (activity.mapState f).Gives t a ↔ ∃ s, f s = t ∧ activity.Gives s a := by
  induction activity with
  | done s b =>
    constructor
    · rintro ⟨rfl, rfl⟩
      exact ⟨s, rfl, rfl, rfl⟩
    · rintro ⟨_, rfl, rfl, rfl⟩
      exact ⟨rfl, rfl⟩
  | stuck s => simp [mapState, Gives]
  | wait s ms rest ih => exact ih
  | raise rest ih => exact ih

theorem gives_bind {first : Activity σ α} {next : σ → α → Activity σ β} {s : σ} {b : β} :
    (first.bind next).Gives s b ↔ ∃ s' a, first.Gives s' a ∧ (next s' a).Gives s b := by
  induction first with
  | done s' a =>
    constructor
    · intro h
      exact ⟨s', a, ⟨rfl, rfl⟩, h⟩
    · rintro ⟨_, _, ⟨rfl, rfl⟩, h⟩
      exact h
  | stuck s' => simp [bind, Gives]
  | wait s' ms rest ih => exact ih
  | raise rest ih => exact ih

/-- An activity ends if it ends with something. -/
theorem ends_iff_gives {activity : Activity σ α} :
    activity.Ends ↔ ∃ s a, activity.Gives s a := by
  induction activity with
  | done s a => exact ⟨fun _ => ⟨s, a, rfl, rfl⟩, fun _ => trivial⟩
  | stuck s => simp [Ends, Gives]
  | wait s ms rest ih => exact ih
  | raise rest ih => exact ih

theorem Ends.mapState {activity : Activity σ α} (h : activity.Ends) (f : σ → τ) :
    (activity.mapState f).Ends := by
  obtain ⟨s, a, hgives⟩ := ends_iff_gives.mp h
  exact ends_iff_gives.mpr ⟨f s, a, gives_mapState.mpr ⟨s, rfl, hgives⟩⟩

theorem Ends.bind {first : Activity σ α} {next : σ → α → Activity σ β} (h : first.Ends)
    (hnext : ∀ s a, (next s a).Ends) : (first.bind next).Ends := by
  obtain ⟨s, a, hfirst⟩ := ends_iff_gives.mp h
  obtain ⟨s', b, hrest⟩ := ends_iff_gives.mp (hnext s a)
  exact ends_iff_gives.mpr ⟨s', b, gives_bind.mpr ⟨s, a, hfirst, hrest⟩⟩

end Activity

/-! ## Slots -/

namespace Cursor

theorem slotAfter_slotAfter (slot i j : Nat) :
    slotAfter (slotAfter slot i) j = slotAfter slot (i + j) := by
  rw [slotAfter, slotAfter, slotAfter, Nat.mod_add_mod, Nat.add_assoc]

theorem slotAfter_of_lt {slot offset : Nat} (h : slot + offset < slots) :
    slotAfter slot offset = slot + offset := Nat.mod_eq_of_lt h

theorem slotAfter_lt (slot offset : Nat) : slotAfter slot offset < slots :=
  Nat.mod_lt _ (Nat.succ_pos _)

end Cursor

namespace Chain

/-! ## One request -/

/-- Whether an answer is a failure that may pass, so that another member is to be
asked. -/
def mayPass : ProviderResult → Bool
  | .ok _ => false
  | .error e => e.retryable

/-- Where a request is. `asking`: it waits for the member behind a slot, which
lies `offset` places behind the slot it began with. `refused`: that member
failed, not for good, and the cursor has yet to be moved. -/
inductive Phase where
  | waiting
  | asking (first offset : Nat)
  | refused (first offset : Nat) (error : ProviderError)
  | settled (result : ProviderResult)

namespace Phase

/-- Where a request is once its member has answered. -/
def answered (first offset : Nat) : ProviderResult → Phase
  | .ok reply => .settled (.ok reply)
  | .error e => if e.retryable then .refused first offset e else .settled (.error e)

/-- An answer settles a request unless it is a failure that may pass. -/
theorem answered_of_stays {first offset : Nat} {r : ProviderResult} (h : mayPass r = false) :
    answered first offset r = .settled r := by
  cases r with
  | ok reply => rfl
  | error e => exact if_neg (by simpa [mayPass] using h)

theorem answered_of_mayPass {first offset : Nat} {e : ProviderError}
    (h : mayPass (.error e) = true) : answered first offset (.error e) = .refused first offset e :=
  if_pos h

/-- Where a request is that has left `offset` of so many members behind it, the
last of them with an error: at the next one, or at its end. -/
def past (members first offset : Nat) (last : ProviderError) : Phase :=
  if offset < members then .asking first offset else .settled (.error last)

/-- The slot that a request is at. -/
def slot? : Phase → Option Nat
  | .asking first offset | .refused first offset _ => some (Cursor.slotAfter first offset)
  | .waiting | .settled _ => none

/-- An answer leaves a request at its slot, if at any. -/
theorem slot?_answered {first offset slot : Nat} {r : ProviderResult}
    (h : (answered first offset r).slot? = some slot) : slot = Cursor.slotAfter first offset := by
  cases r with
  | ok reply => cases h
  | error e =>
    rw [answered] at h
    split at h <;> cases h
    rfl

end Phase

/-! ## Many requests -/

variable {ι : Type} {members : Nat}

/-- Requests, and the cursor that they share. -/
structure Traffic (ι : Type) where
  cursor : Cursor
  phase : ι → Phase

/-- A single step of a request. A request that takes a slot puts its question to
the member there; `rest` is no step of any request. -/
inductive Event (ι : Type) where
  | started (request : ι) (slot member : Nat)
  | answered (request : ι) (slot member : Nat) (result : ProviderResult)
  | moved (request : ι) (slot : Nat)
  | rest

/-- The request that takes a step. -/
def Event.request? : Event ι → Option ι
  | .started i .. | .answered i .. | .moved i _ => some i
  | .rest => none

variable [DecidableEq ι]

/-- Puts a request into a phase. -/
def Traffic.place (t : Traffic ι) (i : ι) (p : Phase) : Traffic ι :=
  { t with phase := Function.update t.phase i p }

@[simp] theorem Traffic.cursor_place (t : Traffic ι) (i : ι) (p : Phase) :
    (t.place i p).cursor = t.cursor := rfl

@[simp] theorem Traffic.phase_place_self (t : Traffic ι) (i : ι) (p : Phase) :
    (t.place i p).phase i = p := Function.update_self ..

theorem Traffic.phase_place_of_ne (t : Traffic ι) {i j : ι} (h : j ≠ i) (p : Phase) :
    (t.place i p).phase j = t.phase j := Function.update_of_ne h ..

/-- One step of one request, on a chain of so many members. The steps that touch
the cursor touch it once. -/
inductive Step (members : Nat) : Traffic ι → Event ι → Traffic ι → Prop
  | start {t : Traffic ι} {i : ι} (h : t.phase i = .waiting) :
      Step members t
        (.started i t.cursor.start.1 (Cursor.slotAfter t.cursor.start.1 0 % members))
        ({ t with cursor := t.cursor.start.2 }.place i (.asking t.cursor.start.1 0))
  | answer {t : Traffic ι} {i : ι} {first offset : Nat} (h : t.phase i = .asking first offset)
      (result : ProviderResult) :
      Step members t
        (.answered i (Cursor.slotAfter first offset) (Cursor.slotAfter first offset % members)
          result)
        (t.place i (.answered first offset result))
  | move {t : Traffic ι} {i : ι} {first offset : Nat} {e : ProviderError}
      (h : t.phase i = .refused first offset e) :
      Step members t (.moved i (Cursor.slotAfter first offset))
        ({ t with cursor := t.cursor.advancePast (Cursor.slotAfter first offset) }.place i
          (.past members first (offset + 1) e))
  | rest (t : Traffic ι) : Step members t .rest t

/-- A course of steps, in any order of the requests. -/
structure Course (ι : Type) [DecidableEq ι] (members : Nat) where
  state : Nat → Traffic ι
  event : Nat → Event ι
  step : ∀ k, Step members (state k) (event k) (state (k + 1))

namespace Course

/-- Nothing happens any more. -/
def still (members : Nat) (t : Traffic ι) : Course ι members where
  state _ := t
  event _ := .rest
  step _ := .rest t

/-- A course behind one more step. -/
def behind (c : Course ι members) {t : Traffic ι} {e : Event ι}
    (h : Step members t e (c.state 0)) : Course ι members where
  state
    | 0 => t
    | k + 1 => c.state k
  event
    | 0 => e
    | k + 1 => c.event k
  step
    | 0 => h
    | k + 1 => c.step k

end Course

/-! ## A request that is alone -/

section Alone

variable {μ τ : Type} {asked : List (Asked μ τ)}

/-- The one request there is, and the cursor. -/
def alone (cursor : Cursor) (p : Phase) : Traffic Unit := ⟨cursor, fun _ => p⟩

theorem place_alone (cursor : Cursor) (p q : Phase) :
    (alone cursor p).place () q = alone cursor q := by
  simp only [Traffic.place, alone]
  congr 1

/-- A request that is alone goes from one place to another, and each answer that
it gets is one that the member gives when it is asked. -/
def Asks (asked : List (Asked μ τ)) (t u : Traffic Unit) : Prop :=
  ∃ c : Course Unit asked.length, c.state 0 = t ∧ (∃ k, c.state k = u) ∧
    ∀ k slot member result, c.event k = .answered () slot member result →
      ∃ (ask : Asked μ τ) (shared : τ) (s : μ × τ),
        asked[member]? = some ask ∧ (ask shared).Gives s result

theorem Asks.refl (t : Traffic Unit) : Asks asked t t :=
  ⟨.still _ t, rfl, ⟨0, rfl⟩, by rintro k slot member result ⟨⟩⟩

/-- One step more in front. -/
theorem Asks.behind {t u v : Traffic Unit} {e : Event Unit} (hstep : Step asked.length t e u)
    (hanswer : ∀ slot member result, e = .answered () slot member result →
      ∃ (ask : Asked μ τ) (shared : τ) (s : μ × τ),
        asked[member]? = some ask ∧ (ask shared).Gives s result)
    (h : Asks asked u v) : Asks asked t v := by
  obtain ⟨c, rfl, ⟨k, hk⟩, hanswers⟩ := h
  refine ⟨c.behind hstep, rfl, ⟨k + 1, hk⟩, fun k => ?_⟩
  cases k with
  | zero => exact hanswer
  | succ k => exact hanswers k

theorem Asks.answer {cursor : Cursor} {first offset : Nat} {r : ProviderResult} {v : Traffic Unit}
    {ask : Asked μ τ} {shared : τ} {s : μ × τ}
    (hget : asked[Cursor.slotAfter first offset % asked.length]? = some ask)
    (hgives : (ask shared).Gives s r)
    (h : Asks asked (alone cursor (.answered first offset r)) v) :
    Asks asked (alone cursor (.asking first offset)) v := by
  have hstep := @Step.answer Unit _ asked.length (alone cursor (.asking first offset)) () first
    offset rfl r
  rw [place_alone] at hstep
  refine h.behind hstep ?_
  rintro slot member result ⟨⟩
  exact ⟨ask, shared, s, hget, hgives⟩

theorem Asks.move {cursor : Cursor} {first offset : Nat} {e : ProviderError} {v : Traffic Unit}
    (h : Asks asked (alone (cursor.advancePast (Cursor.slotAfter first offset))
      (.past asked.length first (offset + 1) e)) v) :
    Asks asked (alone cursor (.refused first offset e)) v := by
  have hstep := @Step.move Unit _ asked.length (alone cursor (.refused first offset e)) () first
    offset e rfl
  exact h.behind hstep (by rintro slot member result ⟨⟩)

theorem Asks.start {cursor : Cursor} {v : Traffic Unit}
    (h : Asks asked (alone cursor.start.2 (.asking cursor.start.1 0)) v) :
    Asks asked (alone cursor .waiting) v := by
  have hstep := @Step.start Unit _ asked.length (alone cursor .waiting) () rfl
  exact h.behind hstep (by rintro slot member result ⟨⟩)

/-- The answer of the next member, and what comes of it. -/
theorem askFrom_cases {first left offset : Nat} {last : ProviderError} {chain chain' : Chain μ}
    {shared shared' : τ} {result : ProviderResult} (hsome : 0 < asked.length)
    (hlength : chain.members.length = asked.length)
    (h : (askFrom asked first (left + 1) offset last chain shared).Gives (chain', shared') result) :
    ∃ (ask : Asked μ τ) (member : μ) (shared₁ : τ) (r : ProviderResult),
      asked[Cursor.slotAfter first offset % asked.length]? = some ask ∧
        (ask shared).Gives (member, shared₁) r ∧
        (mayPass r = false ∧ result = r ∧ shared' = shared₁ ∧
            chain' = ⟨chain.cursor,
              chain.members.set (Cursor.slotAfter first offset % asked.length) member⟩ ∨
          ∃ e, r = .error e ∧ mayPass r = true ∧
            (askFrom asked first left (offset + 1) e
              ⟨chain.cursor.advancePast (Cursor.slotAfter first offset),
                chain.members.set (Cursor.slotAfter first offset % asked.length) member⟩
              shared₁).Gives (chain', shared') result) := by
  have hlt := Nat.mod_lt (Cursor.slotAfter first offset) hsome
  have hget := List.getElem?_eq_getElem hlt
  rw [askFrom] at h
  simp only [hlength, hget] at h
  obtain ⟨⟨chain₁, shared₁⟩, r, hasked, h⟩ := Activity.gives_bind.mp h
  obtain ⟨⟨member, shared₂⟩, hstate, hgives⟩ := Activity.gives_mapState.mp hasked
  cases hstate
  refine ⟨_, member, shared₂, r, hget, hgives, ?_⟩
  cases r with
  | ok reply =>
    obtain ⟨hstate, rfl⟩ := h
    cases hstate
    exact Or.inl ⟨rfl, rfl, rfl, rfl⟩
  | error e =>
    cases hretry : e.retryable with
    | false =>
      simp only [hretry] at h
      obtain ⟨hstate, rfl⟩ := h
      cases hstate
      exact Or.inl ⟨hretry, rfl, rfl, rfl⟩
    | true =>
      simp only [hretry, if_true] at h
      exact Or.inr ⟨e, rfl, hretry, h⟩

/-- The members that are left are asked as the steps of a request say. -/
theorem askFrom_asks {first left offset : Nat} {last : ProviderError} {chain chain' : Chain μ}
    {shared shared' : τ} {result : ProviderResult} (hsome : 0 < asked.length)
    (hlength : chain.members.length = asked.length) (hleft : offset + left = asked.length)
    (h : (askFrom asked first left offset last chain shared).Gives (chain', shared') result) :
    Asks asked (alone chain.cursor (.past asked.length first offset last))
      (alone chain'.cursor (.settled result)) := by
  induction left generalizing offset last chain shared with
  | zero =>
    obtain ⟨hchain, rfl⟩ := h
    cases hchain
    rw [Phase.past, if_neg (by omega)]
    exact Asks.refl _
  | succ left ih =>
    obtain ⟨ask, member, shared₁, r, hget, hgives, hcase⟩ := askFrom_cases hsome hlength h
    rw [Phase.past, if_pos (by omega)]
    refine Asks.answer hget hgives ?_
    rcases hcase with ⟨hstays, rfl, -, rfl⟩ | ⟨e, rfl, hpasses, hrest⟩
    · rw [Phase.answered_of_stays hstays]
      exact Asks.refl _
    · rw [Phase.answered_of_mayPass hpasses]
      exact Asks.move (ih (by simp [hlength]) (by omega) hrest)

/-- A request that is alone takes the steps of a request. -/
theorem complete_asks {chain chain' : Chain μ} {shared shared' : τ} {result : ProviderResult}
    (hlength : chain.members.length = asked.length) (hsome : chain.members ≠ [])
    (h : (complete asked chain shared).Gives (chain', shared') result) :
    Asks asked (alone chain.cursor .waiting) (alone chain'.cursor (.settled result)) := by
  have hpos : 0 < asked.length := hlength ▸ List.length_pos_iff.mpr hsome
  rw [complete, if_neg (by simpa using hsome)] at h
  have hstarted : ({ chain with cursor := chain.cursor.start.2 } : Chain μ).members.length =
      asked.length := hlength
  have hsteps := askFrom_asks hpos hstarted (by omega) h
  rw [Phase.past, if_pos hpos] at hsteps
  exact Asks.start hsteps

end Alone

end Chain

end AgentLoop
