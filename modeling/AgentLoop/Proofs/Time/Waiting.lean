/-
AgentLoop.Proofs.Time.Waiting — how long a wait lasts, and how the signal
stands when it is over.

* `Activity.endsAt?`, `Activity.raisesAt?` — when an activity ends and when it
  raises the signal, if it is left alone
* `Clock.RaisedAt` — the moments at which the signal is raised during a wait
* `Clock.Completes`, `Clock.CutShort`, `Clock.Hangs` — the ways in which a wait
  is over
* `Activity.waited_follow` — a wait for an activity is over in one of them
* `Clock.Reaches` — time goes on, but not past the moment of a raise

A wait is over when what is waited for is there or when the signal is raised,
whichever comes first. Nothing here looks at how the wait is carried out: the
times are those of the activity if nobody waited for it.
-/
import AgentLoop.Time.Activity

namespace AgentLoop

/-! ## Activities that are left alone -/

namespace Activity

variable {σ α : Type}

/-- When an activity that begins at a time ends, and with what. -/
def endsAt? : Activity σ α → (now : Nat) → Option (Nat × α)
  | .done _ a, now => some (now, a)
  | .stuck _, _ => none
  | .wait _ ms rest, now => rest.endsAt? (now + ms)
  | .raise rest, now => rest.endsAt? now

/-- When an activity that begins at a time first raises the signal. -/
def raisesAt? : Activity σ α → (now : Nat) → Option Nat
  | .done _ _, _ => none
  | .stuck _, _ => none
  | .wait _ ms rest, now => rest.raisesAt? (now + ms)
  | .raise _, now => some now

/-- An activity raises the signal in the very moment in which it ends, with
this result. -/
def RaisesWith (activity : Activity σ α) (result : α) : Prop :=
  ∃ now time, activity.endsAt? now = some (time, result) ∧ activity.raisesAt? now = some time

theorem le_of_endsAt? {activity : Activity σ α} {now time : Nat} {a : α}
    (h : activity.endsAt? now = some (time, a)) : now ≤ time := by
  induction activity generalizing now with
  | done _ _ =>
    cases h
    exact Nat.le_refl _
  | stuck _ => cases h
  | wait _ ms rest ih => exact Nat.le_trans (Nat.le_add_right now ms) (ih h)
  | raise rest ih => exact ih h

theorem le_of_raisesAt? {activity : Activity σ α} {now time : Nat}
    (h : activity.raisesAt? now = some time) : now ≤ time := by
  induction activity generalizing now with
  | done _ _ => cases h
  | stuck _ => cases h
  | wait _ ms rest ih => exact Nat.le_trans (Nat.le_add_right now ms) (ih h)
  | raise rest _ =>
    cases h
    exact Nat.le_refl _

end Activity

/-! ## The three ways of a wait -/

namespace Clock

/-- A moment at which the signal is raised while somebody waits: at once, by the
caller, or from within at `raise`, if it is raised there. -/
inductive RaisedAt (c : Clock) (raise : Option Nat) : Nat → Prop
  | before (raised : c.isRaised = true) : RaisedAt c raise c.now
  | caller {due : Nat} (lowered : c.signal = .lowered (some due)) :
      RaisedAt c raise (max c.now due)
  | within {time : Nat} (present : c.signal ≠ .absent) (raises : raise = some time) :
      RaisedAt c raise time

/-- What is waited for is there, in its own time. The signal was not raised
before; it is raised if it was, or if this is the moment in which it is raised
from within. -/
structure Completes (c : Clock) (raise ends : Option Nat) (c' : Clock) : Prop where
  ending : ends = some c'.now
  unraised : ∀ time, c.RaisedAt raise time → c'.now ≤ time
  raised : c'.isRaised = true ↔
    c.isRaised = true ∨ c.signal ≠ .absent ∧ raise = some c'.now
  kept : c'.isRaised = false → c'.signal = c.signal

/-- The wait is cut short in the moment in which the signal is raised. -/
structure CutShort (c : Clock) (raise ends : Option Nat) (c' : Clock) : Prop where
  moment : c.RaisedAt raise c'.now
  first : ∀ time, c.RaisedAt raise time → c'.now ≤ time
  early : ∀ time, ends = some time → c'.now < time
  raised : c'.signal = .raised

/-- The wait is never over: there is no end to it and nobody raises the
signal. -/
structure Hangs (c : Clock) (raise ends : Option Nat) (c' : Clock) : Prop where
  endless : ends = none
  unraised : ∀ time, ¬ c.RaisedAt raise time
  later : c.now ≤ c'.now
  kept : c'.signal = c.signal

variable {c c' c'' : Clock} {raise ends : Option Nat} {time : Nat}

theorem isRaised_iff : c.isRaised = true ↔ c.signal = .raised := by
  simp [isRaised]

theorem RaisedAt.now_le (h : c.RaisedAt raise time)
    (hraise : ∀ r, raise = some r → c.now ≤ r) : c.now ≤ time := by
  cases h with
  | before raised => exact Nat.le_refl c.now
  | caller lowered => exact Nat.le_max_left _ _
  | within present raises => exact hraise time raises

/-- A signal that is not raised yet is raised when it is due, or from within. -/
theorem raisedAt_lowered {due : Option Nat} (h : c.signal = .lowered due) :
    c.RaisedAt raise time ↔ due.map (max c.now) = some time ∨ raise = some time := by
  constructor
  · intro hmoment
    cases hmoment with
    | before raised =>
      rw [isRaised_iff, h] at raised
      cases raised
    | caller lowered =>
      rw [h, Signal.lowered.injEq] at lowered
      exact Or.inl (by rw [lowered]; rfl)
    | within present raises => exact Or.inr raises
  · rintro (hcaller | hwithin)
    · obtain ⟨d, rfl, rfl⟩ := Option.map_eq_some_iff.mp hcaller
      exact .caller h
    · exact .within (by rw [h]; simp) hwithin

theorem not_raisedAt_of_absent (h : c.signal = .absent) : ¬ c.RaisedAt raise time := by
  intro hmoment
  cases hmoment with
  | before raised =>
    rw [isRaised_iff, h] at raised
    cases raised
  | caller lowered =>
    rw [h] at lowered
    cases lowered
  | within present raises => exact present h

/-- If the signal does not cut a stretch of the wait short, it is raised at the
same moments behind it. -/
theorem raisedAt_advance (h : c.interruption? (some time) = none) (hle : c.now ≤ time)
    {τ : Nat} : (c.advance time).RaisedAt raise τ ↔ c.RaisedAt raise τ := by
  have hlow := not_raised_of_no_interruption h
  have hdue : ∀ due, c.signal = .lowered (some due) → max time due = max c.now due := by
    intro due hsignal
    simp only [interruption?, hsignal, Option.all_some, decide_eq_true_eq] at h
    split at h
    · cases h
    · omega
  constructor
  · intro hmoment
    cases hmoment with
    | before raised =>
      rw [isRaised_advance, hlow] at raised
      cases raised
    | caller lowered =>
      have hmax : max (c.advance time).now _ = _ := hdue _ lowered
      rw [hmax]
      exact .caller lowered
    | within present raises => exact .within present raises
  · intro hmoment
    cases hmoment with
    | before raised =>
      rw [hlow] at raised
      cases raised
    | caller lowered =>
      rw [← hdue _ lowered]
      exact .caller (c := c.advance time) lowered
    | within present raises => exact .within present raises

/-- Behind a stretch of the wait the rest of it is over as the whole. -/
theorem Completes.of_advance (h : c.interruption? (some time) = none) (hle : c.now ≤ time)
    (hrest : (c.advance time).Completes raise ends c') : c.Completes raise ends c' where
  ending := hrest.ending
  unraised := fun τ hτ => hrest.unraised τ ((raisedAt_advance h hle).mpr hτ)
  raised := hrest.raised
  kept := hrest.kept

theorem CutShort.of_advance (h : c.interruption? (some time) = none) (hle : c.now ≤ time)
    (hrest : (c.advance time).CutShort raise ends c') : c.CutShort raise ends c' where
  moment := (raisedAt_advance h hle).mp hrest.moment
  first := fun τ hτ => hrest.first τ ((raisedAt_advance h hle).mpr hτ)
  early := hrest.early
  raised := hrest.raised

theorem Hangs.of_advance (h : c.interruption? (some time) = none) (hle : c.now ≤ time)
    (hrest : (c.advance time).Hangs raise ends c') : c.Hangs raise ends c' where
  endless := hrest.endless
  unraised := fun τ hτ => hrest.unraised τ ((raisedAt_advance h hle).mpr hτ)
  later := Nat.le_trans hle hrest.later
  kept := hrest.kept

/-- A wait that the signal cuts short in front of a deadline is cut short in the
moment of the raise, if nothing happens before the deadline. -/
theorem cutShort_of_interruption? {deadline : Option Nat}
    (h : c.interruption? deadline = some c')
    (hlater : ∀ time, ends = some time ∨ raise = some time →
      ∃ d, deadline = some d ∧ c.now < d ∧ d ≤ time) : c.CutShort raise ends c' := by
  unfold interruption? at h
  split at h
  · cases h
  · rename_i hraised
    cases h
    have hnow : ∀ time, ends = some time ∨ raise = some time → c.now < time := by
      intro time htime
      obtain ⟨d, -, hlt, hle⟩ := hlater time htime
      omega
    exact {
      moment := .before (isRaised_iff.mpr hraised)
      first := fun _ hτ => hτ.now_le fun r hr => Nat.le_of_lt (hnow r (Or.inr hr))
      early := fun time htime => hnow time (Or.inl htime)
      raised := hraised }
  · cases h
  · rename_i due hlowered
    split at h
    · rename_i hdue
      cases h
      have hbefore : ∀ time, ends = some time ∨ raise = some time → max c.now due < time := by
        intro time htime
        obtain ⟨d, rfl, hlt, hle⟩ := hlater time htime
        have hd : due < d := by simpa using hdue
        omega
      refine { moment := .caller hlowered, first := ?_, early := ?_, raised := rfl }
      · intro τ hτ
        cases hτ with
        | before raised =>
          rw [isRaised_iff, hlowered] at raised
          cases raised
        | caller lowered =>
          rw [hlowered, Signal.lowered.injEq, Option.some.injEq] at lowered
          exact Nat.le_of_eq (congrArg (max c.now) lowered)
        | within present raises => exact Nat.le_of_lt (hbefore τ (Or.inr raises))
      · exact fun time htime => hbefore time (Or.inl htime)
    · cases h

/-- Without a signal, or if nobody is going to raise it, a wait that nothing ends is
never over. -/
theorem hangs_of_no_interruption (h : c.interruption? none = none) : c.Hangs none none c where
  endless := rfl
  unraised := by
    intro time hmoment
    cases hmoment with
    | before raised =>
      rw [not_raised_of_no_interruption h] at raised
      cases raised
    | caller lowered => simp [interruption?, lowered] at h
    | within present raises => cases raises
  later := Nat.le_refl c.now
  kept := rfl

theorem completes_self (c : Clock) : c.Completes none (some c.now) c where
  ending := rfl
  unraised := fun _ hτ => hτ.now_le fun _ hr => by cases hr
  raised := by simp
  kept := fun _ => rfl

/-! ### The raise from within -/

/-- Without a signal nothing is raised. -/
theorem raise_of_absent (h : c.signal = .absent) : c.raise = c := by
  simp [raise, h]

theorem signal_raise (h : c.signal ≠ .absent) : c.raise.signal = .raised := by
  unfold raise
  split
  · contradiction
  · rfl

theorem now_raise (c : Clock) : c.raise.now = c.now := by
  unfold raise
  split <;> rfl

/-- The first moment of a wait that begins with a raise is the moment of the raise. -/
theorem now_le_of_raisedAt (h : c.RaisedAt (some c.now) time) : c.now ≤ time :=
  h.now_le fun _ hr => Nat.le_of_eq (Option.some.inj hr)

theorem Completes.of_raise (hrest : c.raise.Completes raise ends c') (hle : c.now ≤ c'.now) :
    c.Completes (some c.now) ends c' := by
  by_cases habsent : c.signal = .absent
  · rw [raise_of_absent habsent] at hrest
    exact {
      ending := hrest.ending
      unraised := fun _ hτ => absurd hτ (not_raisedAt_of_absent habsent)
      raised := by simpa [habsent] using hrest.raised
      kept := hrest.kept }
  · have hsignal := signal_raise habsent
    have hnow : c'.now = c.now := by
      have hfirst := hrest.unraised _ (.before (isRaised_iff.mpr hsignal))
      rw [now_raise] at hfirst
      omega
    have hraised : c'.isRaised = true := hrest.raised.mpr (Or.inl (isRaised_iff.mpr hsignal))
    exact {
      ending := hrest.ending
      unraised := fun _ hτ => hnow ▸ now_le_of_raisedAt hτ
      raised := by simp [hraised, habsent, hnow]
      kept := fun hlow => by rw [hraised] at hlow; cases hlow }

theorem CutShort.of_raise (hrest : c.raise.CutShort raise ends c')
    (hraise : ∀ r, raise = some r → c.now ≤ r) : c.CutShort (some c.now) ends c' := by
  by_cases habsent : c.signal = .absent
  · rw [raise_of_absent habsent] at hrest
    exact absurd hrest.moment (not_raisedAt_of_absent habsent)
  · have hbefore := hrest.first _ (.before (isRaised_iff.mpr (signal_raise habsent)))
    have hafter := hrest.moment.now_le (by rwa [now_raise])
    rw [now_raise] at hbefore hafter
    have hnow : c'.now = c.now := by omega
    exact {
      moment := .within habsent (by rw [hnow])
      first := fun _ hτ => hnow ▸ now_le_of_raisedAt hτ
      early := hrest.early
      raised := hrest.raised }

theorem Hangs.of_raise (hrest : c.raise.Hangs raise ends c') :
    c.Hangs (some c.now) ends c' := by
  by_cases habsent : c.signal = .absent
  · rw [raise_of_absent habsent] at hrest
    exact { hrest with unraised := fun _ => not_raisedAt_of_absent habsent }
  · exact absurd (.before (isRaised_iff.mpr (signal_raise habsent))) (hrest.unraised _)

/-! ### Time goes on -/

/-- From a clock to a later one. No time passes once the signal is raised, and none
passes behind the moment in which the caller has it raised. A signal that is not
raised is as it was, and where there is none, none appears. -/
structure Reaches (c c' : Clock) : Prop where
  later : c.now ≤ c'.now
  still : c.isRaised = true → c' = c
  absent : c.signal = .absent → c'.signal = .absent
  kept : c'.isRaised = false → c'.signal = c.signal
  in_time : ∀ due, c.signal = .lowered (some due) → c'.now ≤ max c.now due

namespace Reaches

theorem refl (c : Clock) : c.Reaches c where
  later := Nat.le_refl c.now
  still := fun _ => rfl
  absent := fun h => h
  kept := fun _ => rfl
  in_time := fun _ _ => Nat.le_max_left _ _

theorem trans (h : c.Reaches c') (h' : c'.Reaches c'') : c.Reaches c'' := by
  refine {
    later := Nat.le_trans h.later h'.later
    still := ?_
    absent := fun habsent => h'.absent (h.absent habsent)
    kept := ?_
    in_time := ?_ }
  · intro hraised
    have hsame := h.still hraised
    subst hsame
    exact h'.still hraised
  · intro hlow
    have hkept := h'.kept hlow
    refine hkept.trans (h.kept ?_)
    rw [← hlow, isRaised, isRaised, hkept]
  · intro due hdue
    have hfirst := h.in_time due hdue
    cases hraised : c'.isRaised with
    | true =>
      rw [h'.still hraised]
      exact hfirst
    | false =>
      have hlast := h'.in_time due ((h.kept hraised).trans hdue)
      omega

end Reaches

/-- A clock that is reached in the first moment of a raise, or before. -/
theorem reaches_of_first (hlater : c.now ≤ c'.now)
    (hfirst : ∀ time, c.RaisedAt raise time → c'.now ≤ time)
    (hsame : c.isRaised = true → c'.signal = .raised)
    (habsent : c.signal = .absent → c'.signal = .absent)
    (hkept : c'.isRaised = false → c'.signal = c.signal) : c.Reaches c' where
  later := hlater
  still := by
    intro hraised
    have hnow : c'.now = c.now := Nat.le_antisymm (hfirst _ (.before hraised)) hlater
    cases c
    cases c'
    simp_all [isRaised]
  absent := habsent
  kept := hkept
  in_time := fun _ hdue => hfirst _ (.caller hdue)

theorem Completes.reaches (h : c.Completes raise ends c')
    (hends : ∀ time, ends = some time → c.now ≤ time) : c.Reaches c' := by
  refine reaches_of_first (hends _ h.ending) h.unraised ?_ ?_ h.kept
  · exact fun hraised => isRaised_iff.mp (h.raised.mpr (Or.inl hraised))
  · intro habsent
    have hlow : c'.isRaised = false := by
      rw [Bool.eq_false_iff]
      intro hraised
      rcases h.raised.mp hraised with hbefore | ⟨hpresent, -⟩
      · rw [isRaised_iff, habsent] at hbefore
        cases hbefore
      · exact hpresent habsent
    exact (h.kept hlow).trans habsent

theorem CutShort.reaches (h : c.CutShort raise ends c')
    (hraise : ∀ time, raise = some time → c.now ≤ time) : c.Reaches c' := by
  have hraised : c'.isRaised = true := isRaised_iff.mpr h.raised
  refine reaches_of_first (h.moment.now_le hraise) h.first (fun _ => h.raised) ?_ ?_
  · exact fun habsent => absurd h.moment (not_raisedAt_of_absent habsent)
  · intro hlow
    rw [hraised] at hlow
    cases hlow

theorem Hangs.reaches (h : c.Hangs raise ends c') : c.Reaches c' :=
  reaches_of_first h.later (fun time hτ => absurd hτ (h.unraised time))
    (fun hraised => absurd (.before hraised) (h.unraised c.now))
    (fun habsent => h.kept.trans habsent) (fun _ => h.kept)

/-- The signal is raised, or it was due before. -/
def Overdue (c : Clock) : Prop :=
  c.isRaised = true ∨ ∃ due, c.signal = .lowered (some due) ∧ due < c.now

/-- An overdue signal cuts short what would never be over. -/
theorem Overdue.cutShort (h : c.Overdue) : c.CutShort none none ⟨c.now, .raised⟩ where
  moment := by
    rcases h with hraised | ⟨due, hdue, hpast⟩
    · exact .before hraised
    · have hmoment : c.RaisedAt none (max c.now due) := .caller hdue
      rwa [Nat.max_eq_left (Nat.le_of_lt hpast)] at hmoment
  first := fun _ hτ => hτ.now_le (by simp)
  early := by simp
  raised := rfl

theorem Overdue.reaches (h : c.Overdue) : c.Reaches ⟨c.now, .raised⟩ :=
  h.cutShort.reaches (by simp)

/-- The wait for some milliseconds, which nothing cuts short but the caller. -/
def Pauses (c : Clock) (ms : Nat) (c' : Clock) : Prop :=
  c.Completes none (some (c.now + ms)) c' ∨ c.CutShort none (some (c.now + ms)) c'

theorem Pauses.reaches {ms : Nat} (h : c.Pauses ms c') : c.Reaches c' := by
  rcases h with hdone | hcut
  · refine hdone.reaches fun time htime => ?_
    cases htime
    exact Nat.le_add_right c.now ms
  · exact hcut.reaches (by simp)

/-! ### Clocks in a row -/

section

variable {clocks : List Clock}

/-- The row of the clocks that are reached from one another, begun earlier. -/
theorem Reaches.pairwise_skip (h : c.Reaches c') (hrow : (c' :: clocks).Pairwise Reaches) :
    (c :: clocks).Pairwise Reaches := by
  rw [List.pairwise_cons] at hrow ⊢
  exact ⟨fun x hx => h.trans (hrow.1 x hx), hrow.2⟩

theorem Reaches.pairwise_cons (h : c.Reaches c') (hrow : (c' :: clocks).Pairwise Reaches) :
    (c :: c' :: clocks).Pairwise Reaches := by
  refine List.pairwise_cons.mpr ⟨List.forall_mem_cons.mpr ⟨h, ?_⟩, hrow⟩
  exact (List.pairwise_cons.mp (h.pairwise_skip hrow)).1

end

end Clock

/-! ## Waiting for an activity -/

/-- The clock when a wait is over, or for good if it is never over. -/
def Awaited.clock {σ α : Type} : Awaited σ α → Clock
  | .ready c _ _ | .interrupted c _ | .never c _ => c

namespace Activity

variable {σ α : Type} {activity rest : Activity σ α} {c : Clock} {w : Awaited σ α}

/-- How the wait for an activity is over. -/
inductive Waited (activity : Activity σ α) (c : Clock) : Awaited σ α → Prop
  | ready {c' : Clock} {s : σ} {a : α} (gives : activity.endsAt? c.now = some (c'.now, a))
      (wait : c.Completes (activity.raisesAt? c.now) (some c'.now) c') :
      Waited activity c (.ready c' s a)
  | interrupted {c' : Clock} {s : σ}
      (wait : c.CutShort (activity.raisesAt? c.now) ((activity.endsAt? c.now).map (·.1)) c') :
      Waited activity c (.interrupted c' s)
  | never {c' : Clock} {s : σ}
      (wait : c.Hangs (activity.raisesAt? c.now) ((activity.endsAt? c.now).map (·.1)) c') :
      Waited activity c (.never c' s)

theorem Waited.of_advance {s : σ} {ms : Nat}
    (h : c.interruption? (some (c.now + ms)) = none)
    (hrest : Waited rest (c.advance (c.now + ms)) w) : Waited (.wait s ms rest) c w := by
  have hle := Nat.le_add_right c.now ms
  cases hrest with
  | ready gives wait => exact .ready gives (wait.of_advance h hle)
  | interrupted wait => exact .interrupted (wait.of_advance h hle)
  | never wait => exact .never (wait.of_advance h hle)

/-- No wait of zero milliseconds is ever begun. -/
theorem Waited.of_zero (s : σ) (hrest : Waited rest c w) : Waited (.wait s 0 rest) c w := by
  cases hrest with
  | ready gives wait => exact .ready gives wait
  | interrupted wait => exact .interrupted wait
  | never wait => exact .never wait

theorem Waited.of_raise (hrest : Waited rest c.raise w) : Waited (.raise rest) c w := by
  have hnow := c.now_raise
  cases hrest with
  | ready gives wait =>
    have hle := le_of_endsAt? gives
    rw [hnow] at gives hle
    exact .ready gives (wait.of_raise hle)
  | interrupted wait =>
    rw [hnow] at wait
    exact .interrupted (wait.of_raise fun _ hr => le_of_raisesAt? hr)
  | never wait =>
    rw [hnow] at wait
    exact .never wait.of_raise

/-- The wait for an activity is over in one of the three ways. -/
theorem waited_follow (activity : Activity σ α) (c : Clock) :
    Waited activity c (activity.follow c) := by
  induction activity generalizing c with
  | done s a => exact .ready rfl c.completes_self
  | stuck s =>
    rw [follow]
    split
    · rename_i hcut
      exact .interrupted (Clock.cutShort_of_interruption? hcut (by simp [endsAt?, raisesAt?]))
    · rename_i hnone
      exact .never (Clock.hangs_of_no_interruption hnone)
  | wait s ms rest ih =>
    rw [follow]
    split
    · rename_i hms
      subst hms
      exact (ih c).of_zero s
    · rename_i hms
      split
      · rename_i hcut
        refine .interrupted (Clock.cutShort_of_interruption? hcut ?_)
        intro time htime
        refine ⟨c.now + ms, rfl, by omega, ?_⟩
        rcases htime with hends | hraises
        · obtain ⟨e, he, rfl⟩ := Option.map_eq_some_iff.mp hends
          have hrest : rest.endsAt? (c.now + ms) = some (e.1, e.2) := he
          exact le_of_endsAt? hrest
        · have hrest : rest.raisesAt? (c.now + ms) = some time := hraises
          exact le_of_raisesAt? hrest
      · rename_i hnone
        exact .of_advance hnone (ih _)
  | raise rest ih => exact .of_raise (ih c.raise)

theorem Waited.reaches (h : Waited activity c w) : c.Reaches w.clock := by
  have hraise : ∀ time, activity.raisesAt? c.now = some time → c.now ≤ time :=
    fun _ => le_of_raisesAt?
  cases h with
  | ready gives wait =>
    refine wait.reaches fun time htime => ?_
    cases htime
    exact le_of_endsAt? gives
  | interrupted wait => exact wait.reaches hraise
  | never wait => exact wait.reaches

/-- If the signal is raised when the result comes, and was not before, it was raised in
that very moment by what was waited for. -/
theorem Waited.raisesWith {c' : Clock} {s : σ} {a : α} (h : Waited activity c (.ready c' s a))
    (low : c.isRaised = false) (raised : c'.isRaised = true) : activity.RaisesWith a := by
  cases h with
  | ready gives wait =>
    rcases wait.raised.mp raised with hbefore | ⟨-, hraises⟩
    · rw [low] at hbefore
      cases hbefore
    · exact ⟨c.now, c'.now, gives, hraises⟩

/-- A pause is over like the wait for some milliseconds. -/
theorem Waited.pauses {s : σ} {ms : Nat} {w : Awaited σ Unit} (h : Waited (pause s ms) c w) :
    c.Pauses ms w.clock := by
  cases h with
  | @ready c' s a gives wait =>
    have hnow : c.now + ms = c'.now := congrArg Prod.fst (Option.some.inj gives)
    refine Or.inl ?_
    rw [hnow]
    exact wait
  | interrupted wait => exact Or.inr wait
  | never wait => cases wait.endless

end Activity

end AgentLoop
