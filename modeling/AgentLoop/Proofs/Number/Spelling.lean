/-
AgentLoop.Proofs.Number.Spelling — numbers as they are written, and taken
apart again.

* `digitsValue_digitChars` — the digits of a number have its value
* `Numeral.chars`, `Numeral.read?_chars` — a numeral is taken apart as it was
  put together
* `Decimal.numeral`, `chars_numeral` — the numeral that the layout of a decimal
  spells
* `Numeral.Spelled`, `spelled_numeral` — it has digits where they belong
* `nearestOrdinal_numeral` — it is read as the number that the decimal is

The positional layout fills up with zeros, so the numeral need not have the
digits of the decimal. It has the same value, which is all that reading
depends on.
-/
import AgentLoop.Number.Numeral
import AgentLoop.Proofs.Number.Rounding

namespace AgentLoop.Number

/-! ## Rows of digits -/

theorem digitsValue_eq (cs : List Char) : digitsValue cs = Nat.ofDigitChars 10 cs 0 := rfl

@[simp] theorem digitsValue_digitChars (n : Nat) : digitsValue (digitChars n) = n :=
  Nat.ofDigitChars_ten_toDigits

theorem digitsValue_append_zeros (cs : List Char) (n : Nat) :
    digitsValue (cs ++ zeros n) = digitsValue cs * 10 ^ n := by
  rw [digitsValue_eq, Nat.ofDigitChars_append, zeros, Nat.ofDigitChars_replicate_zero,
    Nat.mul_comm]
  rfl

theorem digitsValue_zeros_append (n : Nat) (cs : List Char) :
    digitsValue (zeros n ++ cs) = digitsValue cs := by
  rw [digitsValue_eq, Nat.ofDigitChars_append, zeros, Nat.ofDigitChars_replicate_zero,
    Nat.mul_zero]
  rfl

theorem isDigit_of_mem_digitChars {n : Nat} {c : Char} (h : c ∈ digitChars n) :
    c.isDigit = true :=
  Nat.isDigit_of_mem_toDigits (by decide) (by decide) h

theorem isDigit_of_mem_zeros {n : Nat} {c : Char} (h : c ∈ zeros n) : c.isDigit = true := by
  rw [List.eq_of_mem_replicate h]
  rfl

theorem digitChars_ne_nil (n : Nat) : digitChars n ≠ [] := Nat.toDigits_ne_nil

theorem length_digitChars_pos (n : Nat) : 0 < (digitChars n).length := Nat.length_toDigits_pos

theorem head?_append_left {cs ds : List Char} (h : cs ≠ []) : (cs ++ ds).head? = cs.head? := by
  cases cs with
  | nil => exact absurd rfl h
  | cons c rest => rfl

/-- Only zero begins with the digit zero. -/
theorem head?_digitChars {n : Nat} (h : n ≠ 0) : (digitChars n).head? ≠ some '0' := by
  induction n using Nat.strongRecOn with
  | ind n ih =>
    rw [digitChars, Nat.toDigits_eq_if (by decide)]
    split
    · simpa using h
    · rename_i hlarge
      have hquotient := ih (n / 10) (by omega) (by omega)
      rwa [head?_append_left Nat.toDigits_ne_nil]

/-! ## Numerals -/

namespace Numeral

/-- The text of a numeral. -/
def chars (n : Numeral) : List Char :=
  n.whole ++ ((n.fraction.map ('.' :: ·)).getD [] ++
    (n.exponent.map fun e => 'e' :: signed e.1 e.2).getD [])

/-- All parts of a numeral are rows of digits, and its exponent has some. -/
structure Proper (n : Numeral) : Prop where
  whole : ∀ c ∈ n.whole, c.isDigit = true
  fraction : ∀ ds, n.fraction = some ds → ∀ c ∈ ds, c.isDigit = true
  exponent : ∀ s ds, n.exponent = some (s, ds) → ds ≠ [] ∧ ∀ c ∈ ds, c.isDigit = true

theorem splitSign_signed (s : Bool) {ds : List Char} (hds : ∀ c ∈ ds, c.isDigit = true) :
    splitSign (signed s ds) = (if s then some '-' else none, ds) := by
  cases s with
  | true => rfl
  | false =>
    cases ds with
    | nil => rfl
    | cons c rest =>
      have hc := hds c List.mem_cons_self
      have hminus : c ≠ '-' := by
        rintro rfl
        cases hc
      have hplus : c ≠ '+' := by
        rintro rfl
        cases hc
      simp only [signed, splitSign]
      split <;> simp_all

theorem readExponent?_signed (s : Bool) {ds : List Char} (hne : ds ≠ [])
    (hds : ∀ c ∈ ds, c.isDigit = true) :
    readExponent? ('e' :: signed s ds) = some (some (s, ds)) := by
  have hall : ds.all Char.isDigit = true := List.all_eq_true.mpr hds
  cases s <;> simp [readExponent?, splitSign_signed _ hds, hne, hall]

/-- What follows the digits begins with the letter of an exponent, if it is
there, and is read as the exponent that it is. -/
theorem readExponent?_getD {e : Option (Bool × List Char)}
    (h : ∀ s ds, e = some (s, ds) → ds ≠ [] ∧ ∀ c ∈ ds, c.isDigit = true) :
    readExponent? ((e.map fun e => 'e' :: signed e.1 e.2).getD []) = some e ∧
      ∀ c ∈ ((e.map fun e => 'e' :: signed e.1 e.2).getD []).head?, c = 'e' := by
  cases e with
  | none => exact ⟨rfl, by simp⟩
  | some e =>
    obtain ⟨hne, hds⟩ := h e.1 e.2 rfl
    exact ⟨readExponent?_signed e.1 hne hds, by simp⟩

/-- Digits in front of something else are taken off as they are. -/
theorem takeWhile_digits {ds rest : List Char} (hds : ∀ c ∈ ds, c.isDigit = true)
    (hrest : ∀ c ∈ rest.head?, c.isDigit = false) :
    (ds ++ rest).takeWhile Char.isDigit = ds ∧ (ds ++ rest).dropWhile Char.isDigit = rest := by
  rw [List.takeWhile_append_of_pos hds, List.dropWhile_append_of_pos hds]
  cases rest with
  | nil => simp
  | cons c cs => simp [hrest c rfl]

/-- A numeral is taken apart as it was put together. -/
theorem read?_chars {n : Numeral} (h : n.Proper) : read? n.chars = some n := by
  obtain ⟨whole, fraction, exponent⟩ := n
  have hwhole : ∀ c ∈ whole, c.isDigit = true := h.whole
  obtain ⟨hread, hhead⟩ := readExponent?_getD h.exponent
  rw [chars]
  dsimp only at hread hhead ⊢
  generalize (exponent.map fun e => 'e' :: signed e.1 e.2).getD [] = tail at hread hhead
  have hnodigit : ∀ c ∈ tail.head?, c.isDigit = false := by
    intro c hc
    rw [hhead c hc]
    rfl
  cases fraction with
  | none =>
    obtain ⟨htake, hdrop⟩ := takeWhile_digits hwhole hnodigit
    simp only [Option.map_none, Option.getD_none, List.nil_append, read?, htake, hdrop]
    cases tail with
    | nil => simp [hread]
    | cons c rest =>
      rw [hhead c rfl] at hread ⊢
      simp [hread]
  | some ds =>
    have hpoint : ∀ c ∈ ('.' :: (ds ++ tail)).head?, c.isDigit = false := by simp
    obtain ⟨htake, hdrop⟩ := takeWhile_digits hwhole hpoint
    obtain ⟨htake', hdrop'⟩ := takeWhile_digits (h.fraction ds rfl) hnodigit
    simp only [Option.map_some, Option.getD_some, List.cons_append, read?, htake, hdrop, htake',
      hdrop', hread]

/-- A numeral is spelled with a digit in front of the point and one behind it,
and has no zero in front of other digits. -/
structure Spelled (n : Numeral) : Prop where
  proper : n.Proper
  some_whole : n.whole ≠ []
  no_zero : n.whole.length = 1 ∨ n.whole.head? ≠ some '0'
  some_fraction : n.fraction ≠ some []

end Numeral

/-! ## The layout of a decimal -/

namespace Decimal

/-- The numeral of a decimal without an exponent. -/
def positionalNumeral (d : Decimal) : Numeral :=
  let ds := digitChars d.digits
  let point := (ds.length : Int) + d.exponent
  if d.exponent ≥ 0 then ⟨ds ++ zeros d.exponent.toNat, some ['0'], none⟩
  else if point > 0 then ⟨ds.take point.toNat, some (ds.drop point.toNat), none⟩
  else ⟨['0'], some (zeros (-point).toNat ++ ds), none⟩

/-- The numeral of a decimal with an exponent. -/
def scientificNumeral (d : Decimal) : Numeral :=
  let ds := digitChars d.digits
  let exponent := (ds.length : Int) + d.exponent - 1
  ⟨ds.take 1, if ds.drop 1 = [] then none else some (ds.drop 1),
    some (exponent < 0, digitChars exponent.natAbs)⟩

/-- The numeral that the layout of a decimal spells. -/
def numeral (l : Layout) (d : Decimal) : Numeral :=
  let point := (digitCount d.digits : Int) + d.exponent
  if l.lowest ≤ point && point ≤ l.highest then d.positionalNumeral else d.scientificNumeral

theorem intChars_eq (n : Int) : intChars n = signed (n < 0) (digitChars n.natAbs) := by
  cases n with
  | ofNat n => rfl
  | negSucc n =>
    have hneg : Int.negSucc n < 0 := Int.negSucc_lt_zero n
    simp [intChars, signed, hneg]

theorem chars_numeral (l : Layout) (d : Decimal) : (d.numeral l).chars = d.layout l := by
  rw [numeral, layout]
  split
  · rw [positionalNumeral, positional]
    split
    · simp [Numeral.chars]
    · split
      · simp [Numeral.chars]
      · simp [Numeral.chars]
  · rw [scientificNumeral, scientific]
    rw [intChars_eq]
    cases h : (digitChars d.digits).drop 1 with
    | nil => simp [Numeral.chars]
    | cons c rest => simp [Numeral.chars]

theorem spelled_positional {d : Decimal} (h : d.digits ≠ 0) :
    d.positionalNumeral.Spelled ∧ d.positionalNumeral.isWhole = false := by
  have hdigit : ∀ c ∈ digitChars d.digits, c.isDigit = true := fun c => isDigit_of_mem_digitChars
  have hzeros : ∀ n, ∀ c ∈ zeros n, c.isDigit = true := fun n c => isDigit_of_mem_zeros
  have hlength := length_digitChars_pos d.digits
  have hhead := head?_digitChars h
  have hne := digitChars_ne_nil d.digits
  rw [positionalNumeral]
  generalize digitChars d.digits = ds at hdigit hlength hhead hne
  split
  · refine ⟨⟨⟨?_, ?_, nofun⟩, by simp [hne], Or.inr ?_, by simp⟩, rfl⟩
    · simpa [or_imp, forall_and] using ⟨hdigit, hzeros _⟩
    · rintro ds ⟨⟩
      simp
    · rwa [head?_append_left hne]
  · split
    · rename_i hneg hpoint
      -- the point is behind the first digit or further on
      obtain ⟨n, hn⟩ : ∃ n, ((ds.length : Int) + d.exponent).toNat = n + 1 :=
        ⟨((ds.length : Int) + d.exponent).toNat - 1, by omega⟩
      rw [hn]
      refine ⟨⟨⟨?_, ?_, nofun⟩, ?_, Or.inr ?_, ?_⟩, rfl⟩
      · exact fun c hc => hdigit c (List.mem_of_mem_take hc)
      · rintro ds' ⟨⟩
        exact fun c hc => hdigit c (List.mem_of_mem_drop hc)
      · simpa using hne
      · rwa [List.head?_take, if_neg (Nat.succ_ne_zero n)]
      · rw [ne_eq, Option.some.injEq, List.drop_eq_nil_iff]
        omega
    · refine ⟨⟨⟨by simp, ?_, nofun⟩, by simp, Or.inl rfl, by simp [hne]⟩, rfl⟩
      rintro ds' ⟨⟩
      simpa [or_imp, forall_and] using ⟨hzeros _, hdigit⟩

theorem spelled_scientific {d : Decimal} (h : d.digits ≠ 0) :
    d.scientificNumeral.Spelled ∧ d.scientificNumeral.isWhole = false := by
  have hdigit : ∀ c ∈ digitChars d.digits, c.isDigit = true := fun c => isDigit_of_mem_digitChars
  have hhead := head?_digitChars h
  have hne := digitChars_ne_nil d.digits
  rw [scientificNumeral]
  generalize digitChars d.digits = ds at hdigit hhead hne
  refine ⟨⟨⟨?_, ?_, ?_⟩, ?_, Or.inr ?_, ?_⟩, by simp [Numeral.isWhole]⟩
  · exact fun c hc => hdigit c (List.mem_of_mem_take hc)
  · intro ds' hds'
    split at hds'
    · cases hds'
    · cases hds'
      exact fun c hc => hdigit c (List.mem_of_mem_drop hc)
  · rintro s ds' ⟨⟩
    exact ⟨digitChars_ne_nil _, fun c => isDigit_of_mem_digitChars⟩
  · simpa using hne
  · rwa [List.head?_take, if_neg Nat.one_ne_zero]
  · split <;> simp_all

/-- A decimal with digits is spelled as a number with a fraction or an
exponent. -/
theorem spelled_numeral (l : Layout) {d : Decimal} (h : d.digits ≠ 0) :
    (d.numeral l).Spelled ∧ (d.numeral l).isWhole = false := by
  rw [numeral]
  split
  · exact spelled_positional h
  · exact spelled_scientific h

theorem nearestOrdinal_of_value {f : Format} {d : Decimal} {n : Numeral}
    (hdigits : digitsValue n.digits = d.digits)
    (hexponent : n.power - (n.fraction.getD []).length = d.exponent) :
    n.decimal.nearestOrdinal f = d.nearestOrdinal f := by
  rw [Numeral.decimal, hdigits, hexponent]

theorem nearestOrdinal_positional (f : Format) (d : Decimal) :
    d.positionalNumeral.decimal.nearestOrdinal f = d.nearestOrdinal f := by
  have hlength := length_digitChars_pos d.digits
  have hvalue := digitsValue_digitChars d.digits
  rw [positionalNumeral]
  generalize digitChars d.digits = ds at hlength hvalue
  split
  · rename_i hpos
    -- the zeros in front of the point and the one behind it move to the power
    have hzero : ds ++ zeros d.exponent.toNat ++ ['0'] = ds ++ zeros (d.exponent.toNat + 1) := by
      rw [List.append_assoc, zeros, zeros, List.replicate_succ']
    have hdecimal : Numeral.decimal ⟨ds ++ zeros d.exponent.toNat, some ['0'], none⟩ =
        ⟨d.digits * 10 ^ (d.exponent.toNat + 1), -1⟩ := by
      rw [Numeral.decimal, Numeral.digits, Option.getD_some, hzero, digitsValue_append_zeros,
        hvalue]
      rfl
    rw [hdecimal, nearestOrdinal_shift]
    congr 2
    omega
  · split
    · rename_i hneg hpoint
      refine nearestOrdinal_of_value (by simp [Numeral.digits, hvalue]) ?_
      simp only [Numeral.power, Option.getD_some, List.length_drop]
      omega
    · rename_i hneg hpoint
      refine nearestOrdinal_of_value ?_ ?_
      · have hdigits : ['0'] ++ (zeros (-((ds.length : Int) + d.exponent)).toNat ++ ds) =
            zeros ((-((ds.length : Int) + d.exponent)).toNat + 1) ++ ds := by
          rw [zeros, zeros, List.replicate_succ]
          rfl
        rw [Numeral.digits, Option.getD_some, hdigits, digitsValue_zeros_append, hvalue]
      · simp only [Numeral.power, Option.getD_some, List.length_append, zeros,
          List.length_replicate]
        omega

theorem nearestOrdinal_scientific (f : Format) (d : Decimal) :
    d.scientificNumeral.decimal.nearestOrdinal f = d.nearestOrdinal f := by
  have hlength := length_digitChars_pos d.digits
  have hvalue := digitsValue_digitChars d.digits
  rw [scientificNumeral]
  generalize digitChars d.digits = ds at hlength hvalue
  have hfraction : (if ds.drop 1 = [] then none else some (ds.drop 1)).getD [] = ds.drop 1 := by
    split
    · rename_i hnone
      rw [hnone]
      rfl
    · rfl
  refine nearestOrdinal_of_value ?_ ?_
  · rw [Numeral.digits, hfraction, List.take_append_drop, hvalue]
  · rw [hfraction, List.length_drop]
    simp only [Numeral.power]
    by_cases hneg : (ds.length : Int) + d.exponent - 1 < 0
    · simp only [hneg, decide_true, digitsValue_digitChars]
      omega
    · simp only [hneg, decide_false, digitsValue_digitChars]
      omega

/-- The numeral of a decimal is read as the number that the decimal is. -/
theorem nearestOrdinal_numeral (f : Format) (l : Layout) (d : Decimal) :
    (d.numeral l).decimal.nearestOrdinal f = d.nearestOrdinal f := by
  rw [numeral]
  split
  · exact nearestOrdinal_positional f d
  · exact nearestOrdinal_scientific f d

end Decimal

end AgentLoop.Number
