/-
AgentLoop.Proofs.Json.Numerals — the numbers of JSON text.

* `numberToken_signed` — a numeral that is spelled well is a number
* `numberToken_intChars`, `numberToken_floatChars` — a number that is written
  is read back as the same number
* `Token.Sound`, `sound_numberToken` — whatever is written, the value of a
  number is a value that a text can stand for

Whole numbers and floating point numbers are told apart by the point or the
exponent, which a floating point number always has.
-/
import AgentLoop.Json.Printer
import AgentLoop.Json.Token
import AgentLoop.Proofs.Number.Spelling

namespace AgentLoop.Json

open Number (Numeral Decimal binary64 digitChars intChars signed)

/-! ## Numerals as tokens -/

theorem isNumberChar_of_isDigit {c : Char} (h : c.isDigit = true) : isNumberChar c = true := by
  simp [isNumberChar, h]

theorem isNumberChar_of_mem_sign {s : Bool} {ds : List Char}
    (h : ∀ c ∈ ds, isNumberChar c = true) : ∀ c ∈ signed s ds, isNumberChar c = true := by
  intro c hc
  cases s with
  | false => exact h c hc
  | true =>
    rcases List.mem_cons.mp hc with rfl | hc
    · decide
    · exact h c hc

/-- The text of a numeral has characters of numbers only. -/
theorem isNumberChar_of_mem_signed {n : Numeral} (h : n.Spelled) (s : Bool) {c : Char}
    (hc : c ∈ signed s n.chars) : isNumberChar c = true := by
  obtain ⟨whole, fraction, exponent⟩ := n
  refine isNumberChar_of_mem_sign (fun c hc => ?_) c hc
  simp only [Numeral.chars, List.mem_append] at hc
  rcases hc with hc | hc | hc
  · exact isNumberChar_of_isDigit (h.proper.whole c hc)
  · cases fraction with
    | none => cases hc
    | some ds =>
      rcases List.mem_cons.mp hc with rfl | hc
      · decide
      · exact isNumberChar_of_isDigit (h.proper.fraction ds rfl c hc)
  · cases exponent with
    | none => cases hc
    | some e =>
      have hds := (h.proper.exponent e.1 e.2 rfl).2
      rcases List.mem_cons.mp hc with rfl | hc
      · decide
      · exact isNumberChar_of_mem_sign (fun c hc => isNumberChar_of_isDigit (hds c hc)) c hc

/-- The text of a numeral begins with a digit. -/
theorem head_chars {n : Numeral} (h : n.Spelled) :
    ∃ c rest, n.chars = c :: rest ∧ c.isDigit = true := by
  obtain ⟨c, rest, hwhole⟩ := List.exists_cons_of_ne_nil h.some_whole
  rw [Numeral.chars, hwhole]
  exact ⟨c, _, rfl, h.proper.whole c (by rw [hwhole]; exact List.mem_cons_self)⟩

/-- With a sign or without, it begins as a number does and goes on as one. -/
theorem signed_chars {n : Numeral} (h : n.Spelled) (s : Bool) :
    ∃ c rest, signed s n.chars = c :: rest ∧ (c.isDigit = true ∨ c = '-') ∧
      ∀ d ∈ rest, isNumberChar d = true := by
  have hall := fun (d : Char) => isNumberChar_of_mem_signed h s (c := d)
  cases s with
  | true => exact ⟨'-', n.chars, rfl, Or.inr rfl, fun d hd => hall d (List.mem_cons_of_mem _ hd)⟩
  | false =>
    obtain ⟨c, rest, hchars, hdigit⟩ := head_chars h
    rw [hchars] at hall ⊢
    exact ⟨c, rest, rfl, Or.inl hdigit, fun d hd => hall d (List.mem_cons_of_mem _ hd)⟩

theorem wellSpelled_of_spelled {n : Numeral} (h : n.Spelled) : wellSpelled n = true := by
  simp [wellSpelled, h.some_whole, h.some_fraction, h.no_zero]

theorem numberToken_of_digit {c : Char} {rest : List Char} {n : Numeral} (hc : c.isDigit = true)
    (hread : Numeral.read? (c :: rest) = some n) (hspelled : wellSpelled n = true) :
    numberToken (c :: rest) = .number (numberValue false n) := by
  have hsign : c ≠ '-' := by
    intro h
    rw [h] at hc
    exact absurd hc (by decide)
  simp [numberToken, hsign, hread, hspelled]

/-- A numeral that is spelled well is a number, with a sign in front or
none. -/
theorem numberToken_signed {n : Numeral} (h : n.Spelled) (s : Bool) :
    numberToken (signed s n.chars) = .number (numberValue s n) := by
  have hread := Numeral.read?_chars h.proper
  have hspelled := wellSpelled_of_spelled h
  cases s with
  | true => simp [numberToken, signed, hread, hspelled]
  | false =>
    obtain ⟨c, rest, hchars, hdigit⟩ := head_chars h
    rw [hchars] at hread ⊢
    exact numberToken_of_digit hdigit hread hspelled

/-! ## Whole numbers -/

/-- The numeral of a whole number. -/
def wholeNumeral (n : Nat) : Numeral := ⟨digitChars n, none, none⟩

theorem spelled_wholeNumeral (n : Nat) : (wholeNumeral n).Spelled := by
  refine ⟨⟨fun c => Number.isDigit_of_mem_digitChars, nofun, nofun⟩, Number.digitChars_ne_nil n,
    ?_, nofun⟩
  rcases Nat.eq_zero_or_pos n with rfl | hpos
  · exact Or.inl rfl
  · exact Or.inr (Number.head?_digitChars (Nat.pos_iff_ne_zero.mp hpos))

theorem intChars_eq_signed (n : Int) :
    intChars n = signed (n < 0) (wholeNumeral n.natAbs).chars := by
  rw [Decimal.intChars_eq]
  simp [Numeral.chars, wholeNumeral]

/-- A whole number of 64 bits is read back. -/
theorem numberToken_intChars {n : Int} (hlow : minInt ≤ n) (hhigh : n ≤ maxInt) :
    numberToken (intChars n) = .number (some (.int n)) := by
  rw [intChars_eq_signed, numberToken_signed (spelled_wholeNumeral _)]
  have hwhole : (wholeNumeral n.natAbs).isWhole = true := rfl
  have hvalue : Number.digitsValue (wholeNumeral n.natAbs).whole = n.natAbs :=
    Number.digitsValue_digitChars _
  simp only [numberValue, hwhole, hvalue, if_true]
  by_cases hneg : n < 0
  · have habs : -(n.natAbs : Int) = n := by omega
    have hnonzero : n.natAbs ≠ 0 := by omega
    have hfits : (n.natAbs ≠ 0 && minInt ≤ n : Bool) = true := by simp [hnonzero, hlow]
    rw [if_pos (decide_eq_true hneg), habs, if_pos hfits]
  · have habs : (n.natAbs : Int) = n := by omega
    rw [if_neg (by simp [hneg]), habs, if_pos hhigh]

/-! ## Floating point numbers -/

/-- A floating point number is written as a numeral with a fraction or an
exponent that reads back. -/
theorem floatChars_eq_signed (x : Number.Finite binary64) :
    ∃ n : Numeral, floatChars x = signed x.negative n.chars ∧ n.Spelled ∧ n.isWhole = false ∧
      n.decimal.nearestOrdinal binary64 = x.ordinal := by
  refine ⟨(x.shortest .even).numeral floatLayout, ?_, ?_⟩
  · rw [floatChars, Decimal.chars_numeral]
  · rw [Decimal.nearestOrdinal_numeral, Number.Finite.nearestOrdinal_shortest, ← and_assoc]
    refine ⟨?_, rfl⟩
    by_cases hzero : x.ordinal = 0
    · -- zero is written with one digit on either side of the point
      have hnumeral : (x.shortest .even).numeral floatLayout = ⟨['0'], some ['0'], none⟩ := by
        rw [Number.Finite.shortest, if_pos hzero]
        decide
      rw [hnumeral]
      refine ⟨⟨⟨by simp, ?_, by simp⟩, by simp, Or.inl rfl, by simp⟩, rfl⟩
      rintro ds ⟨⟩
      simp
    · exact Decimal.spelled_numeral _ (Number.Finite.digits_shortest hzero)

theorem floatValue_of_nearest {n : Numeral} {x : Number.Finite binary64}
    (h : n.decimal.nearestOrdinal binary64 = x.ordinal) :
    floatValue x.negative n = some (.float x) := by
  rw [floatValue, Decimal.toBinary, h, Number.Binary.ofOrdinal, dif_pos x.bounded]
  rfl

/-- A floating point number is read back, the sign of a zero included. -/
theorem numberToken_floatChars (x : Number.Finite binary64) :
    numberToken (floatChars x) = .number (some (.float x)) := by
  obtain ⟨n, hchars, hspelled, hwhole, hnearest⟩ := floatChars_eq_signed x
  rw [hchars, numberToken_signed hspelled, numberValue, hwhole]
  simp [floatValue_of_nearest hnearest]

/-! ## Any number -/

/-- Whether a value is a number. -/
def IsNumber : Json → Prop
  | .int _ | .float _ => True
  | _ => False

/-- The token of a number has a number that a text can stand for. -/
def Token.Sound : Token → Prop
  | .number (some v) => v.WellFormed ∧ v.IsNumber
  | _ => True

theorem sound_floatValue (s : Bool) (n : Numeral) : (Token.number (floatValue s n)).Sound := by
  rw [floatValue]
  cases (n.decimal.toBinary binary64 s).toFinite? with
  | none => trivial
  | some x => exact ⟨rfl, trivial⟩

theorem sound_numberValue (s : Bool) (n : Numeral) : (Token.number (numberValue s n)).Sound := by
  simp only [numberValue]
  split
  · split
    · split
      · rename_i hlow
        simp only [Bool.and_eq_true, decide_eq_true_eq] at hlow
        refine ⟨?_, trivial⟩
        simp only [WellFormed, wellFormed, Bool.and_eq_true, decide_eq_true_eq]
        exact ⟨hlow.2, by simp only [maxInt]; omega⟩
      · exact sound_floatValue s n
    · split
      · rename_i hhigh
        refine ⟨?_, trivial⟩
        simp only [WellFormed, wellFormed, Bool.and_eq_true, decide_eq_true_eq]
        exact ⟨by simp only [minInt]; omega, hhigh⟩
      · exact sound_floatValue s n
  · exact sound_floatValue s n

theorem sound_numberToken (cs : List Char) : (numberToken cs).Sound := by
  simp only [numberToken]
  split
  · split
    · exact sound_numberValue _ _
    · trivial
  · trivial

end AgentLoop.Json
