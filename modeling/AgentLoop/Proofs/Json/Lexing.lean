/-
AgentLoop.Proofs.Json.Lexing — the text of a value, cut into tokens.

* `Spells` — a row of characters is a row of tokens, whatever was there before
* `Spells.mark` — two rows with a bracket or a mark between them
* `spells_number`, `spells_quoted` — numbers and strings
* `Json.tokensOf`, `spells_chars` — the tokens of a value are what its text is
  cut into
* `nesting`, `nesting_print` — how many brackets are open at once in a text

A number ends where the next character cannot belong to it, so the lexer is
still in the middle of it when its last character has been read. `Spells` says
what is there once the row is taken to have ended; `Spells.mark` shows that the
next bracket or mark comes to the same.
-/
import AgentLoop.Proofs.Json.Numerals
import AgentLoop.Proofs.Json.Values

namespace AgentLoop.Json

open Lexer (Mode)

/-- A row of characters is a row of tokens, whatever was there before it. -/
def Spells (cs : List Char) (ts : List Token) : Prop :=
  ∀ done, (cs.foldl Lexer.step ⟨.between, done⟩).finish = ⟨.between, ts.reverse ++ done⟩

theorem tokens_of_spells {cs : List Char} {ts : List Token} (h : Spells cs ts) :
    tokens cs = ts := by
  have hstart := h []
  rw [tokens, Lexer.start, hstart]
  simp

/-! ## Marks -/

theorem mark?_chars {c : Char} {t : Token} (h : Lexer.mark? c = some t) :
    Lexer.isSpace c = false ∧ isNumberChar c = false ∧ c.isAlpha = false := by
  unfold Lexer.mark? at h
  split at h <;> first | decide | cases h

/-- A mark ends whatever stands in front of it. -/
theorem step_mark {l : Lexer} {done : List Token} (hl : l.finish = ⟨.between, done⟩) {c : Char}
    {t : Token} (hc : Lexer.mark? c = some t) : l.step c = ⟨.between, t :: done⟩ := by
  obtain ⟨hspace, hnumber, halpha⟩ := mark?_chars hc
  have hbetween : ∀ l : Lexer, l.mode = .between → l.stepBetween c = ⟨.between, t :: l.done⟩ := by
    intro l _
    simp [Lexer.stepBetween, hspace, hc, Lexer.emit]
  obtain ⟨mode, before⟩ := l
  cases mode with
  | stopped => cases hl
  | between =>
    cases hl
    exact hbetween _ rfl
  | inNumber row =>
    simp only [Lexer.finish] at hl
    simp [Lexer.step, hnumber, hl, hbetween]
  | inWord row =>
    simp only [Lexer.finish] at hl
    simp [Lexer.step, halpha, hl, hbetween]
  | inText row => cases hl
  | inEscape row => cases hl
  | inCodeUnit row missing value => cases hl

namespace Spells

theorem nil : Spells [] [] := fun _ => rfl

/-- Two rows with a mark between them. -/
theorem mark {cs cs' : List Char} {ts ts' : List Token} (h : Spells cs ts) {c : Char} {t : Token}
    (hc : Lexer.mark? c = some t) (h' : Spells cs' ts') :
    Spells (cs ++ c :: cs') (ts ++ t :: ts') := by
  intro done
  rw [List.foldl_append, List.foldl_cons, step_mark (h done) hc, h' _]
  simp

end Spells

/-! ## Numbers and words -/

theorem foldl_inNumber {cs : List Char} (h : ∀ c ∈ cs, isNumberChar c = true) (row : List Char)
    (done : List Token) :
    cs.foldl Lexer.step ⟨.inNumber row, done⟩ = ⟨.inNumber (cs.reverse ++ row), done⟩ := by
  induction cs generalizing row with
  | nil => rfl
  | cons c rest ih =>
    obtain ⟨hc, hrest⟩ := List.forall_mem_cons.mp h
    rw [List.foldl_cons, Lexer.step]
    simp [hc, ih hrest]

/-- Nothing else begins as a number does. -/
theorem begins_number {c : Char} (h : c.isDigit = true ∨ c = '-') :
    Lexer.isSpace c = false ∧ Lexer.mark? c = none ∧ c ≠ '"' := by
  have hne : ∀ d : Char, d.isDigit = false → d ≠ '-' → c ≠ d := by
    rintro d hdigit hminus rfl
    rcases h with h | h
    · rw [h] at hdigit
      cases hdigit
    · exact hminus h
  refine ⟨?_, ?_, hne _ (by decide) (by decide)⟩
  · have hspace := hne ' ' (by decide) (by decide)
    have htab := hne '\t' (by decide) (by decide)
    have hline := hne '\n' (by decide) (by decide)
    have hreturn := hne '\r' (by decide) (by decide)
    simp [Lexer.isSpace, hspace, htab, hline, hreturn]
  · unfold Lexer.mark?
    split <;> first | exact absurd rfl (hne _ (by decide) (by decide)) | rfl

/-- Characters of numbers that begin as a number does are one token. -/
theorem spells_number {c : Char} {rest : List Char} {v : Option Json}
    (hc : c.isDigit = true ∨ c = '-') (hrest : ∀ d ∈ rest, isNumberChar d = true)
    (h : numberToken (c :: rest) = .number v) : Spells (c :: rest) [.number v] := by
  intro done
  have hbegin : (Lexer.mk .between done).step c = ⟨.inNumber [c], done⟩ := by
    obtain ⟨hspace, hmark, hquote⟩ := begins_number hc
    simp [Lexer.step, Lexer.stepBetween, hspace, hmark, hquote, hc]
  rw [List.foldl_cons, hbegin, foldl_inNumber hrest]
  simp [Lexer.finish, h, Lexer.settle, Lexer.emit]

theorem spells_int {n : Int} (hlow : minInt ≤ n) (hhigh : n ≤ maxInt) :
    Spells (Number.intChars n) [.number (some (.int n))] := by
  have htoken := numberToken_intChars hlow hhigh
  obtain ⟨c, rest, hchars, hc, hrest⟩ :=
    signed_chars (spelled_wholeNumeral n.natAbs) (decide (n < 0))
  rw [intChars_eq_signed, hchars] at htoken ⊢
  exact spells_number hc hrest htoken

theorem spells_float (x : Number.Finite Number.binary64) :
    Spells (floatChars x) [.number (some (.float x))] := by
  have htoken := numberToken_floatChars x
  obtain ⟨n, hsigned, hspelled, -⟩ := floatChars_eq_signed x
  obtain ⟨c, rest, hchars, hc, hrest⟩ := signed_chars hspelled x.negative
  rw [hsigned, hchars] at htoken ⊢
  exact spells_number hc hrest htoken

theorem spells_null : Spells "null".toList [.null] := fun _ => rfl

theorem spells_true : Spells "true".toList [.bool true] := fun _ => rfl

theorem spells_false : Spells "false".toList [.bool false] := fun _ => rfl

/-! ## Strings -/

/-- A character below U+0020 that has no short escape is written by number. -/
def pieceOf (c : Char) : Piece :=
  if escaped c = ['\\', 'u', '0', '0', hexDigit (c.toNat / 16), hexDigit (c.toNat % 16)] then
    .codeUnit c.toNat
  else .char c

/-- Most characters stand for themselves. -/
theorem escaped_of_ge {c : Char} (hquote : c ≠ '"') (hslash : c ≠ '\\') (hge : 0x20 ≤ c.toNat) :
    escaped c = [c] := by
  have hne : ∀ n < 0x20, c.toNat ≠ n := fun n hn => by omega
  simp only [escaped, hquote, hslash, hne 0x08 (by decide), hne 0x09 (by decide),
    hne 0x0A (by decide), hne 0x0C (by decide), hne 0x0D (by decide), Nat.not_lt.mpr hge, if_false]

theorem toNat_lt_of_escaped {c : Char} {ds : List Char}
    (h : escaped c = '\\' :: 'u' :: ds) : c.toNat < 0x20 := by
  by_cases hquote : c = '"'
  · subst hquote
    cases h
  by_cases hslash : c = '\\'
  · subst hslash
    cases h
  refine Nat.lt_of_not_le fun hge => ?_
  rw [escaped_of_ge hquote hslash hge] at h
  cases h

theorem hexValue?_hexDigit {n : Nat} (h : n < 16) : hexValue? (hexDigit n) = some n := by
  have hall : ∀ n < 16, hexValue? (hexDigit n) = some n := by decide
  exact hall n h

theorem eq_of_toNat_eq {c : Char} {d : Char} (h : c.toNat = d.toNat) : c = d :=
  Char.toNat_inj.mp h

/-- A character between quotation marks is read as itself. -/
theorem foldl_escaped (c : Char) (row : List Piece) (done : List Token) :
    (escaped c).foldl Lexer.step ⟨.inText row, done⟩ = ⟨.inText (pieceOf c :: row), done⟩ := by
  by_cases hquote : c = '"'
  · subst hquote
    rfl
  by_cases hslash : c = '\\'
  · subst hslash
    rfl
  by_cases hb : c.toNat = 0x08
  · rw [show c = '\x08' from eq_of_toNat_eq hb]
    rfl
  by_cases ht : c.toNat = 0x09
  · rw [show c = '\t' from eq_of_toNat_eq ht]
    rfl
  by_cases hn : c.toNat = 0x0A
  · rw [show c = '\n' from eq_of_toNat_eq hn]
    rfl
  by_cases hf : c.toNat = 0x0C
  · rw [show c = '\x0c' from eq_of_toNat_eq hf]
    rfl
  by_cases hr : c.toNat = 0x0D
  · rw [show c = '\r' from eq_of_toNat_eq hr]
    rfl
  by_cases hlow : c.toNat < 0x20
  · have hescaped : escaped c =
        ['\\', 'u', '0', '0', hexDigit (c.toNat / 16), hexDigit (c.toNat % 16)] := by
      simp only [escaped, hquote, hslash, hb, ht, hn, hf, hr, hlow, if_true, if_false]
    have hhigh := hexValue?_hexDigit (n := c.toNat / 16) (by omega)
    have hrest := hexValue?_hexDigit (n := c.toNat % 16) (by omega)
    have hzero : hexValue? '0' = some 0 := rfl
    have hvalue : 16 * (c.toNat / 16) + c.toNat % 16 = c.toNat := by omega
    rw [pieceOf, if_pos hescaped, hescaped]
    simp [Lexer.step, hzero, hhigh, hrest, hvalue]
  · have hescaped := escaped_of_ge hquote hslash (Nat.le_of_not_lt hlow)
    rw [pieceOf, hescaped, if_neg (by simp)]
    simp [Lexer.step, hquote, hslash, hlow]

theorem foldl_flatMap_escaped (cs : List Char) (row : List Piece) (done : List Token) :
    (cs.flatMap escaped).foldl Lexer.step ⟨.inText row, done⟩ =
      ⟨.inText ((cs.map pieceOf).reverse ++ row), done⟩ := by
  induction cs generalizing row with
  | nil => rfl
  | cons c rest ih =>
    rw [List.flatMap_cons, List.foldl_append, foldl_escaped, ih]
    simp

theorem joinPieces_codeUnit {n : Nat} (h : n < 0xD800) (rest : List Piece) :
    joinPieces (.codeUnit n :: rest) = (joinPieces rest).map (Char.ofNat n :: ·) := by
  have hhigh : isHighSurrogate n = false := by
    simp only [isHighSurrogate, Bool.and_eq_false_iff, decide_eq_false_iff_not]
    omega
  have hlow : isLowSurrogate n = false := by
    simp only [isLowSurrogate, Bool.and_eq_false_iff, decide_eq_false_iff_not]
    omega
  cases rest with
  | nil => simp [joinPieces, hhigh, hlow]
  | cons p rest => cases p <;> simp [joinPieces, hhigh, hlow]

theorem joinPieces_map_pieceOf (cs : List Char) : joinPieces (cs.map pieceOf) = some cs := by
  induction cs with
  | nil => rfl
  | cons c rest ih =>
    rw [List.map_cons, pieceOf]
    split
    · rename_i hescaped
      have hlow := toNat_lt_of_escaped hescaped
      rw [joinPieces_codeUnit (by omega), ih, Char.ofNat_toNat]
      rfl
    · simp [joinPieces, ih]

/-- A string in quotation marks is read as the string. -/
theorem spells_quoted (s : String) : Spells (quoted s) [.text (some s)] := by
  intro done
  have hbegin : (Lexer.mk .between done).step '"' = ⟨.inText [], done⟩ := rfl
  rw [quoted, List.foldl_cons, hbegin, List.foldl_append, foldl_flatMap_escaped]
  simp [Lexer.step, textToken, joinPieces_map_pieceOf, Lexer.emit, Lexer.finish]

/-! ## Values -/

mutual

/-- The tokens of a value. -/
def tokensOf : Json → List Token
  | .null => [.null]
  | .bool b => [.bool b]
  | .int n => [.number (some (.int n))]
  | .float x => [.number (some (.float x))]
  | .string s => [.text (some s)]
  | .array items => .openBracket :: itemTokens items
  | .object fields => .openBrace :: fieldTokens fields

/-- The tokens of the items of an array and of its closing bracket. -/
def itemTokens : List Json → List Token
  | [] => [.closeBracket]
  | [v] => tokensOf v ++ [.closeBracket]
  | v :: w :: rest => tokensOf v ++ .comma :: itemTokens (w :: rest)

/-- The tokens of the fields of an object and of its closing brace. -/
def fieldTokens : List (String × Json) → List Token
  | [] => [.closeBrace]
  | [(k, v)] => .text (some k) :: .colon :: (tokensOf v ++ [.closeBrace])
  | (k, v) :: f :: rest =>
    .text (some k) :: .colon :: (tokensOf v ++ .comma :: fieldTokens (f :: rest))

end

theorem spells_itemChars {items : List Json} (h : ∀ v ∈ items, Spells v.chars v.tokensOf) :
    Spells (itemChars items) (itemTokens items) := by
  induction items with
  | nil => exact Spells.nil.mark rfl .nil
  | cons v rest ih =>
    obtain ⟨hv, hrest⟩ := List.forall_mem_cons.mp h
    cases rest with
    | nil => exact hv.mark rfl .nil
    | cons w rest => exact hv.mark rfl (ih hrest)

theorem spells_fieldChars {fields : List (String × Json)}
    (h : ∀ f ∈ fields, Spells f.2.chars f.2.tokensOf) :
    Spells (fieldChars fields) (fieldTokens fields) := by
  induction fields with
  | nil => exact Spells.nil.mark rfl .nil
  | cons f rest ih =>
    obtain ⟨k, v⟩ := f
    obtain ⟨hv, hrest⟩ := List.forall_mem_cons.mp h
    have hkey := spells_quoted k
    cases rest with
    | nil => exact hkey.mark rfl (hv.mark rfl .nil)
    | cons g rest => exact hkey.mark rfl (hv.mark rfl (ih hrest))

theorem spells_array {items : List Json} (h : ∀ v ∈ items, Spells v.chars v.tokensOf) :
    Spells (Json.array items).chars (Json.array items).tokensOf :=
  Spells.nil.mark rfl (spells_itemChars h)

/-- Fields may stand in any order. -/
theorem spells_object {fields : List (String × Json)}
    (h : ∀ f ∈ fields, Spells f.2.chars f.2.tokensOf) :
    Spells (Json.object fields).chars (Json.object fields).tokensOf :=
  Spells.nil.mark rfl (spells_fieldChars h)

/-- The text of a value is cut into the tokens of the value. -/
theorem spells_chars {v : Json} (h : v.WellFormed) : Spells v.chars v.tokensOf := by
  induction v using Json.induct with
  | null => exact spells_null
  | bool b =>
    cases b with
    | true => exact spells_true
    | false => exact spells_false
  | int n =>
    obtain ⟨hlow, hhigh⟩ := wellFormed_int.mp h
    exact spells_int hlow hhigh
  | float x => exact spells_float x
  | string s => exact spells_quoted s
  | array items ih =>
    have hitems := wellFormed_array.mp h
    exact spells_array fun v hv => ih v hv (hitems v hv)
  | object fields ih =>
    have hfields := (wellFormed_object.mp h).2
    exact spells_object fun f hf => ih f hf (hfields f hf)

/-! ## How deep a text is -/

/-- How many brackets are open behind a token. -/
def Token.levelAfter (level : Nat) : Token → Nat
  | .openBracket | .openBrace => level + 1
  | .closeBracket | .closeBrace => level - 1
  | _ => level

/-- How many brackets are open at once, at most, in a row of tokens that
begins with some open. -/
def highestLevel (level : Nat) : List Token → Nat
  | [] => level
  | t :: rest => max level (highestLevel (t.levelAfter level) rest)

/-- How many brackets are open at once, at most, in a text. -/
def nesting (s : String) : Nat := highestLevel 0 (tokens s.toList)

theorem highestLevel_itemTokens {items : List Json}
    (h : ∀ v ∈ items, ∀ level ts, highestLevel level (v.tokensOf ++ ts) =
      max (level + v.depth) (highestLevel level ts)) (level : Nat) (ts : List Token) :
    highestLevel (level + 1) (itemTokens items ++ ts) =
      max (level + 1 + depthItems items) (highestLevel level ts) := by
  induction items with
  | nil => simp [itemTokens, highestLevel, Token.levelAfter, depthItems]
  | cons v rest ih =>
    obtain ⟨hv, hrest⟩ := List.forall_mem_cons.mp h
    have hdepth : depthItems (v :: rest) = max v.depth (depthItems rest) := rfl
    cases rest with
    | nil =>
      rw [itemTokens, List.append_assoc, hv]
      simp only [List.cons_append, List.nil_append, highestLevel, Token.levelAfter, depthItems,
        Nat.add_sub_cancel, Nat.max_zero]
      omega
    | cons w rest =>
      simp only [itemTokens, List.append_assoc, hv, List.cons_append, highestLevel,
        Token.levelAfter]
      rw [ih hrest, hdepth]
      omega

theorem highestLevel_fieldTokens {fields : List (String × Json)}
    (h : ∀ f ∈ fields, ∀ level ts, highestLevel level (f.2.tokensOf ++ ts) =
      max (level + f.2.depth) (highestLevel level ts)) (level : Nat) (ts : List Token) :
    highestLevel (level + 1) (fieldTokens fields ++ ts) =
      max (level + 1 + depthFields fields) (highestLevel level ts) := by
  induction fields with
  | nil => simp [fieldTokens, highestLevel, Token.levelAfter, depthFields]
  | cons f rest ih =>
    obtain ⟨k, v⟩ := f
    obtain ⟨hv, hrest⟩ := List.forall_mem_cons.mp h
    have hdepth : depthFields ((k, v) :: rest) = max v.depth (depthFields rest) := rfl
    cases rest with
    | nil =>
      simp only [fieldTokens, List.cons_append, highestLevel, Token.levelAfter,
        List.append_assoc, hv, List.nil_append, depthFields, Nat.add_sub_cancel, Nat.max_zero]
      omega
    | cons g rest =>
      simp only [fieldTokens, List.cons_append, highestLevel, Token.levelAfter,
        List.append_assoc, hv]
      rw [ih hrest, hdepth]
      omega

theorem highestLevel_tokensOf (v : Json) (level : Nat) (ts : List Token) :
    highestLevel level (v.tokensOf ++ ts) = max (level + v.depth) (highestLevel level ts) := by
  induction v using Json.induct generalizing level ts with
  | null => rfl
  | bool b => rfl
  | int n => rfl
  | float x => rfl
  | string s => rfl
  | array items ih =>
    rw [tokensOf, List.cons_append, highestLevel, Token.levelAfter, highestLevel_itemTokens ih,
      depth]
    omega
  | object fields ih =>
    rw [tokensOf, List.cons_append, highestLevel, Token.levelAfter, highestLevel_fieldTokens ih,
      depth]
    omega

/-- The text of a value is as deep as the value. -/
theorem nesting_print {v : Json} (h : Spells v.chars v.tokensOf) : nesting v.print = v.depth := by
  have hlevel := highestLevel_tokensOf v 0 []
  rw [List.append_nil] at hlevel
  rw [nesting, print, String.toList_ofList, tokens_of_spells h, hlevel]
  simp [highestLevel]

end AgentLoop.Json
