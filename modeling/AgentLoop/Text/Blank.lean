/-
AgentLoop.Text.Blank — white space, trimming and blank text.

* `isBlankChar` — the characters with the Unicode property White_Space
* `trimBlank` — a text without the white space at its two ends
* `isBlank` — a text that holds nothing but white space

A conversation never records a blank text, so this is the one place
that says what blank means. The property is wider than ASCII (it holds
of U+0085, U+00A0 and U+3000) and excludes the zero-width characters
U+200B and U+FEFF.
-/

namespace AgentLoop.Text

/-- The code point ranges, both ends included, of the property
White_Space. -/
def blankRanges : List (Nat × Nat) :=
  [(0x09, 0x0D), (0x20, 0x20), (0x85, 0x85), (0xA0, 0xA0),
   (0x1680, 0x1680), (0x2000, 0x200A), (0x2028, 0x2029),
   (0x202F, 0x202F), (0x205F, 0x205F), (0x3000, 0x3000)]

/-- Whether a character is white space. -/
def isBlankChar (c : Char) : Bool :=
  blankRanges.any fun (low, high) => low ≤ c.toNat && c.toNat ≤ high

/-- Whether a text holds nothing but white space; the empty text is
blank. -/
def isBlank (s : String) : Bool :=
  s.toList.all isBlankChar

/-- A list of characters without the white space at its end. -/
def trimEnd (cs : List Char) : List Char :=
  (cs.reverse.dropWhile isBlankChar).reverse

/-- A text without the white space at its two ends. -/
def trimBlank (s : String) : String :=
  String.ofList (trimEnd (s.toList.dropWhile isBlankChar))

end AgentLoop.Text
