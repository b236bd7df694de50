/-
AgentLoop.Number.Numeral — numbers as they are written.

* `Numeral` — the digits before and after the point, and the exponent
* `Numeral.read?` — takes a text apart; `Numeral.decimal` is its value
* `readUnsigned?`, `readBinary?` — the numbers of a settings text: a
  whole number up to a bound, or a floating point number, which may
  also be an infinity or not-a-number by name
-/
import AgentLoop.Number.Decimal

namespace AgentLoop.Number

/-- The value of a row of decimal digits. -/
def digitsValue (cs : List Char) : Nat :=
  cs.foldl (fun n c => 10 * n + (c.toNat - '0'.toNat)) 0

/-- An unsigned number as written. A missing point or exponent is told
from one without digits. -/
structure Numeral where
  whole : List Char
  fraction : Option (List Char)
  exponent : Option (Bool × List Char)
deriving DecidableEq, Repr

namespace Numeral

/-- The sign in front of a text and what follows it. -/
def splitSign : List Char → Option Char × List Char
  | '-' :: rest => (some '-', rest)
  | '+' :: rest => (some '+', rest)
  | rest => (none, rest)

/-- The exponent that a text consists of, if it is one; its flag tells
a minus sign. -/
def readExponent? : List Char → Option (Option (Bool × List Char))
  | [] => some none
  | c :: rest =>
    if c = 'e' || c = 'E' then
      let (sign, digits) := splitSign rest
      if digits ≠ [] && digits.all Char.isDigit then
        some (some (sign = some '-', digits))
      else none
    else none

/-- Takes an unsigned number apart. Digits may be missing on either
side of the point, but not in an exponent. -/
def read? (cs : List Char) : Option Numeral :=
  let whole := cs.takeWhile Char.isDigit
  match cs.dropWhile Char.isDigit with
  | '.' :: rest =>
    (readExponent? (rest.dropWhile Char.isDigit)).map fun e =>
      ⟨whole, some (rest.takeWhile Char.isDigit), e⟩
  | rest => (readExponent? rest).map fun e => ⟨whole, none, e⟩

/-- The digits on both sides of the point. -/
def digits (n : Numeral) : List Char := n.whole ++ n.fraction.getD []

/-- The value of the exponent. -/
def power (n : Numeral) : Int :=
  match n.exponent with
  | none => 0
  | some (true, ds) => -(digitsValue ds : Int)
  | some (false, ds) => digitsValue ds

/-- The value of a number as written. -/
def decimal (n : Numeral) : Decimal :=
  ⟨digitsValue n.digits, n.power - (n.fraction.getD []).length⟩

/-- Whether the number is written as a whole number. -/
def isWhole (n : Numeral) : Bool := n.fraction = none && n.exponent = none

end Numeral

/-- A whole number of at most `top`: decimal digits, with a plus sign in
front or none. -/
def readUnsigned? (top : Nat) (s : String) : Option Nat :=
  let ds := match s.toList with
    | '+' :: rest => rest
    | cs => cs
  if ds ≠ [] && ds.all Char.isDigit && digitsValue ds ≤ top then
    some (digitsValue ds)
  else none

/-- The number that a word stands for, small and capital letters being
the same. -/
def namedNumber? (f : Format) (negative : Bool) (word : List Char) :
    Option (Binary f) :=
  let lower := String.ofList (word.map Char.toLower)
  if lower = "inf" || lower = "infinity" then some (.infinite negative)
  else if lower = "nan" then some .nan
  else none

/-- A floating point number: a sign or none, and a decimal number with a
digit on at least one side of the point, or a name. -/
def readBinary? (f : Format) (s : String) : Option (Binary f) :=
  let (sign, rest) := Numeral.splitSign s.toList
  let negative := sign = some '-'
  match Numeral.read? rest with
  | some n =>
    if n.digits = [] then namedNumber? f negative rest
    else some (n.decimal.toBinary f negative)
  | none => namedNumber? f negative rest

end AgentLoop.Number
