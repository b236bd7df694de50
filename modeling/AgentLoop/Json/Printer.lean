/-
AgentLoop.Json.Printer — the compact text of a value.

* `Json.quoted` — a string in quotation marks
* `Json.floatLayout`, `Json.floatChars` — a floating point number
* `Json.chars`, `Json.print` — the text of a value, without blanks

Only what has to be escaped is: the quotation mark, the backslash and
the characters below U+0020. A floating point number always has a
point or an exponent, so that it reads back as one.
-/
import AgentLoop.Json.Basic
import AgentLoop.Number.Decimal

namespace AgentLoop.Json

open Number (intChars signed)

/-- The hexadecimal digits, small. -/
def hexDigit (n : Nat) : Char :=
  (['0', '1', '2', '3', '4', '5', '6', '7', '8', '9',
    'a', 'b', 'c', 'd', 'e', 'f'][n]?).getD '0'

/-- A character inside quotation marks. -/
def escaped (c : Char) : List Char :=
  if c = '"' then ['\\', '"']
  else if c = '\\' then ['\\', '\\']
  else if c.toNat = 0x08 then ['\\', 'b']
  else if c.toNat = 0x09 then ['\\', 't']
  else if c.toNat = 0x0A then ['\\', 'n']
  else if c.toNat = 0x0C then ['\\', 'f']
  else if c.toNat = 0x0D then ['\\', 'r']
  else if c.toNat < 0x20 then
    ['\\', 'u', '0', '0', hexDigit (c.toNat / 16), hexDigit (c.toNat % 16)]
  else [c]

/-- A string in quotation marks. -/
def quoted (s : String) : List Char :=
  '"' :: (s.toList.flatMap escaped ++ ['"'])

/-- A floating point number is written without an exponent from
0.00001 up to sixteen digits before the point. -/
def floatLayout : Number.Layout := ⟨-4, 16⟩

/-- The fewest digits that read back; of two equally near ones the even
one. -/
def floatChars (x : Number.Finite Number.binary64) : List Char :=
  signed x.negative ((x.shortest .even).layout floatLayout)

mutual

/-- The text of a value, as characters. -/
def chars : Json → List Char
  | .null => "null".toList
  | .bool true => "true".toList
  | .bool false => "false".toList
  | .int n => intChars n
  | .float x => floatChars x
  | .string s => quoted s
  | .array items => '[' :: itemChars items
  | .object fields => '{' :: fieldChars fields

/-- The items of an array and its closing bracket. -/
def itemChars : List Json → List Char
  | [] => [']']
  | [v] => chars v ++ [']']
  | v :: w :: rest => chars v ++ ',' :: itemChars (w :: rest)

/-- The fields of an object and its closing brace. -/
def fieldChars : List (String × Json) → List Char
  | [] => ['}']
  | [(k, v)] => quoted k ++ ':' :: (chars v ++ ['}'])
  | (k, v) :: f :: rest =>
    quoted k ++ ':' :: (chars v ++ ',' :: fieldChars (f :: rest))

end

/-- The text of a value. -/
def print (v : Json) : String := String.ofList v.chars

end AgentLoop.Json
