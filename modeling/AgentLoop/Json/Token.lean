/-
AgentLoop.Json.Token — JSON text cut into tokens.

* `Token` — a bracket, a mark or a scalar; `Token.bad` stands where the
  text stops being JSON
* `Lexer.step` — one character further
* `tokens` — the tokens of a text

A scalar may be well spelled and yet have no value: a number beyond the
range of double precision, or a string with half a surrogate pair. Such
a token is no fault of the text, it can only not be read as a value; a
reader that skips it never notices.
-/
import AgentLoop.Json.Basic
import AgentLoop.Number.Numeral

namespace AgentLoop.Json

open Number (Numeral binary64)

/-- A piece of JSON text. -/
inductive Token where
  | openBracket
  | closeBracket
  | openBrace
  | closeBrace
  | comma
  | colon
  | null
  | bool (b : Bool)
  | number (value : Option Json)
  | text (value : Option String)
  | bad
deriving Repr, Inhabited

/-! ## Numbers -/

/-- Whether a number is spelled as JSON wants it: digits on both sides of
a point, and no zero in front of other digits. -/
def wellSpelled (n : Numeral) : Bool :=
  n.whole ≠ [] && (n.whole.length = 1 || n.whole.head? ≠ some '0')
    && n.fraction ≠ some []

/-- The value of a floating point number; none beyond the range. -/
def floatValue (negative : Bool) (n : Numeral) : Option Json :=
  (n.decimal.toBinary binary64 negative).toFinite?.map .float

/-- The value of a number: whole if it is written so and fits 64 bits,
signed or unsigned. Minus zero is a floating point number. -/
def numberValue (negative : Bool) (n : Numeral) : Option Json :=
  let magnitude := Number.digitsValue n.whole
  if n.isWhole then
    if negative then
      if magnitude ≠ 0 && minInt ≤ -(magnitude : Int) then
        some (.int (-(magnitude : Int)))
      else floatValue negative n
    else if (magnitude : Int) ≤ maxInt then some (.int magnitude)
    else floatValue negative n
  else floatValue negative n

/-- The token of a row of number characters. -/
def numberToken (cs : List Char) : Token :=
  let (negative, rest) := match cs with
    | '-' :: rest => (true, rest)
    | rest => (false, rest)
  match Numeral.read? rest with
  | some n => if wellSpelled n then .number (numberValue negative n) else .bad
  | none => .bad

/-- Whether a character can stand in a number. -/
def isNumberChar (c : Char) : Bool :=
  c.isDigit || c = '-' || c = '+' || c = '.' || c = 'e' || c = 'E'

/-! ## Words and strings -/

/-- The token of a row of letters. -/
def wordToken (cs : List Char) : Token :=
  if cs = "null".toList then .null
  else if cs = "true".toList then .bool true
  else if cs = "false".toList then .bool false
  else .bad

/-- What stands between quotation marks: characters, and code units of
sixteen bits that were given by number. -/
inductive Piece where
  | char (c : Char)
  | codeUnit (n : Nat)
deriving DecidableEq, Repr

/-- Whether a code unit is the first half of a surrogate pair. -/
def isHighSurrogate (n : Nat) : Bool := 0xD800 ≤ n && n ≤ 0xDBFF

/-- Whether a code unit is the second half of a surrogate pair. -/
def isLowSurrogate (n : Nat) : Bool := 0xDC00 ≤ n && n ≤ 0xDFFF

/-- The characters of a string, surrogate pairs joined; none if a half
pair stands alone. -/
def joinPieces : List Piece → Option (List Char)
  | [] => some []
  | .char c :: rest => (joinPieces rest).map (c :: ·)
  | .codeUnit high :: .codeUnit low :: rest =>
    if isHighSurrogate high then
      if isLowSurrogate low then
        let c := Char.ofNat (0x10000 + (high - 0xD800) * 0x400 + (low - 0xDC00))
        (joinPieces rest).map (c :: ·)
      else none
    else if isLowSurrogate high then none
    else (joinPieces (.codeUnit low :: rest)).map (Char.ofNat high :: ·)
  | .codeUnit n :: rest =>
    if isHighSurrogate n || isLowSurrogate n then none
    else (joinPieces rest).map (Char.ofNat n :: ·)

/-- The token of a string. -/
def textToken (pieces : List Piece) : Token :=
  .text ((joinPieces pieces).map String.ofList)

/-- The character that a letter after a backslash stands for. -/
def unescape? : Char → Option Char
  | '"' => some '"'
  | '\\' => some '\\'
  | '/' => some '/'
  | 'b' => some '\x08'
  | 'f' => some '\x0c'
  | 'n' => some '\n'
  | 'r' => some '\r'
  | 't' => some '\t'
  | _ => none

/-- The value of a hexadecimal digit, small or capital. -/
def hexValue? (c : Char) : Option Nat :=
  if c.isDigit then some (c.toNat - '0'.toNat)
  else if 'a' ≤ c && c ≤ 'f' then some (c.toNat - 'a'.toNat + 10)
  else if 'A' ≤ c && c ≤ 'F' then some (c.toNat - 'A'.toNat + 10)
  else none

/-! ## The lexer -/

/-- What the lexer is in the middle of. Rows are kept last first. -/
inductive Lexer.Mode where
  | between
  | inNumber (row : List Char)
  | inWord (row : List Char)
  | inText (row : List Piece)
  | inEscape (row : List Piece)
  | inCodeUnit (row : List Piece) (missing value : Nat)
  | stopped
deriving Repr

/-- A lexer on its way: what it is in the middle of, and the tokens so
far, last first. -/
structure Lexer where
  mode : Lexer.Mode
  done : List Token

namespace Lexer

/-- A lexer before the first character. -/
def start : Lexer := ⟨.between, []⟩

/-- Adds a token. -/
def emit (l : Lexer) (t : Token) : Lexer := ⟨.between, t :: l.done⟩

/-- Gives the rest of the text up. -/
def stop (l : Lexer) : Lexer := ⟨.stopped, .bad :: l.done⟩

/-- The token of a single character. -/
def mark? : Char → Option Token
  | '[' => some .openBracket
  | ']' => some .closeBracket
  | '{' => some .openBrace
  | '}' => some .closeBrace
  | ',' => some .comma
  | ':' => some .colon
  | _ => none

/-- The four characters that may stand between tokens. -/
def isSpace (c : Char) : Bool :=
  c = ' ' || c = '\t' || c = '\n' || c = '\r'

/-- A character between two tokens. -/
def stepBetween (l : Lexer) (c : Char) : Lexer :=
  if isSpace c then l
  else match mark? c with
    | some t => l.emit t
    | none =>
      if c = '"' then { l with mode := .inText [] }
      else if c.isDigit || c = '-' then { l with mode := .inNumber [c] }
      else if c.isAlpha then { l with mode := .inWord [c] }
      else l.stop

/-- Adds a token that may be bad; a bad one stops the lexer. -/
def settle (l : Lexer) : Token → Lexer
  | .bad => l.stop
  | t => l.emit t

/-- One character further. -/
def step (l : Lexer) (c : Char) : Lexer :=
  match l.mode with
  | .stopped => l
  | .between => l.stepBetween c
  | .inNumber row =>
    if isNumberChar c then { l with mode := .inNumber (c :: row) }
    else
      let l := l.settle (numberToken row.reverse)
      match l.mode with
      | .stopped => l
      | _ => l.stepBetween c
  | .inWord row =>
    if c.isAlpha then { l with mode := .inWord (c :: row) }
    else
      let l := l.settle (wordToken row.reverse)
      match l.mode with
      | .stopped => l
      | _ => l.stepBetween c
  | .inText row =>
    if c = '"' then l.emit (textToken row.reverse)
    else if c = '\\' then { l with mode := .inEscape row }
    else if c.toNat < 0x20 then l.stop
    else { l with mode := .inText (.char c :: row) }
  | .inEscape row =>
    if c = 'u' then { l with mode := .inCodeUnit row 4 0 }
    else match unescape? c with
      | some d => { l with mode := .inText (.char d :: row) }
      | none => l.stop
  | .inCodeUnit row missing value =>
    match hexValue? c with
    | none => l.stop
    | some d =>
      let value := 16 * value + d
      if missing ≤ 1 then { l with mode := .inText (.codeUnit value :: row) }
      else { l with mode := .inCodeUnit row (missing - 1) value }

/-- The end of the text. -/
def finish (l : Lexer) : Lexer :=
  match l.mode with
  | .stopped | .between => l
  | .inNumber row => l.settle (numberToken row.reverse)
  | .inWord row => l.settle (wordToken row.reverse)
  | .inText _ | .inEscape _ | .inCodeUnit .. => l.stop

end Lexer

/-- The tokens of a text. -/
def tokens (cs : List Char) : List Token :=
  (cs.foldl Lexer.step Lexer.start).finish.done.reverse

end AgentLoop.Json
