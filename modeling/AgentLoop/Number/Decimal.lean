/-
AgentLoop.Number.Decimal — decimal numbers, and the way between them
and binary ones.

* `Decimal` — a whole number of digits and a power of ten
* `Decimal.toBinary` — the nearest binary number
* `Finite.shortest` — the fewest digits that read back as the number
* `Decimal.layout` — digits and the place of the decimal point, as text

Reading is correctly rounded and writing picks a decimal that reads
back, so writing a finite number and reading the text again gives the
same number.
-/
import AgentLoop.Number.Binary

namespace AgentLoop.Number

/-- The number `digits * 10 ^ exponent`. -/
structure Decimal where
  digits : Nat
  exponent : Int
deriving DecidableEq, Repr

/-- How many decimal digits a number is written with. -/
def digitCount (n : Nat) : Nat := (Nat.toDigits 10 n).length

namespace Decimal

/-- A decimal whose first digit stands at or above this power of ten
is beyond every format here. -/
def hugeExponent : Int := 400

/-- The ordinal nearest to a decimal. Exponents far outside the range
of the format are settled without writing the power of ten out. -/
def nearestOrdinal (f : Format) (d : Decimal) : Nat :=
  let top := (digitCount d.digits : Int) + d.exponent
  if d.digits = 0 || top < -hugeExponent then 0
  else if top > hugeExponent then f.limit
  else if d.exponent ≥ 0 then
    f.nearest (d.digits * Nat.pow 10 d.exponent.toNat * f.one) 1
  else f.nearest (d.digits * f.one) (Nat.pow 10 (-d.exponent).toNat)

/-- The binary number nearest to `± d`. -/
def toBinary (f : Format) (negative : Bool) (d : Decimal) : Binary f :=
  .ofOrdinal f negative (d.nearestOrdinal f)

/-- The same number with no zero at the end of its digits, given as
many rounds as there may be zeros. -/
def stripZeros : Nat → Decimal → Decimal
  | 0, d => d
  | rounds + 1, d =>
    if d.digits ≠ 0 && d.digits % 10 = 0 then
      stripZeros rounds ⟨d.digits / 10, d.exponent + 1⟩
    else d

/-- The same number with no zero at the end of its digits. -/
def trimmed (d : Decimal) : Decimal := stripZeros (digitCount d.digits) d

end Decimal

/-- Which of two equally near decimals is written. -/
inductive Tie where
  | even
  | up
deriving DecidableEq, Repr

namespace Finite

variable {f : Format}

/-- The place of the decimal point of a magnitude given in units,
counted from its first digit: the magnitude is below
`10 ^ pointPlace` and not below a tenth of it. -/
def pointPlace (f : Format) (units : Nat) : Int :=
  (digitCount (units * Nat.pow 10 400 / f.one) : Int) - 400

/-- The decimals with `n` digits on either side of a magnitude, the
nearer one first; an exact decimal comes alone. -/
def neighbours (f : Format) (tie : Tie) (units n : Nat) : List Decimal :=
  let exponent := pointPlace f units - n
  let (a, b) :=
    if exponent ≥ 0 then (units, f.one * Nat.pow 10 exponent.toNat)
    else (units * Nat.pow 10 (-exponent).toNat, f.one)
  let q := a / b
  let r := a % b
  let below : Decimal := ⟨q, exponent⟩
  let above : Decimal := ⟨q + 1, exponent⟩
  if r = 0 then [below]
  else if 2 * r < b || (2 * r = b && tie = .even && q % 2 = 0) then
    [below, above]
  else [above, below]

/-- The first decimal of a list that reads back as an ordinal. -/
def firstReadingBack (f : Format) (ordinal : Nat) (ds : List Decimal) :
    Option Decimal :=
  ds.find? fun d => d.nearestOrdinal f = ordinal

/-- All digits of a magnitude given in units. -/
def exact (f : Format) (units : Nat) : Decimal :=
  ⟨units * Nat.pow 5 f.unitExponent, -(f.unitExponent : Int)⟩

/-- The decimal with the fewest digits that reads back as the number,
the nearest of them if there are several. Seventeen digits are enough
in double precision; all digits stand behind them as a last resort. -/
def shortest (tie : Tie) (x : Finite f) : Decimal :=
  if x.ordinal = 0 then ⟨0, 0⟩
  else
    let units := x.units
    match (List.range 17).findSome? fun i =>
        firstReadingBack f x.ordinal (neighbours f tie units (i + 1)) with
    | some d => d.trimmed
    | none => (exact f units).trimmed

end Finite

/-! ## Text -/

/-- `n` times the character zero. -/
def zeros (n : Nat) : List Char := List.replicate n '0'

/-- The digits of a number as characters. -/
def digitChars (n : Nat) : List Char := Nat.toDigits 10 n

/-- An integer with a minus sign if negative. -/
def intChars : Int → List Char
  | .ofNat n => digitChars n
  | .negSucc n => '-' :: digitChars (n + 1)

/-- A decimal without an exponent: zeros fill the places between the
digits and the decimal point, and `whole` ends a number that has no
digit after the point. -/
def Decimal.positional (whole : List Char) (d : Decimal) : List Char :=
  let ds := digitChars d.digits
  let point := (ds.length : Int) + d.exponent
  if d.exponent ≥ 0 then ds ++ zeros d.exponent.toNat ++ whole
  else if point > 0 then
    ds.take point.toNat ++ '.' :: ds.drop point.toNat
  else '0' :: '.' :: zeros (-point).toNat ++ ds

/-- A decimal with one digit before the point and an exponent. -/
def Decimal.scientific (d : Decimal) : List Char :=
  let ds := digitChars d.digits
  let exponent := (ds.length : Int) + d.exponent - 1
  let fraction := match ds.drop 1 with
    | [] => []
    | rest => '.' :: rest
  ds.take 1 ++ fraction ++ 'e' :: intChars exponent

/-- Where the decimal point may stand, counted from the first digit,
for a number to be written without an exponent. -/
structure Layout where
  lowest : Int
  highest : Int

/-- A decimal as text: positional when its point stands within the
bounds of the layout, with a fraction part always. -/
def Decimal.layout (l : Layout) (d : Decimal) : List Char :=
  let point := (digitCount d.digits : Int) + d.exponent
  if l.lowest ≤ point && point ≤ l.highest then d.positional ['.', '0']
  else d.scientific

/-- A minus sign in front of a negative number. -/
def signed (negative : Bool) (cs : List Char) : List Char :=
  if negative then '-' :: cs else cs

end AgentLoop.Number
