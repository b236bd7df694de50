/-
AgentLoop.Number.Binary — binary floating point numbers in exact
integer arithmetic.

* `Format` — precision and exponent range of a binary format
* `Finite` — a sign and an ordinal: the finite numbers of one sign,
  counted upward from zero
* `Binary` — the finite numbers, the two infinities and not-a-number
* `Format.nearest` — the ordinal of the number nearest to a fraction,
  ties to the even neighbour
* `Binary.mul`, `Binary.pow`, `Binary.max`, `Binary.min`,
  `Binary.toNatSaturating` — the arithmetic that a waiting time needs

The magnitude with ordinal `k` is a whole number of *units*, a unit
being the smallest positive magnitude of the format. Below
`2 ^ precision` ordinal and units agree; above, the distance between
neighbours doubles with every binade. Rounding up from the largest
significand of a binade therefore needs no carry: it is the next
ordinal.
-/

namespace AgentLoop.Number

/-- A binary format: `precision` bits of significand, `binades` normal
binades above the subnormal numbers, and a unit of
`2 ^ (- unitExponent)`. -/
structure Format where
  precision : Nat
  binades : Nat
  unitExponent : Nat
deriving DecidableEq, Repr

/-- Double precision. -/
def binary64 : Format := ⟨53, 2046, 1074⟩

/-- Single precision. -/
def binary32 : Format := ⟨24, 254, 149⟩

namespace Format

/-- The number of significands in a binade. -/
def step (f : Format) : Nat := Nat.pow 2 (f.precision - 1)

/-- The first ordinal past the finite numbers. -/
def limit (f : Format) : Nat := (f.binades + 1) * f.step

/-- The number of units in one. -/
def one (f : Format) : Nat := Nat.pow 2 f.unitExponent

/-- The magnitude with ordinal `k`, in units. -/
def units (f : Format) (k : Nat) : Nat :=
  if k < f.step then k
  else (f.step + k % f.step) * Nat.pow 2 (k / f.step - 1)

/-- The quotient `a / b` rounded to the nearest whole number, a tie
going to the even one. -/
def divNearestEven (a b : Nat) : Nat :=
  let q := a / b
  let r := a % b
  if 2 * r > b || (2 * r == b && q % 2 == 1) then q + 1 else q

/-- The ordinal nearest to `a / b` units, a tie going to the even
significand. It reaches `limit` or passes it exactly when the fraction
rounds to infinity. -/
def nearest (f : Format) (a b : Nat) : Nat :=
  let s := Nat.log2 (a / b) - (f.precision - 1)
  s * f.step + divNearestEven a (b * Nat.pow 2 s)

end Format

/-- A finite number of the format. Both zeros are there: ordinal zero
with either sign. -/
structure Finite (f : Format) where
  negative : Bool
  ordinal : Nat
  bounded : ordinal < f.limit
deriving DecidableEq, Repr

namespace Finite

variable {f : Format}

/-- The place of a number among the finite numbers; the two zeros
share a place. -/
def place (x : Finite f) : Int :=
  if x.negative then -(x.ordinal : Int) else x.ordinal

/-- The magnitude, in units. -/
def units (x : Finite f) : Nat := f.units x.ordinal

/-- Whether two numbers are equal as numbers: the zeros are. -/
def sameValue (x y : Finite f) : Bool := x.place == y.place

end Finite

/-- A floating point number. -/
inductive Binary (f : Format) where
  | finite (x : Finite f)
  | infinite (negative : Bool)
  | nan
deriving DecidableEq, Repr

namespace Binary

variable {f : Format}

/-- The number with a sign and an ordinal: infinite from `limit` on. -/
def ofOrdinal (f : Format) (negative : Bool) (k : Nat) : Binary f :=
  if h : k < f.limit then .finite ⟨negative, k, h⟩ else .infinite negative

/-- The nearest number to `± a / b` units. -/
def ofUnits (f : Format) (negative : Bool) (a b : Nat) : Binary f :=
  ofOrdinal f negative (f.nearest a b)

/-- The nearest number to a whole number. -/
def ofNat (f : Format) (n : Nat) : Binary f :=
  ofUnits f false (n * f.one) 1

/-- The nearest number to an integer. -/
def ofInt (f : Format) (n : Int) : Binary f :=
  ofUnits f (n < 0) (n.natAbs * f.one) 1

/-- Whether the number is neither infinite nor not-a-number. -/
def isFinite : Binary f → Bool
  | .finite _ => true
  | _ => false

/-- The finite number, if it is one. -/
def toFinite? : Binary f → Option (Finite f)
  | .finite x => some x
  | _ => none

/-- The place of a number in the order, infinities included. -/
def place? : Binary f → Option Int
  | .finite x => some x.place
  | .infinite true => some (-(f.limit : Int))
  | .infinite false => some f.limit
  | .nan => none

/-- Whether `x` is at least `y`; never so of not-a-number. -/
def atLeast (x y : Binary f) : Bool :=
  match x.place?, y.place? with
  | some a, some b => b ≤ a
  | _, _ => false

/-- The larger of two numbers; not-a-number gives way to the other. -/
def max (x y : Binary f) : Binary f :=
  match x.place?, y.place? with
  | none, _ => y
  | some _, none => x
  | some a, some b => if a < b then y else x

/-- The smaller of two numbers; not-a-number gives way to the other. -/
def min (x y : Binary f) : Binary f :=
  match x.place?, y.place? with
  | none, _ => y
  | some _, none => x
  | some a, some b => if b < a then y else x

/-- Whether the sign is minus; not-a-number has none. -/
def negative : Binary f → Bool
  | .finite x => x.negative
  | .infinite s => s
  | .nan => false

/-- The product, rounded to the nearest number; zero times infinity is
not-a-number. -/
def mul (x y : Binary f) : Binary f :=
  let sign := x.negative != y.negative
  match x, y with
  | .nan, _ | _, .nan => .nan
  | .finite a, .finite b => ofUnits f sign (a.units * b.units) f.one
  | .finite a, .infinite _ => if a.ordinal = 0 then .nan else .infinite sign
  | .infinite _, .finite b => if b.ordinal = 0 then .nan else .infinite sign
  | .infinite _, .infinite _ => .infinite sign

/-- One round per binary digit of the exponent `n`: multiply the
result by the current square if the digit is one, then square. -/
def powRounds : Nat → Nat → Binary f → Binary f → Binary f
  | 0, _, _, result => result
  | rounds + 1, n, square, result =>
    let result := if n % 2 = 1 then result.mul square else result
    if n / 2 = 0 then result
    else powRounds rounds (n / 2) (square.mul square) result

/-- The `n`-th power by repeated squaring, rounded after every
product. -/
def pow (x : Binary f) (n : Nat) : Binary f :=
  powRounds (n.log2 + 1) n x (ofNat f 1)

/-- The nearest whole number, half going up, or zero below it and for
not-a-number, or `top` above it. -/
def toNatSaturating (top : Nat) : Binary f → Nat
  | .nan => 0
  | .infinite true => 0
  | .infinite false => top
  | .finite x =>
    if x.negative then 0
    else Min.min top ((2 * x.units + f.one) / (2 * f.one))

end Binary

end AgentLoop.Number
