/-
AgentLoop.Json.Basic — JSON values.

* `Json` — the values, whole numbers and floating point numbers kept
  apart
* `Json.WellFormed` — whole numbers of 64 bits, object keys ascending:
  the values that a text can stand for
* `Json.same`, `Json.cmp` — equality and order of values; the two
  floating point zeros are one value
* `Fields.insert`, `Fields.find?` — the fields of an object

An object holds its fields in a list. The objects of free data have
ascending keys; a record that is about to be written has its fields in
the order of their declaration.
-/
import AgentLoop.Number.Binary

namespace AgentLoop

/-- A JSON value. -/
inductive Json where
  | null
  | bool (b : Bool)
  | int (n : Int)
  | float (x : Number.Finite Number.binary64)
  | string (s : String)
  | array (items : List Json)
  | object (fields : List (String × Json))
deriving Repr, Inhabited

/-- The fields of an object. -/
abbrev Fields := List (String × Json)

namespace Fields

/-- The value under a key. -/
def find? (fields : Fields) (key : String) : Option Json :=
  fields.lookup key

/-- Puts a value under a key, in the place of an earlier value or
where the ascending order wants it. -/
def insert (key : String) (value : Json) : Fields → Fields
  | [] => [(key, value)]
  | (k, v) :: rest =>
    if key < k then (key, value) :: (k, v) :: rest
    else if key = k then (key, value) :: rest
    else (k, v) :: insert key value rest

theorem find?_insert_self (key : String) (value : Json) (fields : Fields) :
    find? (insert key value fields) key = some value := by
  induction fields with
  | nil => simp [insert, find?]
  | cons f rest ih =>
    obtain ⟨k, v⟩ := f
    simp only [insert]
    split
    · simp [find?]
    · split
      · simp [find?]
      · next hne =>
        simp only [find?, List.lookup_cons, beq_eq_false_iff_ne.mpr hne]
        exact ih

theorem find?_insert_of_ne {key other : String} (h : other ≠ key)
    (value : Json) (fields : Fields) :
    find? (insert key value fields) other = find? fields other := by
  have hb : (other == key) = false := beq_eq_false_iff_ne.mpr h
  induction fields with
  | nil => simp [insert, find?, h]
  | cons f rest ih =>
    obtain ⟨k, v⟩ := f
    simp only [insert]
    split
    · simp [find?, List.lookup_cons, hb]
    · split
      · next heq =>
        subst heq
        simp [find?, List.lookup_cons, hb]
      · simp only [find?, List.lookup_cons] at ih ⊢
        rw [ih]

/-- Fields in ascending order of their keys; of a repeated key the last
value counts. -/
def ofList (fields : List (String × Json)) : Fields :=
  fields.foldl (fun acc f => insert f.1 f.2 acc) []

end Fields

namespace Json

/-- The least and the greatest whole number that is not written as a
floating point number. -/
def minInt : Int := -0x8000000000000000

/-- The greatest whole number; see `minInt`. -/
def maxInt : Int := 0xFFFFFFFFFFFFFFFF

mutual

/-- Whether a value is one that a text can stand for. -/
def wellFormed : Json → Bool
  | .int n => minInt ≤ n && n ≤ maxInt
  | .array items => wellFormedItems items
  | .object fields => wellFormedFields none fields
  | _ => true

/-- Whether all items are well-formed. -/
def wellFormedItems : List Json → Bool
  | [] => true
  | v :: rest => wellFormed v && wellFormedItems rest

/-- Whether all fields are well-formed, their keys ascending and above
a given key. -/
def wellFormedFields (after : Option String) : List (String × Json) → Bool
  | [] => true
  | (k, v) :: rest =>
    (match after with
      | none => true
      | some p => p < k) && wellFormed v && wellFormedFields (some k) rest

end

/-- A value that a text can stand for. -/
def WellFormed (v : Json) : Prop := v.wellFormed = true

mutual

/-- The number of brackets that are open at once, at most, in the
text of a value. -/
def depth : Json → Nat
  | .array items => depthItems items + 1
  | .object fields => depthFields fields + 1
  | _ => 0

/-- The greatest depth of an item. -/
def depthItems : List Json → Nat
  | [] => 0
  | v :: rest => Nat.max (depth v) (depthItems rest)

/-- The greatest depth of a field's value. -/
def depthFields : List (String × Json) → Nat
  | [] => 0
  | (_, v) :: rest => Nat.max (depth v) (depthFields rest)

end

/-! ## Equality and order -/

mutual

/-- Equality of values. -/
def same : Json → Json → Bool
  | .null, .null => true
  | .bool a, .bool b => a == b
  | .int a, .int b => a == b
  | .float a, .float b => a.sameValue b
  | .string a, .string b => a == b
  | .array a, .array b => sameItems a b
  | .object a, .object b => sameFields a b
  | _, _ => false

/-- Equality of rows of items. -/
def sameItems : List Json → List Json → Bool
  | [], [] => true
  | a :: as, b :: bs => same a b && sameItems as bs
  | _, _ => false

/-- Equality of rows of fields. -/
def sameFields : List (String × Json) → List (String × Json) → Bool
  | [], [] => true
  | (k, a) :: as, (l, b) :: bs => k == l && same a b && sameFields as bs
  | _, _ => false

end

instance : BEq Json := ⟨same⟩

/-- The place of a kind of value in the order: whole numbers come
before floating point numbers. -/
def rank : Json → Nat
  | .null => 0
  | .bool _ => 1
  | .int _ => 2
  | .float _ => 3
  | .string _ => 4
  | .array _ => 5
  | .object _ => 6

mutual

/-- The order of values: by kind, then by value; arrays and objects
compare item by item, and a row comes after its own beginnings. -/
def cmp : Json → Json → Ordering
  | .bool a, .bool b => compare a b
  | .int a, .int b => compare a b
  | .float a, .float b => compare a.place b.place
  | .string a, .string b => compare a b
  | .array a, .array b => cmpItems a b
  | .object a, .object b => cmpFields a b
  | a, b => compare a.rank b.rank

/-- The order of rows of items. -/
def cmpItems : List Json → List Json → Ordering
  | [], [] => .eq
  | [], _ :: _ => .lt
  | _ :: _, [] => .gt
  | a :: as, b :: bs => (cmp a b).then (cmpItems as bs)

/-- The order of rows of fields: by key, then by value. -/
def cmpFields : List (String × Json) → List (String × Json) → Ordering
  | [], [] => .eq
  | [], _ :: _ => .lt
  | _ :: _, [] => .gt
  | (k, a) :: as, (l, b) :: bs =>
    ((compare k l).then (cmp a b)).then (cmpFields as bs)

end

/-! ## Access -/

/-- The value of a field. -/
def field? (v : Json) (key : String) : Option Json :=
  match v with
  | .object fields => Fields.find? fields key
  | _ => none

/-- The text of a string. -/
def string? : Json → Option String
  | .string s => some s
  | _ => none

/-- The value of a whole number that is not negative. -/
def nat? : Json → Option Nat
  | .int (.ofNat n) => some n
  | _ => none

/-- The value of a truth value. -/
def bool? : Json → Option Bool
  | .bool b => some b
  | _ => none

/-- The items of an array. -/
def items? : Json → Option (List Json)
  | .array items => some items
  | _ => none

/-- The fields of an object. -/
def fields? : Json → Option Fields
  | .object fields => some fields
  | _ => none

/-- A whole number as a value. -/
def ofNat (n : Nat) : Json := .int n

/-- A value or null. -/
def ofOption : Option Json → Json
  | some v => v
  | none => .null

/-- A row of texts. -/
def ofStrings (ss : List String) : Json := .array (ss.map .string)

/-- The name of a value's kind, as a schema names it: a number that is
not whole is a number, any other an integer. -/
def kindName : Json → String
  | .null => "null"
  | .bool _ => "boolean"
  | .int _ => "integer"
  | .float _ => "number"
  | .string _ => "string"
  | .array _ => "array"
  | .object _ => "object"

end Json

end AgentLoop
