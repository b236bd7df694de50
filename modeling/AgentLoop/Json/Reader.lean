/-
AgentLoop.Json.Reader — reading typed values off a tree.

* `DecodeError` — why a text is refused
* `Reader` — from a tree to a typed value
* `text`, `whole`, `real`, `flag`, `value`, `list`, `nullable`, `oneOf` —
  the readers of single values
* `record` — the members of a record, given by name or in order
* `tagged` — a record whose kind is named by one of its fields
* `decode` — a typed value from a whole text

Several things may be wrong with a text, and the fault that comes first
in it decides. Fields are read in their order of appearance; a field of
no interest must only be complete. A member that is repeated is a fault,
and what follows the value is looked at last.
-/
import AgentLoop.Json.Node

namespace AgentLoop.Json

/-- Why a text is refused: it is not JSON of the wanted form, or it is
and breaks a rule of the conversation. -/
inductive DecodeError where
  | malformed
  | blankText
  | blankCallId
deriving DecidableEq, Repr

/-- Reads a typed value off a tree. -/
abbrev Reader (α : Type) := Node → Except DecodeError α

namespace Reader

variable {α β : Type}

/-- Turns what was read into another value. -/
def map (f : α → β) (r : Reader α) : Reader β := fun n => (r n).map f

/-- Puts what was read to a test of its own. -/
def check (r : Reader α) (f : α → Except DecodeError β) : Reader β :=
  fun n => (r n).bind f

/-! ## Single values -/

/-- A string. -/
def text : Reader String
  | .text s => .ok s
  | _ => .error .malformed

/-- A whole number from zero to `top`. A number with a point or an
exponent is not whole, whatever its value. -/
def whole (top : Nat) : Reader Nat
  | .number (.int (.ofNat n)) => if n ≤ top then .ok n else .error .malformed
  | _ => .error .malformed

/-- A number, as a floating point number. -/
def real : Reader (Number.Binary Number.binary64)
  | .number (.int n) => .ok (.ofInt _ n)
  | .number (.float x) => .ok (.finite x)
  | _ => .error .malformed

/-- A truth value. -/
def flag : Reader Bool
  | .bool b => .ok b
  | _ => .error .malformed

/-- Any value. -/
def value : Reader Json := fun n =>
  match n.toJson? with
  | some v => .ok v
  | none => .error .malformed

/-- The items of a list, in order. -/
def items (r : Reader α) : List Node → Except DecodeError (List α)
  | [] => .ok []
  | n :: rest =>
    match r n with
    | .error e => .error e
    | .ok a => (items r rest).map (a :: ·)

/-- A list. -/
def list (r : Reader α) : Reader (List α)
  | .array ns closed =>
    match r.items ns with
    | .error e => .error e
    | .ok as => if closed then .ok as else .error .malformed
  | _ => .error .malformed

/-- A value or null. -/
def nullable (r : Reader α) : Reader (Option α)
  | .null => .ok none
  | n => (r n).map some

/-- Whether a tree stands for null. In a value that was `kept` aside
before its kind was known an empty object does, too. -/
def isNull (kept : Bool) : Node → Bool
  | .null => true
  | .object [] true => kept
  | _ => false

/-- One of some names, as a string or as the only key of an object whose
value is null. -/
def oneOf (names : List (String × α)) (kept : Bool) : Reader α := fun n =>
  let name? := match n with
    | .text s => some s
    | .object [(some s, m)] true => if isNull kept m then some s else none
    | _ => none
  match name?.bind (names.lookup ·) with
  | some a => .ok a
  | none => .error .malformed

end Reader

/-! ## Records -/

/-- A member of a record: its name, and what its value is checked for
when it is met. -/
structure Member where
  name : String
  check : Node → Except DecodeError Unit

/-- A member whose value is read by a reader. -/
def Member.of {α : Type} (name : String) (r : Reader α) : Member :=
  ⟨name, fun n => (r n).map fun _ => ()⟩

/-- The members that were given, in the order of their appearance, and
whether by name or by their place in an array. -/
structure Given where
  byName : Bool
  values : List (String × Node)

namespace Given

variable {α : Type}

/-- The value of a member that must be there. -/
def required (g : Given) (name : String) (r : Reader α) : Except DecodeError α :=
  match g.values.lookup name with
  | some n => r n
  | none => .error .malformed

/-- The value of a member, or a default if it is not there. -/
def withDefault (g : Given) (name : String) (r : Reader α) (default : α) :
    Except DecodeError α :=
  match g.values.lookup name with
  | some n => r n
  | none => .ok default

/-- The value of a member that may be null or missing, but has its place
in an array. -/
def optional (g : Given) (name : String) (r : Reader α) :
    Except DecodeError (Option α) :=
  match g.values.lookup name with
  | some n => r.nullable n
  | none => if g.byName then .ok none else .error .malformed

end Given

/-- The members among the fields of an object, in order of appearance,
behind those already `seen`. -/
def namedMembers (members : List Member) (seen : List (String × Node)) :
    List (Option String × Node) → Except DecodeError (List (String × Node))
  | [] => .ok seen
  | (none, _) :: _ => .error .malformed
  | (some k, n) :: rest =>
    match members.find? fun m => m.name = k with
    | none =>
      if n.isComplete then namedMembers members seen rest else .error .malformed
    | some m =>
      if (seen.lookup k).isSome then .error .malformed
      else
        match m.check n with
        | .error e => .error e
        | .ok _ => namedMembers members (seen ++ [(k, n)]) rest

/-- The members in the order of their declaration; those at the end may
be missing. -/
def orderedMembers : List Member → List Node →
    Except DecodeError (List (String × Node))
  | _, [] => .ok []
  | [], _ :: _ => .error .malformed
  | m :: ms, n :: ns =>
    match m.check n with
    | .error e => .error e
    | .ok _ => (orderedMembers ms ns).map ((m.name, n) :: ·)

/-- The members of a record: an object with fields by name, or an array
of the members in the order of their declaration. -/
def record (members : List Member) : Reader Given := fun n =>
  let finish (byName closed : Bool)
      (found : Except DecodeError (List (String × Node))) :=
    match found with
    | .error e => .error e
    | .ok values => if closed then .ok ⟨byName, values⟩ else .error .malformed
  match n with
  | .object fields closed => finish true closed (namedMembers members [] fields)
  | .array ns closed => finish false closed (orderedMembers members ns)
  | _ => .error .malformed

/-- The kind of a tagged value and its other content: an object with the
kind under the name `tag`, anywhere in it, or an array with the kind in
front. The content is kept aside until the kind is known, so all of it
has to be readable. -/
def tagged (tag : String) : Reader (String × Node) := fun n =>
  match n.toJson?, n with
  | some _, .object fields closed =>
    match fields.filter fun f => f.1 = some tag with
    | [(_, .text kind)] =>
      .ok (kind, .object (fields.filter fun f => f.1 ≠ some tag) closed)
    | _ => .error .malformed
  | some _, .array (.text kind :: rest) closed => .ok (kind, .array rest closed)
  | _, _ => .error .malformed

/-! ## Whole texts -/

/-- Reads a typed value off a whole text. -/
def decode {α : Type} (r : Reader α) (s : String) : Except DecodeError α :=
  let document := Document.ofText s
  match document.root with
  | none => .error .malformed
  | some n =>
    match r n with
    | .error e => .error e
    | .ok a => if document.trailing then .error .malformed else .ok a

end AgentLoop.Json
