/-
AgentLoop.Json.Node — JSON text as a tree, as far as it goes.

* `Node` — a value as it was written: fields in their order, repeated
  keys and all, and open brackets that were never closed
* `Document.ofText` — the tree of a text
* `Node.toJson?` — the value of a tree
* `Json.parse?` — the value of a text

A reader takes a text in from left to right and gives up at the first
fault. A tree keeps what is needed to tell which fault comes first: an
array or object that the text breaks off in is not `closed`, and what
stands in it was there before the break.
-/
import AgentLoop.Json.Token

namespace AgentLoop.Json

/-- A value as written. `unreadable` is complete text without a value: a
number out of range, half a surrogate pair, brackets too deep. The key
of a field may be unreadable, too. -/
inductive Node where
  | null
  | bool (b : Bool)
  | number (value : Json)
  | text (s : String)
  | array (items : List Node) (closed : Bool)
  | object (fields : List (Option String × Node)) (closed : Bool)
  | unreadable
deriving Repr, Inhabited

/-- A text as a tree: its first value, if it begins with one, and whether
anything comes after it. -/
structure Document where
  root : Option Node
  trailing : Bool
deriving Repr

/-! ## From tokens to trees -/

/-- Brackets may be open this deep. -/
def deepest : Nat := 127

/-- An array or object that is open, its content last first. -/
inductive Frame where
  | array (items : List Node)
  | object (fields : List (Option String × Node)) (key : Option String)

/-- What may come next. -/
inductive Expect where
  | value
  | valueOrClose
  | commaOrBracket
  | keyOrClose
  | key
  | colon
  | commaOrBrace
  | nothing
deriving DecidableEq, Repr

/-- A tree on its way: the open brackets, inmost first, what may come
next, and the root once it is complete. A `broken` text is not read any
further. -/
structure Assembly where
  stack : List Frame
  expect : Expect
  root : Option Node
  broken : Bool

namespace Assembly

/-- Before the first token. -/
def start : Assembly := ⟨[], .value, none, false⟩

/-- A token that cannot stand here. -/
def reject (a : Assembly) : Assembly := { a with broken := true }

/-- A value is complete. -/
def put (a : Assembly) (n : Node) : Assembly :=
  match a.stack with
  | [] => { a with expect := .nothing, root := some n }
  | .array items :: rest =>
    { a with stack := .array (n :: items) :: rest, expect := .commaOrBracket }
  | .object fields key :: rest =>
    { a with
      stack := .object ((key, n) :: fields) none :: rest
      expect := .commaOrBrace }

/-- A bracket opens. -/
def push (a : Assembly) (frame : Frame) (expect : Expect) : Assembly :=
  { a with stack := frame :: a.stack, expect := expect }

/-- The node of a frame. -/
def Frame.node (closed : Bool) : Frame → Node
  | .array items => .array items.reverse closed
  | .object fields _ => .object fields.reverse closed

/-- The inmost bracket closes; too deep inside others, its content has
no value. -/
def close (a : Assembly) : Assembly :=
  match a.stack with
  | [] => a.reject
  | frame :: rest =>
    let node := if rest.length < deepest then Frame.node true frame else .unreadable
    { a with stack := rest }.put node

/-- A token where a value may stand. -/
def value (a : Assembly) : Token → Assembly
  | .null => a.put .null
  | .bool b => a.put (.bool b)
  | .number (some v) => a.put (.number v)
  | .number none => a.put .unreadable
  | .text (some s) => a.put (.text s)
  | .text none => a.put .unreadable
  | .openBracket => a.push (.array []) .valueOrClose
  | .openBrace => a.push (.object [] none) .keyOrClose
  | _ => a.reject

/-- A token where a key may stand. -/
def key (a : Assembly) : Token → Assembly
  | .text s =>
    match a.stack with
    | .object fields _ :: rest =>
      { a with stack := .object fields s :: rest, expect := .colon }
    | _ => a.reject
  | _ => a.reject

/-- One token further. -/
def step (a : Assembly) (t : Token) : Assembly :=
  if a.broken then a
  else match a.expect, t with
    | .value, t => a.value t
    | .valueOrClose, .closeBracket => a.close
    | .valueOrClose, t => a.value t
    | .commaOrBracket, .comma => { a with expect := .value }
    | .commaOrBracket, .closeBracket => a.close
    | .keyOrClose, .closeBrace => a.close
    | .keyOrClose, t => a.key t
    | .key, t => a.key t
    | .colon, .colon => { a with expect := .value }
    | .commaOrBrace, .comma => { a with expect := .key }
    | .commaOrBrace, .closeBrace => a.close
    | _, _ => a.reject

/-- Puts the node of a bracket that was never closed into the bracket
around it. -/
def Frame.adopt (child : Node) : Frame → Frame
  | .array items => .array (child :: items)
  | .object fields key => .object ((key, child) :: fields) none

/-- The node of the outermost of some open brackets, inmost first. -/
def collapse (child : Option Node) : List Frame → Option Node
  | [] => child
  | frame :: rest =>
    let frame := match child with
      | some n => Frame.adopt n frame
      | none => frame
    collapse (some (Frame.node false frame)) rest

/-- The end of the text. -/
def finish (a : Assembly) : Document :=
  match a.root with
  | some n => ⟨some n, a.broken⟩
  | none => ⟨collapse none a.stack, false⟩

end Assembly

/-- The tree of a text. -/
def Document.ofChars (cs : List Char) : Document :=
  ((tokens cs).foldl Assembly.step Assembly.start).finish

/-- The tree of a text. -/
def Document.ofText (s : String) : Document := .ofChars s.toList

/-! ## Values -/

namespace Node

mutual

/-- The value of a tree that is complete and readable throughout. -/
def toJson? : Node → Option Json
  | .null => some .null
  | .bool b => some (.bool b)
  | .number v => some v
  | .text s => some (.string s)
  | .array items true => (itemsToJson? items).map .array
  | .object fields true =>
    (fieldsToJson? fields).map fun fs => .object (Fields.ofList fs)
  | _ => none

/-- The values of items. -/
def itemsToJson? : List Node → Option (List Json)
  | [] => some []
  | n :: rest =>
    match toJson? n, itemsToJson? rest with
    | some v, some vs => some (v :: vs)
    | _, _ => none

/-- The values of fields, in their order. -/
def fieldsToJson? : List (Option String × Node) → Option (List (String × Json))
  | [] => some []
  | (some k, n) :: rest =>
    match toJson? n, fieldsToJson? rest with
    | some v, some vs => some ((k, v) :: vs)
    | _, _ => none
  | (none, _) :: _ => none

end

mutual

/-- Whether the text never broke off inside a tree. What has no value
may still be skipped. -/
def isComplete : Node → Bool
  | .array items closed => closed && itemsComplete items
  | .object fields closed => closed && fieldsComplete fields
  | _ => true

/-- Whether all items are complete. -/
def itemsComplete : List Node → Bool
  | [] => true
  | n :: rest => isComplete n && itemsComplete rest

/-- Whether all fields are complete. -/
def fieldsComplete : List (Option String × Node) → Bool
  | [] => true
  | (_, n) :: rest => isComplete n && fieldsComplete rest

end

mutual

/-- The tree of a value. -/
def ofJson : Json → Node
  | .null => .null
  | .bool b => .bool b
  | .int n => .number (.int n)
  | .float x => .number (.float x)
  | .string s => .text s
  | .array items => .array (itemsOfJson items) true
  | .object fields => .object (fieldsOfJson fields) true

/-- The trees of items. -/
def itemsOfJson : List Json → List Node
  | [] => []
  | v :: rest => ofJson v :: itemsOfJson rest

/-- The trees of fields. -/
def fieldsOfJson : List (String × Json) → List (Option String × Node)
  | [] => []
  | (k, v) :: rest => (some k, ofJson v) :: fieldsOfJson rest

end

end Node

/-- The value of a text that holds one value and nothing else. -/
def parse? (s : String) : Option Json :=
  match Document.ofText s with
  | ⟨some n, false⟩ => n.toJson?
  | _ => none

end AgentLoop.Json
