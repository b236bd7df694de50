/-
AgentLoop.Message.FreshId — identifiers for calls that have none.

* `CallId.numbered` — the identifier with a number: `call_` and thirty-two
  hexadecimal digits
-/
import AgentLoop.Message.Basic

namespace AgentLoop.CallId

/-- The hexadecimal digits of a number, filled up with zeros. -/
def hexDigits (width n : Nat) : List Char :=
  let ds := Nat.toDigits 16 n
  List.replicate (width - ds.length) '0' ++ ds

/-- The text of the identifier with a number. -/
def numberedText (n : Nat) : String :=
  String.ofList ('c' :: 'a' :: 'l' :: 'l' :: '_' :: hexDigits 32 n)

theorem isBlank_numberedText (n : Nat) :
    Text.isBlank (numberedText n) = false := by
  simp [Text.isBlank, numberedText, Text.isBlankChar, Text.blankRanges]

/-- The identifier with a number. -/
def numbered (n : Nat) : CallId := ⟨numberedText n, isBlank_numberedText n⟩

end AgentLoop.CallId
