/-
AgentLoop.Message.Basic — what a conversation is made of.

* `NonBlank` — a text with something in it besides white space
* `CallId` — the identifier that ties a tool's result to its call
* `Message` — the five kinds of entry in a conversation
* `MessageError` — why no message can be made

Messages are checked when they are made, so every text of a message has
something in it and every identifier can be told from its absence.
-/
import AgentLoop.Json.Printer
import AgentLoop.Number.Limits
import AgentLoop.Text.Blank

namespace AgentLoop

/-- A text that is not blank. -/
structure NonBlank where
  text : String
  notBlank : Text.isBlank text = false
deriving DecidableEq, Repr

/-- The identifier of a tool call within a conversation; it is not
blank. -/
structure CallId where
  text : String
  notBlank : Text.isBlank text = false
deriving DecidableEq, Repr

/-- Why a message cannot be made. -/
inductive MessageError where
  | blankText
  | blankCallId
  | blankToolName
deriving DecidableEq, Repr

/-- The reason in words. -/
def MessageError.reason : MessageError → String
  | .blankText => "text must not be empty"
  | .blankCallId => "call_id must not be empty"
  | .blankToolName => "tool_name must not be empty"

/-- A text that is not blank, or the error given for a blank one. -/
def NonBlank.ofText (s : String) (error : MessageError := .blankText) :
    Except MessageError NonBlank :=
  if h : Text.isBlank s = false then .ok ⟨s, h⟩ else .error error

theorem NonBlank.map_ofText {α : Type} (make : NonBlank → α) {s : String} {error : MessageError}
    (h : Text.isBlank s = false) : (ofText s error).map make = .ok (make ⟨s, h⟩) := by
  rw [ofText, dif_pos h]
  rfl

/-- An identifier, unless it is blank. -/
def CallId.ofText (s : String) : Except MessageError CallId :=
  if h : Text.isBlank s = false then .ok ⟨s, h⟩ else .error .blankCallId

/-- Whether a tool did what it was asked for. -/
inductive ToolStatus where
  | ok
  | error
deriving DecidableEq, Repr

/-- Who speaks, in the words of most services. -/
inductive Role where
  | system
  | user
  | assistant
  | tool
deriving DecidableEq, Repr

/-- The name of a role. -/
def Role.name : Role → String
  | .system => "system"
  | .user => "user"
  | .assistant => "assistant"
  | .tool => "tool"

/-- An entry of a conversation. -/
inductive Message where
  | userText (content : NonBlank)
  | assistantText (content : NonBlank)
  | toolCall (id : CallId) (tool : NonBlank) (arguments : Json)
  | toolResult (id : CallId) (status : ToolStatus) (content : Json)
  | systemText (content : NonBlank)
deriving Repr

namespace Message

/-- What the user says. -/
def user (s : String) : Except MessageError Message :=
  (NonBlank.ofText s).map .userText

/-- What the assistant says. -/
def assistant (s : String) : Except MessageError Message :=
  (NonBlank.ofText s).map .assistantText

/-- What the conversation is set up with. -/
def system (s : String) : Except MessageError Message :=
  (NonBlank.ofText s).map .systemText

/-- A call of a tool. -/
def call (id : CallId) (tool : String) (arguments : Json) :
    Except MessageError Message :=
  (NonBlank.ofText tool .blankToolName).map fun t => .toolCall id t arguments

/-- Who speaks in a message. -/
def role : Message → Role
  | .userText _ => .user
  | .assistantText _ => .assistant
  | .toolCall .. => .assistant
  | .toolResult .. => .tool
  | .systemText _ => .system

/-- The text of the three kinds that are text. -/
def text? : Message → Option String
  | .userText c | .assistantText c | .systemText c => some c.text
  | _ => none

/-- The identifier of a call or a result. -/
def callId? : Message → Option CallId
  | .toolCall id .. | .toolResult id .. => some id
  | _ => none

/-- Whether a message opens a turn of the conversation. -/
def isUserText : Message → Bool
  | .userText _ => true
  | _ => false

/-- Whether a message sets the conversation up. -/
def isSystemText : Message → Bool
  | .systemText _ => true
  | _ => false

/-- The bytes of a message that count towards its tokens. -/
def weight : Message → Nat
  | .userText c | .assistantText c | .systemText c => c.text.utf8ByteSize
  | .toolCall _ tool arguments =>
    tool.text.utf8ByteSize + arguments.print.utf8ByteSize
  | .toolResult _ _ content => content.print.utf8ByteSize

/-- A rough number of tokens: one for four bytes and four for the role. -/
def estimateTokens (m : Message) : Nat :=
  Number.addUpTo Number.max32 (min (m.weight / 4) Number.max32) 4

end Message

end AgentLoop
