/-
AgentLoop.Message.Wire — messages as JSON text.

* `Message.toJson`, `Message.encode` — the record of a message, its kind
  in front
* `Message.reader`, `Message.decode` — reading it back, every field
  checked again
-/
import AgentLoop.Message.Basic
import AgentLoop.Json.Reader

namespace AgentLoop

open Json (DecodeError Reader Member)

/-- A text that is not blank, read off a tree. -/
def NonBlank.reader : Reader NonBlank :=
  Reader.text.check fun s =>
    match NonBlank.ofText s with
    | .ok t => .ok t
    | .error _ => .error .blankText

/-- An identifier, read off a tree. -/
def CallId.reader : Reader CallId :=
  Reader.text.check fun s =>
    match CallId.ofText s with
    | .ok id => .ok id
    | .error _ => .error .blankCallId

/-- The names of the two outcomes of a tool. -/
def ToolStatus.names : List (String × ToolStatus) :=
  [("ok", .ok), ("error", .error)]

/-- The name of an outcome. -/
def ToolStatus.name : ToolStatus → String
  | .ok => "ok"
  | .error => "error"

theorem ToolStatus.lookup_name (s : ToolStatus) : ToolStatus.names.lookup s.name = some s := by
  cases s <;> rfl

/-- The names of the roles. -/
def Role.names : List (String × Role) :=
  [("system", .system), ("user", .user), ("assistant", .assistant),
   ("tool", .tool)]

theorem Role.lookup_name (r : Role) : Role.names.lookup r.name = some r := by
  cases r <;> rfl

namespace Message

/-- The record of a message. -/
def toJson : Message → Json
  | .userText c =>
    .object [("type", .string "user_text"), ("content", .string c.text)]
  | .assistantText c =>
    .object [("type", .string "assistant_text"), ("content", .string c.text)]
  | .toolCall id tool arguments =>
    .object [("type", .string "assistant_tool_call"),
      ("call_id", .string id.text), ("tool_name", .string tool.text),
      ("arguments", arguments)]
  | .toolResult id status content =>
    .object [("type", .string "tool_result"),
      ("call_id", .string id.text), ("status", .string status.name),
      ("content", content)]
  | .systemText c =>
    .object [("type", .string "system_text"), ("content", .string c.text)]

/-- The text of a message. -/
def encode (m : Message) : String := m.toJson.print

/-- Reads the content of a message that is a text. -/
def textReader (make : NonBlank → Message) : Reader Message := fun n => do
  let g ← Json.record [.of "content" NonBlank.reader] n
  return make (← g.required "content" NonBlank.reader)

/-- Reads the content of a call. -/
def callReader : Reader Message := fun n => do
  let g ← Json.record [.of "call_id" CallId.reader,
    .of "tool_name" NonBlank.reader, .of "arguments" Reader.value] n
  return .toolCall (← g.required "call_id" CallId.reader)
    (← g.required "tool_name" NonBlank.reader)
    (← g.required "arguments" Reader.value)

/-- Reads the content of a result. -/
def resultReader : Reader Message := fun n => do
  let status := Reader.oneOf ToolStatus.names true
  let g ← Json.record [.of "call_id" CallId.reader, .of "status" status,
    .of "content" Reader.value] n
  return .toolResult (← g.required "call_id" CallId.reader)
    (← g.required "status" status) (← g.required "content" Reader.value)

/-- Reads a message. -/
def reader : Reader Message := fun n => do
  let (kind, content) ← Json.tagged "type" n
  match kind with
  | "user_text" => textReader .userText content
  | "assistant_text" => textReader .assistantText content
  | "assistant_tool_call" => callReader content
  | "tool_result" => resultReader content
  | "system_text" => textReader .systemText content
  | _ => .error .malformed

/-- Reads a message off its text. -/
def decode (s : String) : Except DecodeError Message :=
  Json.decode reader s

end Message

end AgentLoop
