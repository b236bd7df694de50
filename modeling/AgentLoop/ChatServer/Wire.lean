/-
AgentLoop.ChatServer.Wire — conversations in the words of a model server.

* `WireMessage` — a message as the server reads and writes it
* `WireMessage.ofHistory` — a history for the server: the calls of one
  step share a message, and a result names its tool
* `ChatRequest.body` — a whole request
* `ChatResponse` — what the server sends back

The server knows no call identifiers.
-/
import AgentLoop.ChatServer.Settings
import AgentLoop.Tool.Result

namespace AgentLoop

open Json (Reader)

/-- A tool call as the server writes it. -/
structure WireCall where
  name : String
  arguments : Json
deriving Repr

/-- A message as the server reads and writes it. -/
structure WireMessage where
  role : String
  content : String := ""
  toolCalls : List WireCall := []
  toolName : Option String := none
deriving Repr

namespace WireCall

/-- The record of a call. -/
def toJson (c : WireCall) : Json :=
  .object [("function",
    .object [("name", .string c.name), ("arguments", c.arguments)])]

/-- Reads what is called. -/
def functionReader : Reader WireCall := fun n => do
  let g ← Json.record [.of "name" Reader.text, .of "arguments" Reader.value] n
  return ⟨← g.required "name" Reader.text,
    ← g.withDefault "arguments" Reader.value .null⟩

/-- Reads a call. -/
def reader : Reader WireCall := fun n => do
  let g ← Json.record [.of "function" functionReader] n
  g.required "function" functionReader

end WireCall

namespace WireMessage

/-- The record of a message; calls and tool name are left out if there
are none. -/
def toJson (m : WireMessage) : Json :=
  .object ([("role", .string m.role), ("content", .string m.content)]
    ++ (if m.toolCalls.isEmpty then []
        else [("tool_calls", .array (m.toolCalls.map WireCall.toJson))])
    ++ (match m.toolName with
        | none => []
        | some name => [("tool_name", .string name)]))

/-- Reads a message. -/
def reader : Reader WireMessage := fun n => do
  let calls := WireCall.reader.list
  let tool := Reader.text.nullable
  let g ← Json.record [.of "role" Reader.text, .of "content" Reader.text,
    .of "tool_calls" calls, .of "tool_name" tool] n
  return ⟨← g.required "role" Reader.text,
    ← g.withDefault "content" Reader.text "",
    ← g.withDefault "tool_calls" calls [],
    ← g.withDefault "tool_name" tool none⟩

/-- The text of a result: a string as it is, any other value as JSON. -/
def resultText : Json → String
  | .string s => s
  | v => v.print

/-- Whether a message carries the calls of a step. -/
def carriesCalls (m : WireMessage) : Bool :=
  m.role = "assistant" && !m.toolCalls.isEmpty

/-- Adds a call to the message of the step, or begins a new one. The
messages are given last first. -/
def addCall (call : WireCall) : List WireMessage → List WireMessage
  | last :: rest =>
    if last.carriesCalls then
      { last with toolCalls := last.toolCalls ++ [call] } :: rest
    else { role := "assistant", toolCalls := [call] } :: last :: rest
  | [] => [{ role := "assistant", toolCalls := [call] }]

/-- Adds a message of a history to the server's messages, last first; the
names of the tools called so far go along. -/
def addMessage (names : List (CallId × String)) (out : List WireMessage) :
    Message → List (CallId × String) × List WireMessage
  | .systemText c => (names, { role := "system", content := c.text } :: out)
  | .userText c => (names, { role := "user", content := c.text } :: out)
  | .assistantText c => (names, { role := "assistant", content := c.text } :: out)
  | .toolCall id tool arguments =>
    ((id, tool.text) :: names, addCall ⟨tool.text, arguments⟩ out)
  | .toolResult id _ content =>
    (names,
      { role := "tool", content := resultText content,
        toolName := names.lookup id } :: out)

/-- A history in the server's words. -/
def ofHistory (history : List Message) : List WireMessage :=
  (history.foldl (fun acc m => addMessage acc.1 acc.2 m) ([], [])).2.reverse

end WireMessage

/-- A tool in the server's words. -/
def ToolSpec.toServerJson (s : ToolSpec) : Json :=
  .object [("function",
      .object [("description", .string s.description), ("name", .string s.name),
        ("parameters", s.jsonSchema)]),
    ("type", .string "function")]

/-- The body of a request. -/
def ChatRequest.body (s : ServerSettings) (history : List Message)
    (tools : List ToolSpec) : Json :=
  .object ([("model", .string s.model),
      ("messages", .array ((WireMessage.ofHistory history).map WireMessage.toJson))]
    ++ (if tools.isEmpty then []
        else [("tools", .array (tools.map ToolSpec.toServerJson))])
    ++ [("stream", .bool false)]
    ++ (match s.temperature with
        | none => []
        | some t => [("options", .object [("temperature",
            RetryPolicy.realJson (ServerSettings.widen t))])]))

/-- What the server sends back. -/
structure ChatResponse where
  message : Option WireMessage
  promptCount : Option Nat
  completionCount : Option Nat
  error : Option String
deriving Repr

/-- Reads what the server sends back. -/
def ChatResponse.reader : Reader ChatResponse := fun n => do
  let count := Reader.whole Number.max32
  let g ← Json.record [.of "message" WireMessage.reader.nullable,
    .of "prompt_eval_count" count.nullable, .of "eval_count" count.nullable,
    .of "error" Reader.text.nullable] n
  return ⟨← g.optional "message" WireMessage.reader,
    ← g.optional "prompt_eval_count" count, ← g.optional "eval_count" count,
    ← g.optional "error" Reader.text⟩

/-- Reads the name of a model. -/
def modelReader : Reader String := fun n => do
  let g ← Json.record [.of "name" Reader.text] n
  g.required "name" Reader.text

/-- Reads the names of the models that a server has. -/
def modelsReader : Reader (List String) := fun n => do
  let models := modelReader.list
  let g ← Json.record [.of "models" models] n
  g.withDefault "models" models []

end AgentLoop
