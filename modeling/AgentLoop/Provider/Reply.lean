/-
AgentLoop.Provider.Reply — what a backend replies.

* `TokenUsage` — the tokens a reply took, and their sum
* `ToolCallRequest` — a tool that the model wants run
* `ProviderReply` — a final answer or a batch of calls
-/
import AgentLoop.Message.Wire
import AgentLoop.Number.Limits
import AgentLoop.Provider.Error

namespace AgentLoop

open Json (Reader)
open Number (max32 addUpTo)

/-- The tokens a reply took. -/
structure TokenUsage where
  prompt : Nat := 0
  completion : Nat := 0
  total : Nat := 0
deriving DecidableEq, Repr

namespace TokenUsage

/-- The usage of a prompt and its completion. -/
def ofCounts (prompt completion : Nat) : TokenUsage :=
  ⟨prompt, completion, addUpTo max32 prompt completion⟩

/-- The sum of two usages, count by count. -/
def add (a b : TokenUsage) : TokenUsage :=
  ⟨addUpTo max32 a.prompt b.prompt, addUpTo max32 a.completion b.completion,
   addUpTo max32 a.total b.total⟩

instance : Add TokenUsage := ⟨add⟩

theorem add_assoc (a b c : TokenUsage) : a + b + c = a + (b + c) := by
  change add (add a b) c = add a (add b c)
  simp [add, Number.addUpTo_assoc]

/-- The record of a usage. -/
def toJson (u : TokenUsage) : Json :=
  .object [("prompt_tokens", .ofNat u.prompt),
    ("completion_tokens", .ofNat u.completion), ("total_tokens", .ofNat u.total)]

/-- Reads a usage. -/
def reader : Reader TokenUsage := fun n => do
  let count := Reader.whole max32
  let g ← Json.record [.of "prompt_tokens" count, .of "completion_tokens" count,
    .of "total_tokens" count] n
  return ⟨← g.required "prompt_tokens" count,
    ← g.required "completion_tokens" count, ← g.required "total_tokens" count⟩

end TokenUsage

/-- A tool that the model wants run. Neither the name nor the arguments
have been looked at yet. -/
structure ToolCallRequest where
  callId : CallId
  toolName : String
  arguments : Json
deriving Repr

namespace ToolCallRequest

/-- The record of a request. -/
def toJson (r : ToolCallRequest) : Json :=
  .object [("call_id", .string r.callId.text), ("tool_name", .string r.toolName),
    ("arguments", r.arguments)]

/-- Reads a request; arguments that are missing are null. -/
def reader : Reader ToolCallRequest := fun n => do
  let g ← Json.record [.of "call_id" CallId.reader, .of "tool_name" Reader.text,
    .of "arguments" Reader.value] n
  return ⟨← g.required "call_id" CallId.reader,
    ← g.required "tool_name" Reader.text,
    ← g.withDefault "arguments" Reader.value .null⟩

end ToolCallRequest

/-- A reply of a backend. A batch without calls is legal only if the
backend says that it is done. -/
inductive ProviderReply where
  | finalAnswer (text : String) (usage : Option TokenUsage)
  | toolCallBatch (calls : List ToolCallRequest) (done : Bool)
      (usage : Option TokenUsage)
deriving Repr

/-- What a backend answers with. -/
abbrev ProviderResult := Except ProviderError ProviderReply

namespace ProviderReply

/-- The usage attached to a reply. -/
def usage? : ProviderReply → Option TokenUsage
  | .finalAnswer _ u => u
  | .toolCallBatch _ _ u => u

/-- The field of a usage, left out if there is none. -/
def usageField : Option TokenUsage → Fields
  | none => []
  | some u => [("usage", u.toJson)]

/-- The record of a reply. -/
def toJson : ProviderReply → Json
  | .finalAnswer text usage =>
    .object ([("type", .string "final_answer"), ("text", .string text)]
      ++ usageField usage)
  | .toolCallBatch calls done usage =>
    .object ([("type", .string "tool_call_batch"),
        ("calls", .array (calls.map ToolCallRequest.toJson)), ("done", .bool done)]
      ++ usageField usage)

/-- Reads a reply. -/
def reader : Reader ProviderReply := fun n => do
  let (kind, content) ← Json.tagged "type" n
  let usage := TokenUsage.reader.nullable
  match kind with
  | "final_answer" =>
    let g ← Json.record [.of "text" Reader.text, .of "usage" usage] content
    return .finalAnswer (← g.required "text" Reader.text)
      (← g.withDefault "usage" usage none)
  | "tool_call_batch" =>
    let calls := ToolCallRequest.reader.list
    let g ← Json.record [.of "calls" calls, .of "done" Reader.flag,
      .of "usage" usage] content
    return .toolCallBatch (← g.required "calls" calls)
      (← g.withDefault "done" Reader.flag false)
      (← g.withDefault "usage" usage none)
  | _ => .error .malformed

end ProviderReply

end AgentLoop
