/-
AgentLoop.Tool.Result — what comes of a tool call.

* `ToolFailure` — a failed call as the model is told of it
* `ToolCallResult` — the result of a call, with the call's identifier
* `ExecutorOutcome` — how the run of a tool ends
* `ToolCallResult.ofOutcome` — the result of a run that ended
-/
import AgentLoop.Provider.Reply
import AgentLoop.Tool.Spec

namespace AgentLoop

open Json (Reader)

/-- The ways a tool call fails. -/
inductive ToolErrorKind where
  | unknownTool
  | schemaViolation
  | executionFailed
deriving DecidableEq, Repr

namespace ToolErrorKind

/-- The name of a kind. -/
def name : ToolErrorKind → String
  | .unknownTool => "unknown_tool"
  | .schemaViolation => "schema_violation"
  | .executionFailed => "execution_failed"

/-- The kinds by their names. -/
def names : List (String × ToolErrorKind) :=
  [("unknown_tool", .unknownTool), ("schema_violation", .schemaViolation),
   ("execution_failed", .executionFailed)]

theorem lookup_name (k : ToolErrorKind) : names.lookup k.name = some k := by
  cases k <;> rfl

end ToolErrorKind

/-- A failed call as the model is told of it. -/
structure ToolFailure where
  kind : ToolErrorKind
  message : String
  violations : List FieldViolation
deriving DecidableEq, Repr

namespace ToolFailure

/-- No tool has the name that was asked for. -/
def unknownTool (name : String) (available : List String) : ToolFailure :=
  let message :=
    if available.isEmpty then
      "unknown tool '" ++ name ++ "'; no tools are registered"
    else
      "unknown tool '" ++ name ++ "'; available tools: "
        ++ ", ".intercalate available
  ⟨.unknownTool, message, []⟩

/-- The arguments do not fit the tool. -/
def schemaViolation (tool : String) (violations : List FieldViolation) :
    ToolFailure :=
  ⟨.schemaViolation,
   "invalid arguments for '" ++ tool ++ "': "
     ++ "; ".intercalate (violations.map FieldViolation.display),
   violations⟩

/-- The tool was run and came to grief. -/
def executionFailed (tool cause : String) : ToolFailure :=
  ⟨.executionFailed, "tool '" ++ tool ++ "' failed: " ++ cause, []⟩

/-- The record of a failure; violations are left out if there are
none. -/
def toJson (f : ToolFailure) : Json :=
  .object ([("kind", .string f.kind.name), ("message", .string f.message)]
    ++ if f.violations.isEmpty then []
       else [("violations", .array (f.violations.map FieldViolation.toJson))])

/-- A failure as the content of a result: an object that is filled field
by field. -/
def toValue (f : ToolFailure) : Json :=
  let fields := Fields.ofList
    [("kind", .string f.kind.name), ("message", .string f.message)]
  .object <|
    if f.violations.isEmpty then fields
    else fields.insert "violations"
      (.array (f.violations.map FieldViolation.toJson))

/-- Reads a failure. -/
def reader : Reader ToolFailure := fun n => do
  let kind := Reader.oneOf ToolErrorKind.names false
  let violations := FieldViolation.reader.list
  let g ← Json.record [.of "kind" kind, .of "message" Reader.text,
    .of "violations" violations] n
  return ⟨← g.required "kind" kind, ← g.required "message" Reader.text,
    ← g.withDefault "violations" violations []⟩

end ToolFailure

/-- The result of a tool call: what the tool said, or how it failed. -/
structure ToolCallResult where
  callId : CallId
  status : ToolStatus
  content : Json
deriving Repr

namespace ToolCallResult

/-- The tool said something. -/
def ok (id : CallId) (content : Json) : ToolCallResult := ⟨id, .ok, content⟩

/-- The call failed. -/
def failure (id : CallId) (f : ToolFailure) : ToolCallResult :=
  ⟨id, .error, f.toValue⟩

/-- Whether the tool said something. -/
def isOk (r : ToolCallResult) : Bool := r.status = .ok

/-- The failure that the content of an error result spells out. -/
def failureDetails (r : ToolCallResult) : Option ToolFailure :=
  match r.status with
  | .ok => none
  | .error => (ToolFailure.reader (Json.Node.ofJson r.content)).toOption

/-- The message that records a result. -/
def toMessage (r : ToolCallResult) : Message :=
  .toolResult r.callId r.status r.content

/-- The record of a result. -/
def toJson (r : ToolCallResult) : Json :=
  .object [("call_id", .string r.callId.text),
    ("status", .string r.status.name), ("content", r.content)]

/-- Reads a result. -/
def reader : Reader ToolCallResult := fun n => do
  let status := Reader.oneOf ToolStatus.names false
  let g ← Json.record [.of "call_id" CallId.reader, .of "status" status,
    .of "content" Reader.value] n
  return ⟨← g.required "call_id" CallId.reader, ← g.required "status" status,
    ← g.required "content" Reader.value⟩

end ToolCallResult

/-- How the run of a tool ends. An error lists its causes, the outermost
first; a crash may leave a text behind. -/
inductive ExecutorOutcome where
  | value (v : Json)
  | failed (causes : List String)
  | crashed (report : Option String)
deriving Repr

/-- The result of a run that ended, or was given up after so many
milliseconds. -/
def ToolCallResult.ofOutcome (id : CallId) (tool : String) :
    ExecutorOutcome → ToolCallResult
  | .value v => .ok id v
  | .failed causes =>
    .failure id (.executionFailed tool (": ".intercalate causes))
  | .crashed report =>
    .failure id (.executionFailed tool
      ("panicked: " ++ report.getD "executor panicked"))

/-- The result of a run that was given up after so many milliseconds. -/
def ToolCallResult.timedOut (id : CallId) (tool : String) (limit : Nat) :
    ToolCallResult :=
  .failure id (.executionFailed tool
    ("timed out after " ++ toString limit ++ "ms"))

end AgentLoop
