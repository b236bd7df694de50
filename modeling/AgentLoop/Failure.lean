/-
AgentLoop.Failure — everything that ends a turn or turns a request of the
caller down.

* `AgentError` — the errors, `AgentError.display` in words,
  `AgentError.userMessage` in words for the user
* `TurnErrorKind` — why a turn ended without an answer
-/
import AgentLoop.Message.Basic
import AgentLoop.Provider.Error

namespace AgentLoop

open Json (Reader)

/-- Why a turn ended without an answer. -/
inductive TurnErrorKind where
  | invariantViolation
  | provider (kind : ProviderErrorKind)
  | iterationLimitExceeded
  | cancelled
deriving DecidableEq, Repr

namespace TurnErrorKind

/-- The tag of a kind. -/
def tag : TurnErrorKind → String
  | .invariantViolation => "invariant_violation"
  | .provider _ => "provider_error"
  | .iterationLimitExceeded => "iteration_limit_exceeded"
  | .cancelled => "cancelled"

/-- A kind in words. -/
def display : TurnErrorKind → String
  | .provider kind => "provider_error:" ++ kind.name
  | k => k.tag

/-- The record of a kind. -/
def toJson (k : TurnErrorKind) : Json :=
  .object (("kind", .string k.tag) ::
    match k with
    | .provider kind => [("provider_kind", .string kind.name)]
    | _ => [])

/-- What a tag asks its content to be: nothing, or the kind of a
backend's failure. -/
def tags : List (String × Option TurnErrorKind) :=
  [("invariant_violation", some .invariantViolation), ("provider_error", none),
   ("iteration_limit_exceeded", some .iterationLimitExceeded),
   ("cancelled", some .cancelled)]

/-- Reads a kind. Tag and content stand side by side; a content that comes
before its tag is kept aside. -/
def reader (kept : Bool) : Reader TurnErrorKind := fun n => do
  let g ← Json.record [.of "kind" (fun n => .ok n),
    .of "provider_kind" (fun n => .ok n)] n
  let contentFirst := g.values.head?.map (·.1) = some "provider_kind"
  match ← g.required "kind" (Reader.oneOf tags kept),
      g.values.lookup "provider_kind" with
  | some k, none => if g.byName then .ok k else .error .malformed
  | some k, some .null => .ok k
  | some _, some _ => .error .malformed
  | none, none => .error .malformed
  | none, some content =>
    (Reader.oneOf ProviderErrorKind.names (kept || contentFirst) content).map
      .provider

end TurnErrorKind

/-- Everything that ends a turn or turns a request of the caller down. -/
inductive AgentError where
  | invalidMessage (reason : String)
  | invariantViolation (reason : String)
  | provider (error : ProviderError)
  | duplicateTool (name : String)
  | invalidToolSpec (reason : String)
  | iterationLimitExceeded (limit : Nat)
  | cancelled
  | config (reason : String)
  | json
deriving DecidableEq, Repr

namespace AgentError

/-- The name of an error's kind. -/
def kindName : AgentError → String
  | .invalidMessage _ => "invalid_message"
  | .invariantViolation _ => "invariant_violation"
  | .provider _ => "provider"
  | .duplicateTool _ => "duplicate_tool"
  | .invalidToolSpec _ => "invalid_tool_spec"
  | .iterationLimitExceeded _ => "iteration_limit_exceeded"
  | .cancelled => "cancelled"
  | .config _ => "config"
  | .json => "json"

/-- An error in words. -/
def display : AgentError → String
  | .invalidMessage reason => "Invalid message: " ++ reason
  | .invariantViolation reason => "Invariant violation: " ++ reason
  | .provider e => e.display
  | .duplicateTool name => "Duplicate tool: " ++ name
  | .invalidToolSpec reason => "Invalid tool spec: " ++ reason
  | .iterationLimitExceeded limit =>
    "Maximum iterations (" ++ toString limit ++ ") reached"
  | .cancelled => "Turn cancelled"
  | .config reason => "Configuration error: " ++ reason
  | .json => "JSON error"

/-- The kind of a turn that ends with an error. -/
def turnKind : AgentError → TurnErrorKind
  | .provider e => .provider e.kind
  | .iterationLimitExceeded _ => .iterationLimitExceeded
  | .cancelled => .cancelled
  | _ => .invariantViolation

/-- Whether trying again may help. -/
def isRetryable : AgentError → Bool
  | .provider e => e.retryable
  | _ => false

/-- An error in words for the user, who learns nothing of the inside. -/
def userMessage : AgentError → String
  | .provider e =>
    match e.kind with
    | .unavailable | .requestFailed =>
      "The AI service is currently unavailable. Please try again."
    | .rateLimited => "You've made too many requests. Please wait a moment."
    | .authentication => "Authentication failed. Please check your credentials."
    | .contextLengthExceeded =>
      "The conversation is too long. Please start a new session."
    | _ => "The AI service encountered an error: " ++ e.message
  | .iterationLimitExceeded _ =>
    "The request took too long to process. Please try a simpler query."
  | .cancelled => "The request was cancelled."
  | .duplicateTool name => "The tool '" ++ name ++ "' is already registered."
  | _ => "An unexpected error occurred."

end AgentError

/-- A message that cannot be made, as an error of the agent. -/
def MessageError.toAgentError (e : MessageError) : AgentError :=
  .invalidMessage e.reason

end AgentLoop
