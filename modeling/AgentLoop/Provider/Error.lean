/-
AgentLoop.Provider.Error — what a backend may fail with.

* `ProviderErrorKind` — the kinds of failure, and which of them pass
* `ProviderError` — a failure, with a word on whether asking again may
  help
-/
import AgentLoop.Json.Reader
import AgentLoop.Json.Printer

namespace AgentLoop

open Json (Reader)

/-- The kinds of failure of a backend. -/
inductive ProviderErrorKind where
  | unavailable
  | rateLimited
  | authentication
  | contextLengthExceeded
  | modelNotSupported
  | requestFailed
  | malformedResponse
  | execution
deriving DecidableEq, Repr

namespace ProviderErrorKind

/-- The name of a kind. -/
def name : ProviderErrorKind → String
  | .unavailable => "unavailable"
  | .rateLimited => "rate_limited"
  | .authentication => "authentication"
  | .contextLengthExceeded => "context_length_exceeded"
  | .modelNotSupported => "model_not_supported"
  | .requestFailed => "request_failed"
  | .malformedResponse => "malformed_response"
  | .execution => "execution"

/-- All kinds. -/
def all : List ProviderErrorKind :=
  [.unavailable, .rateLimited, .authentication, .contextLengthExceeded,
   .modelNotSupported, .requestFailed, .malformedResponse, .execution]

/-- The kinds by their names. -/
def names : List (String × ProviderErrorKind) := all.map fun k => (k.name, k)

theorem lookup_name (k : ProviderErrorKind) : names.lookup k.name = some k := by
  cases k <;> rfl

/-- Whether a failure of this kind passes by itself, unless its reporter
knows better. -/
def isTransient : ProviderErrorKind → Bool
  | .unavailable | .rateLimited | .requestFailed => true
  | _ => false

end ProviderErrorKind

/-- A failure of a backend. -/
structure ProviderError where
  kind : ProviderErrorKind
  retryable : Bool
  message : String
deriving DecidableEq, Repr

namespace ProviderError

/-- A failure that may be tried again if its kind passes. -/
def ofKind (kind : ProviderErrorKind) (message : String) : ProviderError :=
  ⟨kind, kind.isTransient, message⟩

/-- The backend cannot be reached. -/
def unavailable : String → ProviderError := ofKind .unavailable

/-- The backend was asked too often. -/
def rateLimited : String → ProviderError := ofKind .rateLimited

/-- The backend's reply makes no sense. -/
def malformed : String → ProviderError := ofKind .malformedResponse

/-- A failure in words. -/
def display (e : ProviderError) : String :=
  "provider error (" ++ e.kind.name ++ "): " ++ e.message

/-- The record of a failure. -/
def toJson (e : ProviderError) : Json :=
  .object [("kind", .string e.kind.name), ("retryable", .bool e.retryable),
    ("message", .string e.message)]

/-- Reads a failure. -/
def reader : Reader ProviderError := fun n => do
  let kind := Reader.oneOf ProviderErrorKind.names false
  let g ← Json.record [.of "kind" kind, .of "retryable" Reader.flag,
    .of "message" Reader.text] n
  return ⟨← g.required "kind" kind, ← g.required "retryable" Reader.flag,
    ← g.required "message" Reader.text⟩

end ProviderError

end AgentLoop
