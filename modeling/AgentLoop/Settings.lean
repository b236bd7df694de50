/-
AgentLoop.Settings — the settings of an agent.

* `RetryPolicy` — how often a failed request is repeated, and
  `RetryPolicy.backoff`, the wait in front of each repetition
* `Settings` — bounds of the loop, limits on tools and context
* `Settings.validate` — settings the loop can run with
* `Settings.ofVariables` — settings given as texts under names
-/
import AgentLoop.Failure
import AgentLoop.Number.Limits
import AgentLoop.Number.Numeral

namespace AgentLoop

open Json (Reader)
open Number (Binary binary64 max32 max64)

/-- Settings as texts under names, such as the variables of an
environment. -/
abbrev Variables := String → Option String

/-- How often, and how patiently, a failed request is repeated. -/
structure RetryPolicy where
  maxRetries : Nat := 2
  initialBackoffMs : Nat := 200
  maxBackoffMs : Nat := 5000
  multiplier : Binary binary64 := .ofNat binary64 2
deriving DecidableEq, Repr

namespace RetryPolicy

/-- Repeats at once, at most so many times. -/
def immediate (maxRetries : Nat) : RetryPolicy :=
  ⟨maxRetries, 0, 0, .ofNat binary64 1⟩

/-- The greatest exponent of a growth factor. -/
def maxExponent : Nat := 0x7FFFFFFF

/-- The wait in front of repetition number `retry`, counted from one, in
milliseconds: the initial wait times a power of the multiplier, in double
precision, never more than the greatest wait. A product that is no
number counts as the greatest wait. -/
def backoff (p : RetryPolicy) (retry : Nat) : Nat :=
  let exponent := min (retry - 1) maxExponent
  let factor := (p.multiplier.max (.ofNat binary64 1)).pow exponent
  let wait := (Binary.ofNat binary64 p.initialBackoffMs).mul factor
  let capped := (wait.min (.ofNat binary64 p.maxBackoffMs)).max
    (.ofNat binary64 0)
  capped.toNatSaturating max64

/-- A floating point number as a JSON value; null stands for one that
JSON cannot write. -/
def realJson : Binary binary64 → Json
  | .finite x => .float x
  | _ => .null

/-- The record of a policy. -/
def toJson (p : RetryPolicy) : Json :=
  .object [("max_retries", .ofNat p.maxRetries),
    ("initial_backoff_ms", .ofNat p.initialBackoffMs),
    ("max_backoff_ms", .ofNat p.maxBackoffMs),
    ("multiplier", realJson p.multiplier)]

/-- Reads a policy; what is missing has its default. -/
def reader : Reader RetryPolicy := fun n => do
  let retries := Reader.whole max32
  let millis := Reader.whole max64
  let g ← Json.record [.of "max_retries" retries,
    .of "initial_backoff_ms" millis, .of "max_backoff_ms" millis,
    .of "multiplier" Reader.real] n
  let d : RetryPolicy := {}
  return ⟨← g.withDefault "max_retries" retries d.maxRetries,
    ← g.withDefault "initial_backoff_ms" millis d.initialBackoffMs,
    ← g.withDefault "max_backoff_ms" millis d.maxBackoffMs,
    ← g.withDefault "multiplier" Reader.real d.multiplier⟩

end RetryPolicy

/-- The settings of an agent. -/
structure Settings where
  maxIterations : Nat := 10
  retry : RetryPolicy := {}
  toolConcurrency : Nat := 4
  toolTimeoutMs : Option Nat := none
  maxContextTokens : Option Nat := none
  systemPrompt : Option String := none
deriving DecidableEq, Repr

/-- Why settings are refused. -/
inductive SettingsError where
  | noIterations
  | noConcurrency
  | badMultiplier
  | unreadable (key text : String)
  | noProvider
  | twoRegistries
  | noAgent
deriving DecidableEq, Repr

/-- The reason in words. -/
def SettingsError.reason : SettingsError → String
  | .noIterations => "max_iterations must be at least 1"
  | .noConcurrency => "tool_concurrency must be at least 1"
  | .badMultiplier => "retry.multiplier must be a finite number >= 1"
  | .unreadable key text => key ++ ": cannot parse '" ++ text ++ "'"
  | .noProvider => "Provider is required"
  | .twoRegistries => "use either a shared registry or individual tools, not both"
  | .noAgent => "no agent"

/-- Refused settings, as an error of the agent. -/
def SettingsError.toAgentError (e : SettingsError) : AgentError := .config e.reason

namespace Settings

/-- Settings the loop can run with. -/
def validate (c : Settings) : Except SettingsError Unit :=
  if c.maxIterations = 0 then .error .noIterations
  else if c.toolConcurrency = 0 then .error .noConcurrency
  else if !(c.retry.multiplier.isFinite
      && c.retry.multiplier.atLeast (.ofNat binary64 1)) then
    .error .badMultiplier
  else .ok ()

/-- The record of the settings. -/
def toJson (c : Settings) : Json :=
  .object [("max_iterations", .ofNat c.maxIterations),
    ("retry", c.retry.toJson),
    ("tool_concurrency", .ofNat c.toolConcurrency),
    ("tool_timeout_ms", .ofOption (c.toolTimeoutMs.map .ofNat)),
    ("max_context_tokens", .ofOption (c.maxContextTokens.map .ofNat)),
    ("system_prompt", .ofOption (c.systemPrompt.map .string))]

/-- Reads settings; what is missing has its default. -/
def reader : Reader Settings := fun n => do
  let size := Reader.whole max64
  let timeout := (Reader.whole max64).nullable
  let tokens := (Reader.whole max32).nullable
  let prompt := Reader.text.nullable
  let g ← Json.record [.of "max_iterations" size,
    .of "retry" RetryPolicy.reader, .of "tool_concurrency" size,
    .of "tool_timeout_ms" timeout, .of "max_context_tokens" tokens,
    .of "system_prompt" prompt] n
  let d : Settings := {}
  return ⟨← g.withDefault "max_iterations" size d.maxIterations,
    ← g.withDefault "retry" RetryPolicy.reader d.retry,
    ← g.withDefault "tool_concurrency" size d.toolConcurrency,
    ← g.withDefault "tool_timeout_ms" timeout none,
    ← g.withDefault "max_context_tokens" tokens none,
    ← g.withDefault "system_prompt" prompt none⟩

/-! ## Settings as texts -/

/-- The value of a setting, read with white space around it ignored. -/
def readSetting {α : Type} (vars : Variables) (read : String → Option α)
    (key : String) : Except SettingsError (Option α) :=
  match vars key with
  | none => .ok none
  | some raw =>
    match read (Text.trimBlank raw) with
    | some a => .ok (some a)
    | none => .error (.unreadable key raw)

/-- Settings given as texts, the others at their defaults. A blank system
prompt is none. -/
def ofVariables (vars : Variables) : Except SettingsError Settings := do
  let size := Number.readUnsigned? max64
  let count := Number.readUnsigned? max32
  let d : Settings := {}
  let maxIterations ← readSetting vars size "AGENT_MAX_ITERATIONS"
  let maxRetries ← readSetting vars count "AGENT_MAX_RETRIES"
  let initial ← readSetting vars size "AGENT_RETRY_BACKOFF_MS"
  let greatest ← readSetting vars size "AGENT_RETRY_MAX_BACKOFF_MS"
  let multiplier ← readSetting vars (Number.readBinary? binary64)
    "AGENT_RETRY_MULTIPLIER"
  let concurrency ← readSetting vars size "AGENT_TOOL_CONCURRENCY"
  let timeout ← readSetting vars size "AGENT_TOOL_TIMEOUT_MS"
  let tokens ← readSetting vars count "AGENT_MAX_CONTEXT_TOKENS"
  let c : Settings :=
    { maxIterations := maxIterations.getD d.maxIterations
      retry :=
        { maxRetries := maxRetries.getD d.retry.maxRetries
          initialBackoffMs := initial.getD d.retry.initialBackoffMs
          maxBackoffMs := greatest.getD d.retry.maxBackoffMs
          multiplier := multiplier.getD d.retry.multiplier }
      toolConcurrency := concurrency.getD d.toolConcurrency
      toolTimeoutMs := timeout
      maxContextTokens := tokens
      systemPrompt := (vars "AGENT_SYSTEM_PROMPT").filter
        fun s => !Text.isBlank s }
  c.validate
  return c

end Settings

end AgentLoop
