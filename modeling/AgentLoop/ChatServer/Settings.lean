/-
AgentLoop.ChatServer.Settings — where a model server is, and what it is
asked for.

* `ServerSettings` — address, model, temperature and time limit
* `ServerSettings.ofVariables` — settings given as texts; one that cannot
  be read has its default
-/
import AgentLoop.Settings

namespace AgentLoop

open Number (Binary binary32 binary64)

/-- Where a model server is, and what it is asked for. Without a
temperature the server uses its own. -/
structure ServerSettings where
  host : String := "http://localhost"
  port : Nat := 11434
  model : String := "llama3.2"
  temperature : Option (Binary binary32) := none
  timeoutSecs : Nat := 120
deriving Repr

namespace ServerSettings

/-- The greatest number of a port. -/
def maxPort : Nat := 0xFFFF

/-- Settings given as texts, the others at their defaults. -/
def ofVariables (vars : Variables) : ServerSettings :=
  let d : ServerSettings := {}
  let read {α : Type} (key : String) (f : String → Option α) : Option α :=
    (vars key).bind fun raw => f (Text.trimBlank raw)
  { host := (vars "OLLAMA_HOST").getD d.host
    port := (read "OLLAMA_PORT" (Number.readUnsigned? maxPort)).getD d.port
    model := (vars "OLLAMA_MODEL").getD d.model
    temperature := read "OLLAMA_TEMPERATURE" (Number.readBinary? binary32)
    timeoutSecs := (read "OLLAMA_TIMEOUT_SECS"
      (Number.readUnsigned? Number.max64)).getD d.timeoutSecs }

/-- The address without a path. -/
def baseUrl (s : ServerSettings) : String :=
  String.ofList (s.host.toList.reverse.dropWhile (· = '/')).reverse
    ++ ":" ++ toString s.port

/-- The same number in double precision. -/
def widen : Binary binary32 → Binary binary64
  | .finite x => .ofUnits binary64 x.negative
      (x.units * Nat.pow 2 (binary64.unitExponent - binary32.unitExponent)) 1
  | .infinite negative => .infinite negative
  | .nan => .nan

/-- A temperature in words: the fewest digits that read back, never with
an exponent. -/
def temperatureText : Binary binary32 → String
  | .finite x => String.ofList
      (Number.signed x.negative ((x.shortest .up).positional []))
  | .infinite negative => String.ofList (Number.signed negative "inf".toList)
  | .nan => "NaN"

end ServerSettings

end AgentLoop
