/-
AgentLoop.ChatServer.Service — a model server as a backend.

* `ChatServer.failureOfStatus`, `ChatServer.failureOfText`,
  `ChatServer.failureOfFault` — what a failed request means
* `ChatServer.interpret` — what a response of the server means
* `ChatServer.complete`, `ChatServer.listModels`, `ChatServer.health` —
  the requests to a server
-/
import AgentLoop.ChatServer.Wire
import AgentLoop.Http.Exchange
import AgentLoop.Message.FreshId

namespace AgentLoop.ChatServer

/-- What a server is reached through: a way to send requests, and a
source of fresh identifiers. -/
structure Link (σ : Type) where
  send : Http.Request → σ → Except Http.Fault Http.Response × σ
  freshId : σ → CallId × σ

/-! ## Failures -/

/-- Whether a row of characters begins with another. -/
def beginsWith : List Char → List Char → Bool
  | _, [] => true
  | c :: cs, d :: ds => c == d && beginsWith cs ds
  | [], _ :: _ => false

/-- Whether a row of characters holds another. -/
def holds (word : List Char) : List Char → Bool
  | [] => word.isEmpty
  | c :: cs => beginsWith (c :: cs) word || holds word cs

/-- Whether a text holds a word, given in small letters; capital letters
count as small ones. -/
def mentions (text word : String) : Bool :=
  holds word.toList (text.toList.map Char.toLower)

/-- The kind of failure that the server's words tell of. -/
def kindOfText (text : String) : ProviderErrorKind :=
  if mentions text "context length" || mentions text "context window" then
    .contextLengthExceeded
  else if mentions text "not found" && mentions text "model" then
    .modelNotSupported
  else .execution

/-- A failure that the server reports in words. -/
def failureOfText (text : String) : ProviderError :=
  .ofKind (kindOfText text) ("ollama: " ++ text)

/-- What a body says about an error: the text under `error`, or the body
itself. -/
def errorDetail (body : String) : String :=
  match (Json.parse? body).bind fun v => (v.field? "error").bind Json.string? with
  | some s => s
  | none => Text.trimBlank body

/-- A failure that the server reports by a status. -/
def failureOfStatus (status : Nat) (body : String) : ProviderError :=
  let detail := errorDetail body
  let message := "ollama returned " ++ Http.statusText status ++ ": " ++ detail
  if status = 401 || status = 403 then .ofKind .authentication message
  else if status = 404 then .ofKind .modelNotSupported message
  else if status = 408 || (500 ≤ status && status ≤ 599) then
    .unavailable message
  else if status = 413 then .ofKind .contextLengthExceeded message
  else if status = 429 then .rateLimited message
  else match kindOfText detail with
    | .execution =>
      { ProviderError.ofKind .requestFailed message with retryable := false }
    | kind => .ofKind kind message

/-- A request that does not get through. -/
def failureOfFault (f : Http.Fault) : ProviderError :=
  match f.kind with
  | .connect | .timeout => .unavailable ("ollama unreachable: " ++ f.text)
  | .other => .ofKind .requestFailed ("ollama request failed: " ++ f.text)

/-! ## Replies -/

/-- Arguments that a model wrote as a string of JSON are read. -/
def readArguments : Json → Json
  | .string raw => (Json.parse? raw).getD (.string raw)
  | v => v

/-- The calls of a reply, each under a fresh identifier. -/
def requests {σ : Type} (freshId : σ → CallId × σ) :
    List WireCall → σ → List ToolCallRequest × σ
  | [], world => ([], world)
  | call :: rest, world =>
    let (id, world) := freshId world
    let (calls, world) := requests freshId rest world
    (⟨id, call.name, readArguments call.arguments⟩ :: calls, world)

/-- The usage of a reply; a count that is missing is zero. -/
def usage? (r : ChatResponse) : Option TokenUsage :=
  match r.promptCount, r.completionCount with
  | none, none => none
  | prompt, completion => some (.ofCounts (prompt.getD 0) (completion.getD 0))

/-- What a response of the server means. -/
def interpret {σ : Type} (freshId : σ → CallId × σ) (r : ChatResponse)
    (world : σ) : ProviderResult × σ :=
  match r.error, r.message with
  | some text, _ => (.error (failureOfText text), world)
  | none, none => (.error (.malformed "ollama response has no message"), world)
  | none, some m =>
    if m.toolCalls.isEmpty then
      if Text.isBlank m.content then
        (.error (.malformed "model returned neither text nor tool calls"), world)
      else (.ok (.finalAnswer m.content (usage? r)), world)
    else
      let (calls, world) := requests freshId m.toolCalls world
      (.ok (.toolCallBatch calls false (usage? r)), world)

/-! ## Requests -/

/-- The text that stands for the complaint of a JSON reader. -/
def complaint : String := "<json>"

/-- The body of a successful response. -/
def fetch {σ : Type} (link : Link σ) (request : Http.Request) (world : σ) :
    Except ProviderError String × σ :=
  match link.send request world with
  | (.error fault, world) => (.error (failureOfFault fault), world)
  | (.ok response, world) =>
    match response.body with
    | .error fault => (.error (failureOfFault fault), world)
    | .ok body =>
      if Http.isSuccess response.status then (.ok body, world)
      else (.error (failureOfStatus response.status body), world)

/-- Asks a server to go on with a conversation. -/
def complete {σ : Type} (link : Link σ) (s : ServerSettings)
    (history : List Message) (tools : List ToolSpec) (world : σ) :
    ProviderResult × σ :=
  let request : Http.Request :=
    { method := "POST", url := s.baseUrl ++ "/api/chat",
      timeoutSecs := s.timeoutSecs,
      body := some (ChatRequest.body s history tools) }
  match fetch link request world with
  | (.error e, world) => (.error e, world)
  | (.ok body, world) =>
    match Json.decode ChatResponse.reader body with
    | .error _ =>
      (.error (.malformed ("cannot parse ollama response: " ++ complaint)), world)
    | .ok response => interpret link.freshId response world

/-- Asks a server for the names of its models. -/
def listModels {σ : Type} (link : Link σ) (s : ServerSettings) (world : σ) :
    Except ProviderError (List String) × σ :=
  let request : Http.Request :=
    { method := "GET", url := s.baseUrl ++ "/api/tags", timeoutSecs := 5,
      body := none }
  match fetch link request world with
  | (.error e, world) => (.error e, world)
  | (.ok body, world) =>
    match Json.decode modelsReader body with
    | .error _ =>
      (.error (.malformed ("cannot parse ollama model list: " ++ complaint)), world)
    | .ok names => (.ok names, world)

/-- Whether a server has a model whose name begins as the settings say. -/
def health {σ : Type} (link : Link σ) (s : ServerSettings) (world : σ) :
    Bool × σ :=
  match listModels link s world with
  | (.error _, world) => (false, world)
  | (.ok names, world) =>
    (names.any fun name => beginsWith name.toList s.model.toList, world)

end AgentLoop.ChatServer
