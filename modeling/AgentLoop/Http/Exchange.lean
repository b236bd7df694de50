/-
AgentLoop.Http.Exchange — requests and responses over HTTP.

* `Request`, `Response`, `Fault` — what is sent and what comes of it
* `statusText` — a status with its registered reason
* `Line` — responses that are waiting to be given, and the requests that
  were sent
-/
import AgentLoop.Json.Basic

namespace AgentLoop.Http

/-- A request; its body is JSON if it has one. -/
structure Request where
  method : String
  url : String
  timeoutSecs : Nat
  body : Option Json
deriving Repr

/-- At which point a request fails. -/
inductive FaultKind where
  | connect
  | timeout
  | other
deriving DecidableEq, Repr

/-- A request that fails, and the reason in words. -/
structure Fault where
  kind : FaultKind
  text : String
deriving DecidableEq, Repr

/-- A response: its status, and its body unless reading it fails. -/
structure Response where
  status : Nat
  body : Except Fault String

/-- The registered reason of a status. -/
def reason? : Nat → Option String
  | 100 => some "Continue"
  | 101 => some "Switching Protocols"
  | 102 => some "Processing"
  | 103 => some "Early Hints"
  | 200 => some "OK"
  | 201 => some "Created"
  | 202 => some "Accepted"
  | 203 => some "Non Authoritative Information"
  | 204 => some "No Content"
  | 205 => some "Reset Content"
  | 206 => some "Partial Content"
  | 207 => some "Multi-Status"
  | 208 => some "Already Reported"
  | 226 => some "IM Used"
  | 300 => some "Multiple Choices"
  | 301 => some "Moved Permanently"
  | 302 => some "Found"
  | 303 => some "See Other"
  | 304 => some "Not Modified"
  | 305 => some "Use Proxy"
  | 307 => some "Temporary Redirect"
  | 308 => some "Permanent Redirect"
  | 400 => some "Bad Request"
  | 401 => some "Unauthorized"
  | 402 => some "Payment Required"
  | 403 => some "Forbidden"
  | 404 => some "Not Found"
  | 405 => some "Method Not Allowed"
  | 406 => some "Not Acceptable"
  | 407 => some "Proxy Authentication Required"
  | 408 => some "Request Timeout"
  | 409 => some "Conflict"
  | 410 => some "Gone"
  | 411 => some "Length Required"
  | 412 => some "Precondition Failed"
  | 413 => some "Payload Too Large"
  | 414 => some "URI Too Long"
  | 415 => some "Unsupported Media Type"
  | 416 => some "Range Not Satisfiable"
  | 417 => some "Expectation Failed"
  | 418 => some "I'm a teapot"
  | 421 => some "Misdirected Request"
  | 422 => some "Unprocessable Entity"
  | 423 => some "Locked"
  | 424 => some "Failed Dependency"
  | 425 => some "Too Early"
  | 426 => some "Upgrade Required"
  | 428 => some "Precondition Required"
  | 429 => some "Too Many Requests"
  | 431 => some "Request Header Fields Too Large"
  | 451 => some "Unavailable For Legal Reasons"
  | 500 => some "Internal Server Error"
  | 501 => some "Not Implemented"
  | 502 => some "Bad Gateway"
  | 503 => some "Service Unavailable"
  | 504 => some "Gateway Timeout"
  | 505 => some "HTTP Version Not Supported"
  | 506 => some "Variant Also Negotiates"
  | 507 => some "Insufficient Storage"
  | 508 => some "Loop Detected"
  | 510 => some "Not Extended"
  | 511 => some "Network Authentication Required"
  | _ => none

/-- A status with its reason. -/
def statusText (status : Nat) : String :=
  toString status ++ " " ++ (reason? status).getD "<unknown status code>"

/-- Whether a status tells of success. -/
def isSuccess (status : Nat) : Bool := 200 ≤ status && status ≤ 299

/-- Responses that are waiting to be given, and the requests sent so far,
last first. -/
structure Line where
  waiting : List (Except Fault Response) := []
  sent : List Request := []

/-- Sends a request. Without a response waiting, nobody answers. -/
def Line.send (l : Line) (r : Request) : Except Fault Response × Line :=
  match l.waiting with
  | [] => (.error ⟨.connect, "connection refused"⟩, { l with sent := r :: l.sent })
  | response :: rest => (response, ⟨rest, r :: l.sent⟩)

end AgentLoop.Http
