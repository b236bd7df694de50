/-
AgentLoop.Session.Context — the part of a history that is shown to a
backend.

* `estimateTokens` — the rough number of tokens of a history
* `cutAt` — a history from a position on, with all its system texts
* `fitToBudget` — a history without its oldest turns, as many as the
  budget asks for
-/
import AgentLoop.Message.Basic

namespace AgentLoop.Context

/-- The rough number of tokens of a history, counted in 32 bits. -/
def estimateTokens (history : List Message) : Nat :=
  history.foldr (fun m tokens => m.estimateTokens + tokens) 0
    % (Number.max32 + 1)

/-- The positions of the user's messages, where the turns begin; the
first message stands at `start`. -/
def turnStarts (start : Nat) : List Message → List Nat
  | [] => []
  | m :: rest =>
    if m.isUserText then start :: turnStarts (start + 1) rest
    else turnStarts (start + 1) rest

/-- The messages from a position on, and the system texts before it. -/
def cutAt (cut : Nat) (history : List Message) : List Message :=
  (history.take cut).filter Message.isSystemText ++ history.drop cut

/-- The first cut that fits a budget, or the last one if none does. -/
def firstFit (budget : Nat) (history : List Message) :
    List Nat → List Message → List Message
  | [], kept => kept
  | cut :: rest, _ =>
    let candidate := cutAt cut history
    if estimateTokens candidate ≤ budget then candidate
    else firstFit budget history rest candidate

/-- A history without its oldest turns, as few as the budget allows. The
system texts and the latest turn always stay, and no call is parted from
its result. -/
def fitToBudget (budget : Nat) (history : List Message) : List Message :=
  if estimateTokens history ≤ budget then history
  else firstFit budget history ((turnStarts 0 history).drop 1) history

end AgentLoop.Context
