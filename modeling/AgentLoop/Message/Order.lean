/-
AgentLoop.Message.Order — equality and order of messages.

* `Message.same` — equality, payloads compared as values
* `Message.cmp` — the order: by kind, then field by field
* `Message.partialCmp`, `a ≤ b` — the order for callers that allow for
  messages that do not compare
-/
import AgentLoop.Message.Basic

namespace AgentLoop.Message

/-- Equality of messages. -/
def same : Message → Message → Bool
  | .userText a, .userText b => a == b
  | .assistantText a, .assistantText b => a == b
  | .toolCall i s a, .toolCall j t b => i == j && s == t && a.same b
  | .toolResult i s a, .toolResult j t b => i == j && s == t && a.same b
  | .systemText a, .systemText b => a == b
  | _, _ => false

instance : BEq Message := ⟨same⟩

/-- The place of a kind of message in the order. -/
def rank : Message → Nat
  | .userText _ => 0
  | .assistantText _ => 1
  | .toolCall .. => 2
  | .toolResult .. => 3
  | .systemText _ => 4

/-- The place of a status in the order. -/
def statusRank : ToolStatus → Nat
  | .ok => 0
  | .error => 1

/-- The order of messages. -/
def cmp : Message → Message → Ordering
  | .userText a, .userText b => compare a.text b.text
  | .assistantText a, .assistantText b => compare a.text b.text
  | .systemText a, .systemText b => compare a.text b.text
  | .toolCall i s a, .toolCall j t b =>
    (compare i.text j.text).then ((compare s.text t.text).then (a.cmp b))
  | .toolResult i s a, .toolResult j t b =>
    (compare i.text j.text).then
      ((compare (statusRank s) (statusRank t)).then (a.cmp b))
  | a, b => compare a.rank b.rank

/-- The order, if two messages compare; all do. -/
def partialCmp (a b : Message) : Option Ordering := some (a.cmp b)

/-- A message stands in front of another or beside it. -/
instance : LE Message := ⟨fun a b => (partialCmp a b).any Ordering.isLE⟩

end AgentLoop.Message
