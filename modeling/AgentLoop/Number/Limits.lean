/-
AgentLoop.Number.Limits — the greatest counts of 32 and of 64 bits.

* `addUpTo` — addition that stays at a greatest count; sums of counts do
  not depend on their grouping (`addUpTo_assoc`)
-/

namespace AgentLoop.Number

/-- The greatest count of 32 bits. -/
def max32 : Nat := 0xFFFFFFFF

/-- The greatest count of 64 bits. -/
def max64 : Nat := 0xFFFFFFFFFFFFFFFF

/-- Addition that stays at a greatest count. -/
def addUpTo (top a b : Nat) : Nat := min (a + b) top

theorem addUpTo_le (top a b : Nat) : addUpTo top a b ≤ top :=
  Nat.min_le_right _ _

theorem addUpTo_assoc (top a b c : Nat) :
    addUpTo top (addUpTo top a b) c = addUpTo top a (addUpTo top b c) := by
  simp only [addUpTo]
  omega

end AgentLoop.Number
