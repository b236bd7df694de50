/-
AgentLoop.Proofs.Message.FreshId — identifiers of different numbers differ.

* `CallId.digitValue`, `CallId.hexValue` — the number that digits spell
* `CallId.hexValue_hexDigits` — the zeros in front do not count
* `CallId.numbered_injective`
-/
import AgentLoop.Message.FreshId

namespace AgentLoop.CallId

/-- The value of a hexadecimal digit. -/
def digitValue (c : Char) : Nat := ((List.range 16).find? fun d => Nat.digitChar d = c).getD 0

/-- The number that hexadecimal digits spell, with those in front given. -/
def hexValue (front : Nat) (ds : List Char) : Nat :=
  ds.foldl (fun n c => 16 * n + digitValue c) front

theorem digitValue_digitChar {d : Nat} (h : d < 16) : digitValue d.digitChar = d := by
  decide +revert

theorem hexValue_toDigits (n : Nat) : hexValue 0 (Nat.toDigits 16 n) = n := by
  induction n using Nat.strongRecOn with
  | ind n ih =>
    rw [Nat.toDigits_eq_if (by decide)]
    split
    · rename_i hsmall
      simp [hexValue, digitValue_digitChar hsmall]
    · rename_i hlarge
      have hfront := ih (n / 16) (by omega)
      have hlast := digitValue_digitChar (Nat.mod_lt n (by decide : 16 > 0))
      rw [hexValue] at hfront ⊢
      rw [List.foldl_append, hfront, List.foldl_cons, List.foldl_nil, hlast]
      omega

theorem hexValue_zeros (width : Nat) (ds : List Char) :
    hexValue 0 (List.replicate width '0' ++ ds) = hexValue 0 ds := by
  induction width with
  | zero => rfl
  | succ width ih =>
    rw [List.replicate_succ, List.cons_append, ← ih]
    rfl

/-- The zeros in front of a number do not count. -/
theorem hexValue_hexDigits (width n : Nat) : hexValue 0 (hexDigits width n) = n := by
  rw [hexDigits, hexValue_zeros, hexValue_toDigits]

theorem numbered_injective {n m : Nat} (h : numbered n = numbered m) : n = m := by
  have htext := congrArg (fun id => id.text.toList.drop 5) h
  have hdigits : hexDigits 32 n = hexDigits 32 m := by
    simpa [numbered, numberedText] using htext
  calc n = hexValue 0 (hexDigits 32 n) := (hexValue_hexDigits 32 n).symm
    _ = hexValue 0 (hexDigits 32 m) := by rw [hdigits]
    _ = m := hexValue_hexDigits 32 m

end AgentLoop.CallId
