import DualInit.Il.Machine

/-!
# Running code step by step

A token operand is read back from the bytes it is written as (`operandOf_token`).  A machine takes
one step after the other: `runFor_of_running` unrolls a run by one step, so a run of known code is
a chain of these.
-/

namespace DualInit

/-! ## Reading -/

namespace Decoded

/-- A token is read back from its four bytes. -/
theorem operandOf_token (token : Token) :
    operandOf .token (Words.encode 4 token.value.toNat) = .token token := by
  have hfits : token.value.toNat < Words.limit 4 := token.value.toNat_lt
  rw [operandOf, Words.decode_encode hfits, UInt32.ofNat_toNat]

end Decoded

/-! ## Running -/

namespace Machine

variable {known : Surroundings} {code : List UInt8} {m next : Machine} {d : Decoded}
  {count : Nat}

theorem step_of_fetch (h : Decoded.fetch code m.offset = some d) :
    m.step known code = m.perform known d := by
  rw [step, h]
  rfl

theorem runFor_of_running (h : m.step known code = some (.running next)) :
    runFor known code (count + 1) m = runFor known code count next := by
  rw [runFor, h]

end Machine
end DualInit
