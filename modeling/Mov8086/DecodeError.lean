import Mov8086.Fault
import Mov8086.Numeral

/-!
Why a decode cycle ends without an instruction.
-/

set_option autoImplicit false

namespace Mov8086

/-- Why a decode cycle ends without an instruction. -/
inductive DecodeError where
  /-- There was no first byte. -/
  | endOfInput
  /-- The bytes stopped behind the first byte of an instruction. -/
  | truncated
  /-- The first byte is no op code of a move. -/
  | unrecognized (opCode : UInt8)
  | fault (cause : Fault)
deriving DecidableEq, Repr

namespace DecodeError

def message : DecodeError → String
  | endOfInput => "End of input"
  | truncated => "Unexpected end of stream in the middle of an instruction"
  | unrecognized opCode => "Unrecognized op code (0x" ++ Numeral.hex 2 opCode.toNat ++ ")"
  | fault cause => cause.message

end DecodeError

instance {α : Type} [DecidableEq α] : DecidableEq (Except DecodeError α)
  | .ok a, .ok b => decidable_of_iff (a = b) (by simp)
  | .error a, .error b => decidable_of_iff (a = b) (by simp)
  | .ok _, .error _ => isFalse (by simp)
  | .error _, .ok _ => isFalse (by simp)

end Mov8086
