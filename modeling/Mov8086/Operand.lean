import Mov8086.AddressBase
import Mov8086.Numeral
import Mov8086.Register

/-!
Operands of a move and their assembly text.
-/

set_option autoImplicit false

namespace Mov8086

inductive Operand where
  /-- The memory at a fixed address. -/
  | direct (address : UInt16)
  /-- The memory at a sum of registers, moved by a displacement. -/
  | indirect (base : AddressBase) (displacement : Int16)
  | register (register : Register) (width : Width)
  | immediate (value : UInt16)
deriving DecidableEq, Repr

namespace Operand

/-- The term that a displacement adds to an address: sign and magnitude, and nothing for zero. -/
def displacementText (displacement : Int16) : String :=
  if displacement.toInt = 0 then ""
  else if displacement.toInt < 0 then " - " ++ Numeral.decimal displacement.toInt.natAbs
  else " + " ++ Numeral.decimal displacement.toInt.natAbs

def text : Operand → String
  | direct address => "[" ++ Numeral.decimal address.toNat ++ "]"
  | indirect base displacement => "[" ++ base.expression ++ displacementText displacement ++ "]"
  | register r width => r.name width
  | immediate value => Numeral.decimal value.toNat

end Operand

end Mov8086
