/-!
The width of an operand, as the `w` flag of an op code selects it.
-/

set_option autoImplicit false

namespace Mov8086

/-- The width of an operand: one byte or a word of two. -/
inductive Width where
  | byte
  | word
deriving DecidableEq, Repr

namespace Width

/-- The width that the lowest bit of `flag` selects. -/
def ofFlag (flag : UInt8) : Width :=
  if flag &&& 1 = 0 then byte else word

def flag : Width → UInt8
  | byte => 0
  | word => 1

/-- The number of bytes that an operand of this width takes up. -/
def bytes : Width → Nat
  | byte => 1
  | word => 2

def label : Width → String
  | byte => "Byte"
  | word => "Word"

end Width

end Mov8086
