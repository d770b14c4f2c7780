import Mov8086.BitField
import Mov8086.DecodeError
import Mov8086.Width

/-!
Op codes: the first byte of an instruction and what it says about the rest.
-/

set_option autoImplicit false

namespace Mov8086

/-- The encodings of a move. -/
inductive Family where
  /-- Between a register and a register or memory: `1 0 0 0 1 0 d w`. -/
  | registerOrMemory
  /-- A constant to a register: `1 0 1 1 w reg`. -/
  | immediate
deriving DecidableEq, Repr

namespace Family

/-- Whether the op code field of `byte` is the one of the family. -/
def accepts (byte : UInt8) : Family → Bool
  | registerOrMemory => BitField.registerOrMemoryOpCode.extract byte = 0b10_0010
  | immediate => BitField.immediateOpCode.extract byte = 0b1011

/-- The family that an op code byte belongs to; the shorter op code is tried first. -/
def of? (byte : UInt8) : Option Family :=
  [immediate, registerOrMemory].find? (accepts byte)

def label : Family → String
  | registerOrMemory => "RegisterOrMemoryToRegister"
  | immediate => "ImmediateToRegister"

end Family

/-- What the first byte of an instruction says. -/
inductive OpCode where
  /-- A constant of the given width goes to the register with the given code. -/
  | immediate (width : Width) (reg : UInt8)
  /-- A register and a register or memory follow; the flag makes the register the destination. -/
  | registerOrMemory (toRegister : Bool) (width : Width)
deriving DecidableEq, Repr

namespace OpCode

def ofByte (byte : UInt8) : Except DecodeError OpCode :=
  match Family.of? byte with
  | some .immediate =>
    .ok (immediate (Width.ofFlag (BitField.immediateWidth.extract byte))
      (BitField.immediateRegister.extract byte))
  | some .registerOrMemory =>
    .ok (registerOrMemory (BitField.direction.extract byte = 1)
      (Width.ofFlag (BitField.width.extract byte)))
  | none => .error (.unrecognized byte)

def family : OpCode → Family
  | immediate .. => .immediate
  | registerOrMemory .. => .registerOrMemory

end OpCode

end Mov8086
