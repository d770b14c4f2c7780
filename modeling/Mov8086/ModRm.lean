import Mov8086.AddressBase
import Mov8086.BitField

/-!
The second byte of a move between a register and a register or memory, without its register field.
-/

set_option autoImplicit false

namespace Mov8086

/-- What the register or memory code of an instruction stands for. -/
inductive Mode where
  /-- Memory without a displacement, a bare address apart. -/
  | memory
  | memoryByte
  | memoryWord
  | register
deriving DecidableEq, Repr

namespace Mode

/-- The mode with the given code; codes above three name none. -/
def ofCode (code : UInt8) : Except Fault Mode :=
  match code.toNat with
  | 0 => .ok memory
  | 1 => .ok memoryByte
  | 2 => .ok memoryWord
  | 3 => .ok register
  | _ => .error (.modeCode code)

def code : Mode → UInt8
  | memory => 0
  | memoryByte => 1
  | memoryWord => 2
  | register => 3

def label : Mode → String
  | memory => "Memory"
  | memoryByte => "MemoryByteDisplacement"
  | memoryWord => "MemoryWordDisplacement"
  | register => "Register"

theorem ofCode_code (m : Mode) : ofCode m.code = .ok m := by
  cases m <;> rfl

theorem ofCode_eq_ok_iff {code : UInt8} {m : Mode} : ofCode code = .ok m ↔ code = m.code := by
  constructor
  · intro h
    apply UInt8.toNat_inj.mp
    unfold ofCode at h
    split at h <;> cases h <;> simp [*, Mode.code]
  · rintro rfl
    exact ofCode_code m

end Mode

/-- The mode of an instruction with the register or memory code that it applies to. -/
structure ModRm where
  mode : Mode
  rm : UInt8
deriving DecidableEq, Repr

namespace ModRm

def ofByte (byte : UInt8) : Except Fault ModRm :=
  (Mode.ofCode (BitField.mode.extract byte)).map fun mode =>
    ⟨mode, BitField.registerOrMemory.extract byte⟩

/-- Whether the operand is a bare address. -/
def isDirect (m : ModRm) : Bool :=
  m.mode = .memory && m.rm = AddressBase.directCode

def displacementSize (m : ModRm) : Nat :=
  match m.mode with
  | .memory => if m.isDirect then 2 else 0
  | .memoryByte => 1
  | .memoryWord => 2
  | .register => 0

end ModRm

end Mov8086
