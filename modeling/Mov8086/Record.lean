import Mov8086.Instruction
import Mov8086.ModRm
import Mov8086.OpCode

/-!
Records: the fields of one instruction as its bytes hold them, and the move that they stand for.
-/

set_option autoImplicit false

namespace Mov8086

/-- What an instruction holds besides its width and its register code. -/
inductive Form where
  /-- A register or memory operand; the flag makes the register code name the destination. The
  displacement is present when bytes of it follow the mode, and is the address of a bare address. -/
  | registerOrMemory (toRegister : Bool) (modRm : ModRm) (displacement : Option Int16)
  | immediate (value : UInt16)
deriving DecidableEq, Repr

structure Record where
  width : Width
  reg : UInt8
  form : Form
deriving DecidableEq, Repr

namespace Record

def family (r : Record) : Family :=
  match r.form with
  | .registerOrMemory .. => .registerOrMemory
  | .immediate _ => .immediate

/-- The register with the given code at the width of the record. -/
def registerOperand (r : Record) (code : UInt8) : Except Fault Operand :=
  (Register.ofCode code).map fun register => .register register r.width

def registerOrMemoryOperand (r : Record) (modRm : ModRm) (displacement : Option Int16) :
    Except Fault Operand :=
  match modRm.mode with
  | .register => r.registerOperand modRm.rm
  | _ =>
    if modRm.isDirect then .ok (.direct (displacement.getD 0).toUInt16)
    else (AddressBase.ofCode modRm.rm).map fun base => .indirect base (displacement.getD 0)

/-- The move that the record stands for; its register code is looked up first. -/
def instruction (r : Record) : Except Fault Instruction := do
  let register ← r.registerOperand r.reg
  match r.form with
  | .immediate value => return ⟨register, .immediate value⟩
  | .registerOrMemory toRegister modRm displacement =>
    let operand ← r.registerOrMemoryOperand modRm displacement
    return if toRegister then ⟨register, operand⟩ else ⟨operand, register⟩

end Record

end Mov8086
