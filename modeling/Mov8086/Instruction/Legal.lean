import Mov8086.Instruction

/-!
The moves that the processor has. At least one operand is a register; what goes to it or comes from
it is memory or a register of the same width, and what goes to it can also be a constant that fits.
-/

set_option autoImplicit false

namespace Mov8086

/-- An operand in memory, at a fixed address or at a sum of registers. -/
inductive Operand.IsMemory : Operand → Prop where
  | direct (address : UInt16) : IsMemory (.direct address)
  | indirect (base : AddressBase) (displacement : Int16) : IsMemory (.indirect base displacement)

/-- A move that the processor has. -/
inductive Instruction.Legal : Instruction → Prop where
  | constant (register : Register) {width : Width} {value : UInt16}
      (fits : width = .byte → value < 256) :
      Legal ⟨.register register width, .immediate value⟩
  | copy (destination source : Register) (width : Width) :
      Legal ⟨.register destination width, .register source width⟩
  | load (register : Register) (width : Width) {memory : Operand} (isMemory : memory.IsMemory) :
      Legal ⟨.register register width, memory⟩
  | store (register : Register) (width : Width) {memory : Operand} (isMemory : memory.IsMemory) :
      Legal ⟨memory, .register register width⟩

end Mov8086
