import Mov8086.Operand

/-!
Moves, and the line of assembly that a move is written as.
-/

set_option autoImplicit false

namespace Mov8086

/-- The mnemonic and the operands of one line of assembly, each as text. -/
structure AssemblyLine where
  mnemonic : String
  destination : String
  source : String
deriving DecidableEq, Repr

namespace AssemblyLine

/-- The mnemonic, a blank, and the operands with a comma between them. -/
def text (line : AssemblyLine) : String :=
  line.mnemonic ++ " " ++ line.destination ++ ", " ++ line.source

end AssemblyLine

structure Instruction where
  destination : Operand
  source : Operand
deriving DecidableEq, Repr

namespace Instruction

def mnemonic : String := "mov"

/-- The parts of the line that the move is written as. -/
def line (i : Instruction) : AssemblyLine where
  mnemonic := mnemonic
  destination := i.destination.text
  source := i.source.text

def text (i : Instruction) : String :=
  i.line.text

end Instruction

end Mov8086
