import Mov8086.Instruction

/-!
A reader of assembly text. It accepts the lines that moves are written as and nothing else: names
of registers, decimal numerals without leading zeros, and memory operands in brackets whose
displacement, if it has one, is a sign and a magnitude other than zero.
-/

set_option autoImplicit false

namespace Mov8086

namespace Operand

/-- The number that a decimal numeral stands for, if it lies between the bounds. -/
def boundedDecimal? (least greatest : Nat) (text : List Char) : Option Nat :=
  (Numeral.decimal? text).filter fun n => least ≤ n ∧ n ≤ greatest

def readDisplacement? : List Char → Option Int16
  | [] => some 0
  | ' ' :: '+' :: ' ' :: digits => (boundedDecimal? 1 32767 digits).map fun (n : Nat) => Int16.ofInt n
  | ' ' :: '-' :: ' ' :: digits =>
    (boundedDecimal? 1 32768 digits).map fun (n : Nat) => Int16.ofInt (-n)
  | _ => none

/-- Reads a sum of registers and a displacement behind it. -/
def readIndirect? (text : List Char) : Option Operand :=
  AddressBase.all.findSome? fun base =>
    (base.expression.toList.isPrefixOf? text).bind fun rest =>
      (readDisplacement? rest).map (indirect base)

/-- Reads what stands between the brackets of a memory operand. -/
def readMemory? (text : List Char) : Option Operand :=
  match boundedDecimal? 0 65535 text with
  | some address => some (direct (UInt16.ofNat address))
  | none => readIndirect? text

def readRegister? (text : List Char) : Option Operand :=
  [Width.byte, Width.word].findSome? fun width =>
    (Register.all.find? fun r => (r.name width).toList = text).map fun r => register r width

def read? : List Char → Option Operand
  | '[' :: text => if text.getLast? = some ']' then readMemory? text.dropLast else none
  | text =>
    match readRegister? text with
    | some operand => some operand
    | none => (boundedDecimal? 0 65535 text).map fun value => immediate (UInt16.ofNat value)

end Operand

namespace Instruction

/-- Reads the operands of a move, which a comma and a blank keep apart. -/
def readOperands? (text : List Char) : Option Instruction :=
  match text.span (· ≠ ',') with
  | (destination, ',' :: ' ' :: source) =>
    (Operand.read? destination).bind fun destination =>
      (Operand.read? source).map fun source => ⟨destination, source⟩
  | _ => none

def ofText? (text : String) : Option Instruction :=
  ((mnemonic ++ " ").toList.isPrefixOf? text.toList).bind readOperands?

end Instruction

end Mov8086
