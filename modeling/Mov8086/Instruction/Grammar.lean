import Mov8086.Instruction

/-!
The grammar of assembly text, with what each text stands for.

    line    = "mov " operand ", " operand
    operand = register | numeral | "[" numeral "]" | "[" sum "]"
            | "[" sum " + " numeral "]" | "[" sum " - " numeral "]"

A numeral is decimal without a leading zero. It stands for a word, or, behind a sign, for the
magnitude of a displacement other than zero.
-/

set_option autoImplicit false

namespace Mov8086

/-- A text that the grammar has for an operand. -/
inductive Operand.Written : String → Operand → Prop where
  | register (r : Register) (width : Width) : Written (r.name width) (.register r width)
  | immediate {digits : String} {n : Nat} (numeral : Numeral.IsDecimal digits.toList n)
      (greatest : n ≤ 65535) : Written digits (.immediate (UInt16.ofNat n))
  | direct {digits : String} {n : Nat} (numeral : Numeral.IsDecimal digits.toList n)
      (greatest : n ≤ 65535) : Written ("[" ++ digits ++ "]") (.direct (UInt16.ofNat n))
  | sum (base : AddressBase) : Written ("[" ++ base.expression ++ "]") (.indirect base 0)
  | plus (base : AddressBase) {digits : String} {n : Nat}
      (numeral : Numeral.IsDecimal digits.toList n) (least : 1 ≤ n) (greatest : n ≤ 32767) :
      Written ("[" ++ base.expression ++ " + " ++ digits ++ "]") (.indirect base (Int16.ofInt n))
  | minus (base : AddressBase) {digits : String} {n : Nat}
      (numeral : Numeral.IsDecimal digits.toList n) (least : 1 ≤ n) (greatest : n ≤ 32768) :
      Written ("[" ++ base.expression ++ " - " ++ digits ++ "]") (.indirect base (Int16.ofInt (-n)))

/-- A line that the grammar has for a move. -/
inductive Instruction.Written : String → Instruction → Prop where
  | mov {destination source : String} {left right : Operand} (first : left.Written destination)
      (second : right.Written source) :
      Written ("mov " ++ destination ++ ", " ++ source) ⟨left, right⟩

end Mov8086
