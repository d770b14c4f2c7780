import Mov8086.Numeral

/-!
A reader of listings. It takes a line apart at fixed places: an offset of at least four upper-case
hexadecimal digits, two blanks, a byte column of thirteen characters, and the text behind it.
-/

set_option autoImplicit false

namespace Mov8086

/-- What a line of a listing shows. -/
structure Row where
  offset : Nat
  bytes : List UInt8
  text : String
deriving DecidableEq, Repr

namespace Row

/-- The number of characters between the two blanks behind the offset and the text. -/
def columnWidth : Nat := 13

/-- Reads a byte column: two digits and a blank for each byte, and blanks alone behind the last. -/
def readColumn? : List Char → Option (List UInt8)
  | [] => some []
  | ' ' :: rest => if rest.all (· = ' ') then some [] else none
  | high :: low :: ' ' :: rest =>
    (Numeral.upperHex? [high, low]).bind fun value =>
      (readColumn? rest).map (UInt8.ofNat value :: ·)
  | _ => none

/-- Reads the column and the text behind the offset. -/
def readBehind? (offset : Nat) (behind : List Char) : Option Row :=
  if columnWidth ≤ behind.length then
    (readColumn? (behind.take columnWidth)).map fun bytes =>
      ⟨offset, bytes, String.ofList (behind.drop columnWidth)⟩
  else none

def ofLine? (line : String) : Option Row :=
  match line.toList.span (· ≠ ' ') with
  | (digits, ' ' :: ' ' :: behind) =>
    if 4 ≤ digits.length then
      (Numeral.upperHex? digits).bind fun offset => readBehind? offset behind
    else none
  | _ => none

end Row

end Mov8086
