import Mov8086.Decoder

/-!
Listings. Each entry of a disassembly is a line of assembly, a move or a data byte. A listing puts
the offset and the bytes of the entry in front of it, in a column of fixed width. The lines of moves
and of data bytes are laid out each on its own.
-/

set_option autoImplicit false

namespace Mov8086

inductive Entry where
  | instruction (item : Item)
  /-- A byte that begins no instruction. -/
  | data (offset : Nat) (byte : UInt8)
deriving DecidableEq, Repr

namespace Entry

def offset : Entry → Nat
  | instruction item => item.offset
  | data offset _ => offset

def bytes : Entry → List UInt8
  | instruction item => item.bytes
  | data _ byte => [byte]

/-- The number of bytes that the byte column has room for; no instruction is longer. -/
def columnBytes : Nat := 4

/-- The bytes as two digits and a blank each, with blanks in the room that is left. -/
def byteColumn (bytes : List UInt8) : String :=
  String.ofList <|
    ((bytes.take columnBytes).flatMap fun byte => Numeral.upperHexDigits 2 byte.toNat ++ [' ']) ++
      List.replicate (3 * (columnBytes - bytes.length)) ' '

/-- The line for a move. In a listing its offset and its bytes stand in front of it. -/
def instructionLine (listing : Bool) (item : Item) : String :=
  if listing then
    Numeral.upperHex 4 item.offset ++ "  " ++ byteColumn item.bytes ++ " " ++ item.instruction.text
  else item.instruction.text

/-- The line for a data byte. In a listing the blanks behind the byte fill up its column. -/
def dataLine (listing : Bool) (offset : Nat) (byte : UInt8) : String :=
  if listing then
    Numeral.upperHex 4 offset ++ "  " ++ Numeral.upperHex 2 byte.toNat ++ "           db 0x" ++
      Numeral.hex 2 byte.toNat
  else "db 0x" ++ Numeral.hex 2 byte.toNat

def line (listing : Bool) : Entry → String
  | instruction item => instructionLine listing item
  | data offset byte => dataLine listing offset byte

end Entry

end Mov8086
