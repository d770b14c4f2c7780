import Mov8086.Instruction.Reader
import Mov8086.Record
import Mov8086.TextReader

/-!
A reader of logs and of the messages of errors. It takes a line of a log apart into the fields that
it shows: numbers, the names of widths, families and modes, and the text of a move.
-/

set_option autoImplicit false

namespace Mov8086

/-- What a line of a log shows. -/
inductive LogLine where
  | loaded (size : Nat) (path : String)
  | skipped (byte : UInt8) (offset : Nat)
  | classified (byte : UInt8) (opCode : OpCode)
  | decoded (record : Record) (family : Family) (text : String)
  | failed (error : DecodeError)
deriving DecidableEq, Repr

namespace LogLine

open TextReader

/-! ### Fields -/

/-- Reads one of the names of a table. -/
def named? {α : Type} (table : List (String × α)) (field : List Char) : Option α :=
  table.lookup (String.ofList field)

def flag? : List Char → Option Bool :=
  named? [("true", true), ("false", false)]

def width? : List Char → Option Width :=
  named? [("Byte", .byte), ("Word", .word)]

def family? : List Char → Option Family :=
  named? [("RegisterOrMemoryToRegister", .registerOrMemory), ("ImmediateToRegister", .immediate)]

def mode? : List Char → Option Mode :=
  named? [("Memory", .memory), ("MemoryByteDisplacement", .memoryByte),
    ("MemoryWordDisplacement", .memoryWord), ("Register", .register)]

def byte? (field : List Char) : Option UInt8 :=
  (Operand.boundedDecimal? 0 255 field).map UInt8.ofNat

def word? (field : List Char) : Option UInt16 :=
  (Operand.boundedDecimal? 0 65535 field).map UInt16.ofNat

def displacement? : List Char → Option Int16
  | '-' :: digits => (Operand.boundedDecimal? 1 32768 digits).map fun (n : Nat) => Int16.ofInt (-n)
  | digits => (Operand.boundedDecimal? 0 32767 digits).map fun (n : Nat) => Int16.ofInt n

/-- Reads two hexadecimal digits. -/
def hexByte? (field : List Char) : Option UInt8 :=
  if field.length = 2 then (Numeral.hex? field).map UInt8.ofNat else none

/-- Reads four hexadecimal digits or more. -/
def offset? (field : List Char) : Option Nat :=
  if 4 ≤ field.length then Numeral.hex? field else none

/-- Reads what stands in front of a closing quote. -/
def quoted? (field : List Char) : Option String :=
  ("\"".toList.isSuffixOf? field).map String.ofList

/-! ### Messages -/

def opCode : TextReader OpCode :=
  choose
    [("ImmediateToRegister \x7b operand_size: ", do
        let width ← upTo ", reg: " width?
        return .immediate width (← upTo " \x7d" byte?)),
      ("RegisterOrMemoryToRegister \x7b reg_is_destination: ", do
        let toRegister ← upTo ", operand_size: " flag?
        return .registerOrMemory toRegister (← upTo " \x7d" width?))]

def modRm : TextReader ModRm := do
  exactly "ModRm \x7b mode: "
  let mode ← upTo ", rm: " mode?
  return ⟨mode, ← upTo " \x7d" byte?⟩

def displacement : TextReader (Option Int16) :=
  choose [("None", return none), ("Some(", return some (← upTo ")" displacement?))]

def form : TextReader Form :=
  choose
    [("RegisterOrMemory \x7b direction: ", do
        let toRegister ← upTo ", mod_rm: " flag?
        let modRm ← modRm
        exactly ", displacement: "
        let displacement ← displacement
        exactly " \x7d"
        return .registerOrMemory toRegister modRm displacement),
      ("Immediate(", return .immediate (← upTo ")" word?))]

def record : TextReader Record := do
  exactly "InstructionRecord \x7b operand_size: "
  let width ← upTo ", reg: " width?
  let reg ← upTo ", form: " byte?
  let form ← form
  exactly " \x7d"
  return ⟨width, reg, form⟩

def error : TextReader DecodeError :=
  choose
    [("End of input", return .endOfInput),
      ("Unexpected end of stream in the middle of an instruction", return .truncated),
      ("Unrecognized op code (0x", return .unrecognized (← upTo ")" hexByte?))]

/-! ### Lines -/

def cycle : TextReader LogLine :=
  choose
    [("op code 0x", do
        let byte ← upTo " classified as " hexByte?
        return classified byte (← opCode)),
      ("decoded ", do
        let record ← record
        exactly " ("
        let family ← upTo ") as \"" family?
        return decoded record family (← toEnd quoted?)),
      ("could not decode instruction: ", return failed (← error))]

def line : TextReader LogLine :=
  choose
    [("INFO sim86_dis: loaded ", do
        let size ← upTo " bytes from " Numeral.decimal?
        return loaded size (← toEnd fun path => some (String.ofList path))),
      ("WARN sim86_dis: unrecognized op code 0x", do
        let byte ← upTo " at 0x" hexByte?
        return skipped byte (← toEnd offset?)),
      ("DEBUG sim86_decoder::decode: ", cycle)]

def ofLine? (text : String) : Option LogLine :=
  line.whole? text

end LogLine

end Mov8086
