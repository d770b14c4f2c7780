import Mov8086.Record

/-!
Events of a decode cycle, and the log messages that report them.
-/

set_option autoImplicit false

namespace Mov8086

/-- What a decode cycle reports while it runs. -/
inductive Event where
  | classified (byte : UInt8) (opCode : OpCode)
  /-- The record was complete and stood for a move. -/
  | decoded (record : Record) (instruction : Instruction)
  | failed (error : DecodeError)
deriving DecidableEq, Repr

namespace Event

/-- The fields of an op code as logs show them. -/
def opCodeText : OpCode → String
  | .immediate width reg =>
    Family.immediate.label ++ " \x7b operand_size: " ++ width.label ++ ", reg: " ++
      Numeral.decimal reg.toNat ++ " \x7d"
  | .registerOrMemory toRegister width =>
    Family.registerOrMemory.label ++ " \x7b reg_is_destination: " ++ toString toRegister ++
      ", operand_size: " ++ width.label ++ " \x7d"

def displacementText : Option Int16 → String
  | none => "None"
  | some displacement => "Some(" ++ Numeral.signedDecimal displacement.toInt ++ ")"

def modRmText (modRm : ModRm) : String :=
  "ModRm \x7b mode: " ++ modRm.mode.label ++ ", rm: " ++ Numeral.decimal modRm.rm.toNat ++ " \x7d"

def formText : Form → String
  | .registerOrMemory toRegister modRm displacement =>
    "RegisterOrMemory \x7b direction: " ++ toString toRegister ++ ", mod_rm: " ++
      modRmText modRm ++ ", displacement: " ++ displacementText displacement ++ " \x7d"
  | .immediate value => "Immediate(" ++ Numeral.decimal value.toNat ++ ")"

def recordText (record : Record) : String :=
  "InstructionRecord \x7b operand_size: " ++ record.width.label ++ ", reg: " ++
    Numeral.decimal record.reg.toNat ++ ", form: " ++ formText record.form ++ " \x7d"

def message : Event → String
  | classified byte opCode =>
    "op code 0x" ++ Numeral.hex 2 byte.toNat ++ " classified as " ++ opCodeText opCode
  | decoded record instruction =>
    "decoded " ++ recordText record ++ " (" ++ record.family.label ++ ") as \"" ++
      instruction.text ++ "\""
  | failed error => "could not decode instruction: " ++ error.message

end Event

end Mov8086
