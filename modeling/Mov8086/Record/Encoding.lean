import Mov8086.LittleEndian
import Mov8086.Record

/-!
The bytes of a record, and the records that have bytes of their own.
-/

set_option autoImplicit false

namespace Mov8086

namespace Record

/-- A displacement fits a size when it is there exactly if the size is not zero, and lies in the
range of a signed byte if the size is one. -/
def DisplacementFits (size : Nat) : Option Int16 → Prop
  | none => size = 0
  | some d => size ≠ 0 ∧ (size = 1 → -128 ≤ d.toInt ∧ d.toInt ≤ 127)

instance (size : Nat) : (d : Option Int16) → Decidable (DisplacementFits size d)
  | none => inferInstanceAs (Decidable (size = 0))
  | some d =>
    inferInstanceAs (Decidable (size ≠ 0 ∧ (size = 1 → -128 ≤ d.toInt ∧ d.toInt ≤ 127)))

/-- A form fits a width when each of its fields fits the bits that hold it. -/
def FormFits (width : Width) : Form → Prop
  | .immediate value => width = .byte → value < 256
  | .registerOrMemory _ modRm displacement =>
    modRm.rm ≤ 7 ∧ DisplacementFits modRm.displacementSize displacement

instance (width : Width) : (form : Form) → Decidable (FormFits width form)
  | .immediate value => inferInstanceAs (Decidable (width = .byte → value < 256))
  | .registerOrMemory _ modRm displacement =>
    inferInstanceAs
      (Decidable (modRm.rm ≤ 7 ∧ DisplacementFits modRm.displacementSize displacement))

/-- A record is well-formed when its register code has three bits and its form fits its width. -/
def WellFormed (r : Record) : Prop :=
  r.reg ≤ 7 ∧ FormFits r.width r.form

instance (r : Record) : Decidable r.WellFormed :=
  inferInstanceAs (Decidable (r.reg ≤ 7 ∧ FormFits r.width r.form))

/-- The bytes of a record: op code, mode byte if the form has one, and data, lowest byte first. -/
def encode (r : Record) : List UInt8 :=
  match r.form with
  | .immediate value =>
    ((0xB0 : UInt8) ||| r.width.flag <<< 3 ||| r.reg) :: LittleEndian.ofNat r.width.bytes value.toNat
  | .registerOrMemory toRegister modRm displacement =>
    ((0x88 : UInt8) ||| toRegister.toUInt8 <<< 1 ||| r.width.flag) ::
      (modRm.mode.code <<< 6 ||| r.reg <<< 3 ||| modRm.rm) ::
      LittleEndian.ofNat modRm.displacementSize (displacement.getD 0).toUInt16.toNat

end Record

end Mov8086
