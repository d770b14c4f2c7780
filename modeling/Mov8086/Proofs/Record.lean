import Mov8086.Proofs.LittleEndian
import Mov8086.Proofs.Packing
import Mov8086.Record.Encoding

/-!
The bytes of a record in two parts: the leading bytes, which settle everything but a number, and
the data, which hold that number. Any bytes of the right count are the data of one well-formed
record with the given leading bytes, and of no other.
-/

set_option autoImplicit false

namespace Mov8086

namespace Record

/-- The op code that the record begins with. -/
def opCode (r : Record) : OpCode :=
  match r.form with
  | .immediate _ => .immediate r.width r.reg
  | .registerOrMemory toRegister _ _ => .registerOrMemory toRegister r.width

/-- The bytes in front of the data. -/
def lead (r : Record) : List UInt8 :=
  match r.form with
  | .immediate _ => [r.opCode.byte]
  | .registerOrMemory _ modRm _ => [r.opCode.byte, modRm.byte r.reg]

/-- The bytes of the constant or of the displacement. -/
def data (r : Record) : List UInt8 :=
  match r.form with
  | .immediate value => LittleEndian.ofNat r.width.bytes value.toNat
  | .registerOrMemory _ modRm displacement =>
    LittleEndian.ofNat modRm.displacementSize (displacement.getD 0).toUInt16.toNat

/-- The number of bytes that the data take up. -/
def dataSize (r : Record) : Nat :=
  match r.form with
  | .immediate _ => r.width.bytes
  | .registerOrMemory _ modRm _ => modRm.displacementSize

/-- The displacement that bytes hold, if there are any. -/
def displacementOf : List UInt8 → Option Int16
  | [] => none
  | low :: high => some (Int16.ofInt (LittleEndian.toInt (low :: high)))

/-- The record with the same leading bytes and the given data. -/
def withData (r : Record) (data : List UInt8) : Record :=
  { r with form := match r.form with
      | .immediate _ => .immediate (UInt16.ofNat (LittleEndian.toNat data))
      | .registerOrMemory toRegister modRm _ =>
        .registerOrMemory toRegister modRm (displacementOf data) }

/-- The codes of the record fit three bits each. -/
def CodesFit (r : Record) : Prop :=
  r.reg ≤ 7 ∧ match r.form with
    | .immediate _ => True
    | .registerOrMemory _ modRm _ => modRm.rm ≤ 7

theorem WellFormed.codesFit {r : Record} (wf : r.WellFormed) : r.CodesFit := by
  obtain ⟨width, reg, _ | value⟩ := r
  · exact ⟨wf.1, wf.2.1⟩
  · exact ⟨wf.1, trivial⟩

theorem opCode_fits {r : Record} (fit : r.CodesFit) : r.opCode.Fits := by
  obtain ⟨width, reg, _ | value⟩ := r
  · trivial
  · exact fit.1

theorem encode_eq (r : Record) : r.encode = r.lead ++ r.data := by
  obtain ⟨width, reg, _ | value⟩ := r <;> rfl

theorem length_data (r : Record) : r.data.length = r.dataSize := by
  obtain ⟨width, reg, _ | value⟩ := r <;> exact LittleEndian.length_ofNat _ _

theorem displacementSize_le (m : ModRm) : m.displacementSize ≤ 2 := by
  unfold ModRm.displacementSize
  split
  · split <;> omega
  · omega
  · omega
  · omega

/-- An instruction takes up two to four bytes. -/
theorem length_encode (r : Record) : 2 ≤ r.encode.length ∧ r.encode.length ≤ 4 := by
  rw [encode_eq, List.length_append, length_data]
  obtain ⟨width, reg, ⟨toRegister, modRm, displacement⟩ | value⟩ := r
  · have bound := displacementSize_le modRm
    simp only [lead, dataSize, List.length_cons, List.length_nil]
    omega
  · cases width <;> simp [lead, dataSize, Width.bytes]

private theorem capacity_dvd {size : Nat} (small : size ≤ 2) :
    LittleEndian.capacity size ∣ 65536 := by
  match size with
  | 0 => exact ⟨65536, rfl⟩
  | 1 => exact ⟨256, rfl⟩
  | 2 => exact ⟨1, rfl⟩

private theorem displacementOf_ofNat {size : Nat} (small : size ≤ 2) {displacement : Option Int16}
    (fits : DisplacementFits size displacement) :
    displacementOf (LittleEndian.ofNat size (displacement.getD 0).toUInt16.toNat) = displacement := by
  cases displacement with
  | none =>
    obtain rfl : size = 0 := fits
    rfl
  | some d =>
    obtain ⟨size, rfl⟩ := Nat.exists_eq_succ_of_ne_zero fits.1
    have range : d.toInt.bmod (LittleEndian.capacity (size + 1)) = d.toInt := by
      have least := d.le_toInt
      have greatest := d.toInt_lt
      match size with
      | 0 =>
        have byteRange := fits.2 rfl
        exact Int.bmod_eq_of_le (by simp only [LittleEndian.capacity]; omega)
          (by simp only [LittleEndian.capacity]; omega)
      | 1 =>
        exact Int.bmod_eq_of_le (by simp only [LittleEndian.capacity]; omega)
          (by simp only [LittleEndian.capacity]; omega)
    exact congrArg some (LittleEndian.ofInt_toInt_ofNat (capacity_dvd small) range)

private theorem displacementFits_displacementOf (data : List UInt8) :
    DisplacementFits data.length (displacementOf data) := by
  cases data with
  | nil => rfl
  | cons low high =>
    refine ⟨Nat.succ_ne_zero _, ?_⟩
    intro single
    have least : -128 ≤ LittleEndian.toInt (low :: high) := by
      rw [LittleEndian.toInt, single]
      exact Int.le_bmod (m := 256) (by decide)
    have greatest : LittleEndian.toInt (low :: high) < 128 := by
      rw [LittleEndian.toInt, single]
      exact Int.bmod_lt (m := 256) (by decide)
    rw [Int16.toInt_ofInt_of_le (by omega) (by omega)]
    omega

theorem withData_data {r : Record} (wf : r.WellFormed) : r.withData r.data = r := by
  obtain ⟨width, reg, ⟨toRegister, modRm, displacement⟩ | value⟩ := r
  · have restored := displacementOf_ofNat (displacementSize_le modRm) wf.2.2
    simp only [withData, data, restored]
  · have fits : value.toNat < LittleEndian.capacity width.bytes := by
      cases width with
      | byte => exact wf.2 rfl
      | word => exact value.toNat_lt
    simp only [withData, data, LittleEndian.ofNat_toNat_of_lt fits]

theorem wellFormed_withData {r : Record} (fit : r.CodesFit) {data : List UInt8}
    (size : data.length = r.dataSize) : (r.withData data).WellFormed := by
  obtain ⟨width, reg, ⟨toRegister, modRm, displacement⟩ | value⟩ := r
  · refine ⟨fit.1, fit.2, ?_⟩
    have fits := displacementFits_displacementOf data
    rwa [size] at fits
  · refine ⟨fit.1, ?_⟩
    rintro rfl
    have bound : LittleEndian.toNat data < 256 := by
      have below := LittleEndian.toNat_lt data
      rwa [size] at below
    have kept : (UInt16.ofNat (LittleEndian.toNat data)).toNat = LittleEndian.toNat data :=
      UInt16.toNat_ofNat_of_lt' (Nat.lt_trans bound (by decide))
    rw [UInt16.lt_iff_toNat_lt, kept]
    exact bound

theorem encode_withData {r : Record} {data : List UInt8} (size : data.length = r.dataSize) :
    (r.withData data).encode = r.lead ++ data := by
  rw [encode_eq]
  obtain ⟨width, reg, ⟨toRegister, modRm, displacement⟩ | value⟩ := r
  · have restored : LittleEndian.ofNat modRm.displacementSize
        ((displacementOf data).getD 0).toUInt16.toNat = data := by
      rw [← show data.length = modRm.displacementSize from size]
      have small : data.length ≤ 2 := size ▸ displacementSize_le modRm
      cases data with
      | nil => rfl
      | cons low high => exact LittleEndian.ofNat_ofInt_toInt (capacity_dvd small) rfl
    exact congrArg ([_, _] ++ ·) restored
  · have restored : LittleEndian.ofNat width.bytes
        (UInt16.ofNat (LittleEndian.toNat data)).toNat = data := by
      rw [← show data.length = width.bytes from size]
      have small : data.length ≤ 2 := by
        rw [show data.length = width.bytes from size]
        cases width <;> decide
      exact LittleEndian.ofNat_toNat_ofNat
        (Nat.le_of_dvd (by decide) (capacity_dvd small))
    exact congrArg ([_] ++ ·) restored

private theorem exists_operand (r : Record) {m : ModRm} (small : m.rm ≤ 7)
    (displacement : Option Int16) :
    ∃ operand, r.registerOrMemoryOperand m displacement = .ok operand := by
  obtain ⟨register, named⟩ := Register.exists_ofCode small
  obtain ⟨base, based⟩ := AddressBase.exists_ofCode small
  have memory : ∃ operand, (if m.isDirect then .ok (.direct (displacement.getD 0).toUInt16)
      else (AddressBase.ofCode m.rm).map fun base => .indirect base (displacement.getD 0)) =
        (.ok operand : Except Fault Operand) := by
    rw [based]
    split <;> exact ⟨_, rfl⟩
  unfold registerOrMemoryOperand
  cases m.mode with
  | register =>
    simp only [registerOperand, named, Except.map]
    exact ⟨_, rfl⟩
  | memory | memoryByte | memoryWord => exact memory

/-- A record whose codes fit their bits stands for a move. -/
theorem exists_instruction {r : Record} (fit : r.CodesFit) : ∃ i, r.instruction = .ok i := by
  obtain ⟨register, named⟩ := Register.exists_ofCode fit.1
  obtain ⟨width, reg, ⟨toRegister, m, displacement⟩ | value⟩ := r
  · obtain ⟨operand, found⟩ := exists_operand
      ⟨width, reg, .registerOrMemory toRegister m displacement⟩ fit.2 displacement
    simp only [instruction, registerOperand, named, Except.map, found]
    exact ⟨_, rfl⟩
  · simp only [instruction, registerOperand, named, Except.map]
    exact ⟨_, rfl⟩

end Record

end Mov8086
