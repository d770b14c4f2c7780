import Mov8086.LittleEndian

/-!
Numbers of sixteen bits as bytes. A number that fits a count of bytes is read back from them, and
bytes are written back by the number that they stand for, without a sign or with one.
-/

set_option autoImplicit false

namespace Mov8086

namespace LittleEndian

/-- The signed number that bytes stand for, in two's complement of all their bits. -/
def toInt (bytes : List UInt8) : Int :=
  (toNat bytes : Int).bmod (capacity bytes.length)

theorem ofNat_mod (count value : Nat) : ofNat count (value % capacity count) = ofNat count value := by
  have restored := ofNat_toNat (ofNat count value)
  rwa [length_ofNat, toNat_ofNat] at restored

private theorem toNat_toUInt16 (d : Int16) :
    (d.toUInt16.toNat : Int) = d.toInt % (65536 : Nat) := by
  have small := d.toUInt16.toNat_lt
  have value : d.toInt = (d.toUInt16.toNat : Int).bmod 65536 := by
    rw [← Int16.toInt_toBitVec, BitVec.toInt_eq_toNat_bmod, Int16.toNat_toBitVec]
  rw [value, Int.bmod_emod]
  omega

private theorem ofInt_eq {d : Int16} {value : Int} (same : d.toInt = value) : Int16.ofInt value = d := by
  rw [← same, Int16.ofInt_toInt]

theorem toInt16_byte (byte : UInt8) : byte.toInt8.toInt16 = Int16.ofInt (toInt [byte]) := by
  apply Eq.symm
  apply ofInt_eq
  have value : byte.toInt8.toInt = (byte.toNat : Int).bmod 256 := by
    rw [← Int8.toInt_toBitVec, UInt8.toBitVec_toInt8, BitVec.toInt_eq_toNat_bmod]
    rfl
  rw [Int8.toInt_toInt16, value]
  simp [toInt, toNat, capacity]

theorem toInt16_word (low high : UInt8) :
    (UInt16.ofNat (toNat [low, high])).toInt16 = Int16.ofInt (toInt [low, high]) := by
  apply Eq.symm
  apply ofInt_eq
  have bound : toNat [low, high] < 65536 := toNat_lt [low, high]
  rw [← Int16.toInt_toBitVec, UInt16.toBitVec_toInt16, BitVec.toInt_eq_toNat_bmod,
    UInt16.toNat_toBitVec, UInt16.toNat_ofNat', Nat.mod_eq_of_lt bound]
  rfl

theorem ofNat_toNat_ofNat {data : List UInt8} (small : capacity data.length ≤ 65536) :
    ofNat data.length (UInt16.ofNat (toNat data)).toNat = data := by
  have bound : toNat data < 65536 := Nat.lt_of_lt_of_le (toNat_lt data) small
  rw [UInt16.toNat_ofNat', Nat.mod_eq_of_lt bound, ofNat_toNat]

theorem ofNat_toNat_of_lt {count : Nat} {value : UInt16} (fits : value.toNat < capacity count) :
    UInt16.ofNat (toNat (ofNat count value.toNat)) = value := by
  rw [toNat_ofNat, Nat.mod_eq_of_lt fits, UInt16.ofNat_toNat]

/-- The capacity of two bytes is that of sixteen bits. -/
private theorem capacity_le {bytes : List UInt8} (short : bytes.length ≤ 2) :
    capacity bytes.length ≤ 65536 := by
  match bytes.length, short with
  | 0, _ | 1, _ | 2, _ => decide

theorem toNat_ofNat_toNat {bytes : List UInt8} (short : bytes.length ≤ 2) :
    (UInt16.ofNat (toNat bytes)).toNat = toNat bytes :=
  UInt16.toNat_ofNat_of_lt' (Nat.lt_of_lt_of_le (toNat_lt bytes) (capacity_le short))

theorem toInt_ofInt_toInt {bytes : List UInt8} (short : bytes.length ≤ 2) :
    (Int16.ofInt (toInt bytes)).toInt = toInt bytes := by
  have positive : 0 < capacity bytes.length := Nat.lt_of_le_of_lt (Nat.zero_le _) (toNat_lt bytes)
  have bound := capacity_le short
  have least := Int.le_bmod (x := toNat bytes) positive
  have greatest := Int.bmod_lt (x := toNat bytes) positive
  rw [← toInt] at least greatest
  exact Int16.toInt_ofInt_of_le (by omega) (by omega)

section Signed

variable {count : Nat} (divides : capacity count ∣ 65536)
include divides

/-- The low bytes of a signed number hold its value modulo their capacity. -/
private theorem ofNat_toUInt16 (d : Int16) :
    ofNat count d.toUInt16.toNat = ofNat count (d.toInt % capacity count).toNat := by
  have dropped : ((d.toUInt16.toNat % capacity count : Nat) : Int) = d.toInt % capacity count := by
    rw [Int.natCast_emod, toNat_toUInt16]
    exact Int.emod_emod_of_dvd _ (Int.natCast_dvd_natCast.mpr divides)
  rw [← ofNat_mod, ← dropped, Int.toNat_natCast]

/-- The bytes that a signed number was read from are its low bytes. -/
theorem ofNat_ofInt_toInt {data : List UInt8} (size : data.length = count) :
    ofNat count (Int16.ofInt (toInt data)).toUInt16.toNat = data := by
  subst size
  have residue : (Int16.ofInt (toInt data)).toInt % capacity data.length = toNat data := by
    rw [Int16.toInt_ofInt]
    calc (toInt data).bmod 65536 % capacity data.length
        = (toInt data).bmod 65536 % (65536 : Nat) % capacity data.length :=
          (Int.emod_emod_of_dvd _ (Int.natCast_dvd_natCast.mpr divides)).symm
      _ = toInt data % (65536 : Nat) % capacity data.length := by rw [Int.bmod_emod]
      _ = toInt data % capacity data.length :=
          Int.emod_emod_of_dvd _ (Int.natCast_dvd_natCast.mpr divides)
      _ = toNat data := by
          rw [toInt, Int.bmod_emod, ← Int.natCast_emod, Nat.mod_eq_of_lt (toNat_lt data)]
  rw [ofNat_toUInt16 divides, residue, Int.toNat_natCast, ofNat_toNat]

/-- A signed number is read back from as many of its low bytes as it fits. -/
theorem ofInt_toInt_ofNat {d : Int16} (fits : d.toInt.bmod (capacity count) = d.toInt) :
    Int16.ofInt (toInt (ofNat count d.toUInt16.toNat)) = d := by
  apply ofInt_eq
  have positive : 0 < capacity count := Nat.pos_of_dvd_of_pos divides (by decide)
  have residue : 0 ≤ d.toInt % capacity count := Int.emod_nonneg _ (by omega)
  rw [ofNat_toUInt16 divides, toInt, length_ofNat, toNat_ofNat, Int.natCast_emod,
    Int.toNat_of_nonneg residue, Int.emod_emod, Int.emod_bmod, fits]

end Signed

end LittleEndian

end Mov8086
