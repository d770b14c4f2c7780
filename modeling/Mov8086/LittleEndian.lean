/-!
Numbers as bytes, lowest byte first. Writing a number in a given count of bytes keeps what fits
into them, and reading bytes gives back exactly the number that they were written from.
-/

set_option autoImplicit false

namespace Mov8086.LittleEndian

/-- The number that bytes stand for. -/
def toNat : List UInt8 → Nat
  | [] => 0
  | byte :: rest => byte.toNat + 256 * toNat rest

/-- The lowest `count` bytes of a number. -/
def ofNat : Nat → Nat → List UInt8
  | 0, _ => []
  | count + 1, value => UInt8.ofNat value :: ofNat count (value / 256)

/-- The number of values that `count` bytes can take. -/
def capacity : Nat → Nat
  | 0 => 1
  | count + 1 => 256 * capacity count

@[simp] theorem length_ofNat (count value : Nat) : (ofNat count value).length = count := by
  induction count generalizing value with
  | zero => rfl
  | succ count ih => simp [ofNat, ih]

theorem toNat_lt (bytes : List UInt8) : toNat bytes < capacity bytes.length := by
  induction bytes with
  | nil => simp [toNat, capacity]
  | cons byte rest ih =>
    have small := byte.toNat_lt
    simp only [toNat, List.length_cons, capacity]
    omega

theorem toNat_ofNat (count value : Nat) :
    toNat (ofNat count value) = value % capacity count := by
  induction count generalizing value with
  | zero => simp [toNat, ofNat, capacity, Nat.mod_one]
  | succ count ih =>
    have digits : value % (256 * capacity count) =
        value % 256 + 256 * (value / 256 % capacity count) :=
      Nat.mod_mul
    have low : (UInt8.ofNat value).toNat = value % 256 := UInt8.toNat_ofNat'
    simp only [toNat, ofNat, capacity, ih, low, digits]

theorem ofNat_toNat (bytes : List UInt8) : ofNat bytes.length (toNat bytes) = bytes := by
  induction bytes with
  | nil => rfl
  | cons byte rest ih =>
    have small := byte.toNat_lt
    have high : (byte.toNat + 256 * toNat rest) / 256 = toNat rest := by omega
    have low : UInt8.ofNat (byte.toNat + 256 * toNat rest) = byte := by
      apply UInt8.toNat_inj.mp
      rw [UInt8.toNat_ofNat']
      omega
    simp only [List.length_cons, toNat, ofNat, high, low, ih]

end Mov8086.LittleEndian
