import Mov8086.Fault

/-!
Bit fields of the two bytes that lead an instruction.

    1 0 1 1 w reg | data | data if w = 1
    1 0 0 0 1 0 d w | mod reg r/m | low displacement | high displacement
-/

set_option autoImplicit false

namespace Mov8086

/-- A run of bits in a byte: the bits that `mask` keeps, moved down by `shift` places. -/
structure BitField where
  mask : UInt8
  shift : Fin 8
deriving DecidableEq, Repr

namespace BitField

/-- The bits of `byte` under `mask`, moved down by `shift` places; a byte has only eight of them. -/
def select (byte mask shift : UInt8) : Except Fault UInt8 :=
  if shift < 8 then .ok ((byte &&& mask) >>> shift) else .error (.shiftAmount shift)

def extract (field : BitField) (byte : UInt8) : UInt8 :=
  (byte &&& field.mask) >>> UInt8.ofNat field.shift

/-- The field under `mask`, whose lowest bit becomes the lowest of the value. An empty mask has no
lowest bit and would have to be moved past the end of the byte. -/
def ofMask (mask : UInt8) : Except Fault BitField :=
  match (List.finRange 8).find? fun (place : Fin 8) => mask.toNat.testBit place with
  | some place => .ok ⟨mask, place⟩
  | none => .error (.shiftAmount 8)

-- The first byte of a move of a constant to a register.

def immediateOpCode : BitField := ⟨0b1111_0000, 4⟩

def immediateWidth : BitField := ⟨0b0000_1000, 3⟩

def immediateRegister : BitField := ⟨0b0000_0111, 0⟩

-- The first byte of a move between a register and a register or memory.

def registerOrMemoryOpCode : BitField := ⟨0b1111_1100, 2⟩

/-- The flag that makes the register field the destination. -/
def direction : BitField := ⟨0b0000_0010, 1⟩

def width : BitField := ⟨0b0000_0001, 0⟩

-- The second byte.

def mode : BitField := ⟨0b1100_0000, 6⟩

def register : BitField := ⟨0b0011_1000, 3⟩

def registerOrMemory : BitField := ⟨0b0000_0111, 0⟩

end BitField

end Mov8086
