import Mov8086.ModRm
import Mov8086.OpCode
import Mov8086.Register

/-!
Fields packed into the two leading bytes. Each byte that is read as an op code or as a mode byte is
the one that its fields are packed into, and packed fields are read back as they were. A code of so
many bits as its field has always names something.
-/

set_option autoImplicit false

namespace Mov8086

/-- A table of the values below a bound settles a property of the bytes below it. -/
@[elab_as_elim]
private theorem of_table {motive : UInt8 → Prop} (bound : Nat) (byte : UInt8)
    (below : byte.toNat < bound) (table : ∀ n : Fin bound, motive (UInt8.ofNat n)) :
    motive byte := by
  have row := table ⟨byte.toNat, below⟩
  rwa [UInt8.ofNat_toNat] at row

private theorem toNat_lt_eight {code : UInt8} (small : code ≤ 7) : code.toNat < 8 :=
  Nat.lt_succ_of_le small

namespace OpCode

/-- The byte that the fields of an op code are packed into. -/
def byte : OpCode → UInt8
  | immediate width reg => (0xB0 : UInt8) ||| width.flag <<< 3 ||| reg
  | registerOrMemory toRegister width => (0x88 : UInt8) ||| toRegister.toUInt8 <<< 1 ||| width.flag

/-- Each field of the op code fits the bits that hold it. -/
def Fits : OpCode → Prop
  | immediate _ reg => reg ≤ 7
  | registerOrMemory .. => True

/-- The bytes that no op code is packed into. -/
def Unknown (byte : UInt8) : Prop :=
  ¬(0x88 ≤ byte ∧ byte ≤ 0x8B) ∧ ¬(0xB0 ≤ byte ∧ byte ≤ 0xBF)

instance (byte : UInt8) : Decidable (Unknown byte) :=
  inferInstanceAs (Decidable (¬(0x88 ≤ byte ∧ byte ≤ 0x8B) ∧ ¬(0xB0 ≤ byte ∧ byte ≤ 0xBF)))

theorem of?_eq_none_iff {byte : UInt8} : Family.of? byte = none ↔ Unknown byte :=
  of_table 256 byte byte.toNat_lt (by decide +kernel)

private theorem immediate_fields {byte : UInt8} : Family.of? byte = some .immediate →
    BitField.immediateRegister.extract byte ≤ 7 ∧
      (immediate (Width.ofFlag (BitField.immediateWidth.extract byte))
        (BitField.immediateRegister.extract byte)).byte = byte :=
  of_table 256 byte byte.toNat_lt (by decide +kernel)

private theorem registerOrMemory_fields {byte : UInt8} :
    Family.of? byte = some .registerOrMemory →
      (registerOrMemory (BitField.direction.extract byte = 1)
        (Width.ofFlag (BitField.width.extract byte))).byte = byte :=
  of_table 256 byte byte.toNat_lt (by decide +kernel)

/-- The op codes of moves between a register and a register or memory. -/
theorem exists_registerOrMemory {byte : UInt8} (least : 0x88 ≤ byte) (greatest : byte ≤ 0x8B) :
    ∃ toRegister width, (registerOrMemory toRegister width).byte = byte := by
  have family : 0x88 ≤ byte → byte ≤ 0x8B → Family.of? byte = some .registerOrMemory :=
    of_table 256 byte byte.toNat_lt (by decide +kernel)
  exact ⟨_, _, registerOrMemory_fields (family least greatest)⟩

/-- The op codes of moves of a byte to a register, and the one flag by which those of a word differ
from them. -/
theorem exists_immediate {byte : UInt8} (least : 0xB0 ≤ byte) (greatest : byte ≤ 0xB7) :
    ∃ reg ≤ 7, (immediate .byte reg).byte = byte ∧ (immediate .word reg).byte = byte ^^^ 8 := by
  have fields : 0xB0 ≤ byte → byte ≤ 0xB7 →
      BitField.immediateRegister.extract byte ≤ 7 ∧
        (immediate .byte (BitField.immediateRegister.extract byte)).byte = byte ∧
          (immediate .word (BitField.immediateRegister.extract byte)).byte = byte ^^^ 8 :=
    of_table 256 byte byte.toNat_lt (by decide +kernel)
  exact ⟨_, fields least greatest⟩

theorem ofByte_byte {code : OpCode} (fits : code.Fits) : ofByte code.byte = .ok code := by
  cases code with
  | immediate width reg =>
    refine of_table 8 reg (toNat_lt_eight fits) ?_
    cases width <;> decide +kernel
  | registerOrMemory toRegister width => cases toRegister <;> cases width <;> rfl

theorem ofByte_eq_ok_iff {byte : UInt8} {code : OpCode} :
    ofByte byte = .ok code ↔ code.Fits ∧ code.byte = byte := by
  constructor
  · intro read
    unfold ofByte at read
    split at read
    · next family => cases read; exact immediate_fields family
    · next family => cases read; exact ⟨trivial, registerOrMemory_fields family⟩
    · cases read
  · rintro ⟨fits, rfl⟩
    exact ofByte_byte fits

theorem ofByte_eq_error_iff {byte : UInt8} {error : DecodeError} :
    ofByte byte = .error error ↔ Unknown byte ∧ error = .unrecognized byte := by
  rw [← of?_eq_none_iff, ofByte]
  split
  · next family => simp [family]
  · next family => simp [family]
  · next family => simp [family, eq_comm]

end OpCode

theorem Mode.exists_ofCode {code : UInt8} (small : code ≤ 3) : ∃ m, Mode.ofCode code = .ok m := by
  refine of_table 4 code (Nat.lt_succ_of_le small) ?_
  intro n
  match n with
  | 0 | 1 | 2 | 3 => exact ⟨_, rfl⟩

theorem Register.exists_ofCode {code : UInt8} (small : code ≤ 7) :
    ∃ r, Register.ofCode code = .ok r := by
  refine of_table 8 code (toNat_lt_eight small) ?_
  intro n
  match n with
  | 0 | 1 | 2 | 3 | 4 | 5 | 6 | 7 => exact ⟨_, rfl⟩

theorem AddressBase.exists_ofCode {code : UInt8} (small : code ≤ 7) :
    ∃ b, AddressBase.ofCode code = .ok b := by
  refine of_table 8 code (toNat_lt_eight small) ?_
  intro n
  match n with
  | 0 | 1 | 2 | 3 | 4 | 5 | 6 | 7 => exact ⟨_, rfl⟩

namespace ModRm

/-- The byte that a mode and two codes are packed into. -/
def byte (reg : UInt8) (m : ModRm) : UInt8 :=
  m.mode.code <<< 6 ||| reg <<< 3 ||| m.rm

private theorem extract_byte {reg : UInt8} {m : ModRm} (regSmall : reg ≤ 7) (rmSmall : m.rm ≤ 7) :
    BitField.mode.extract (byte reg m) = m.mode.code ∧
      BitField.register.extract (byte reg m) = reg ∧
      BitField.registerOrMemory.extract (byte reg m) = m.rm := by
  obtain ⟨mode, rm⟩ := m
  refine of_table 8 rm (toNat_lt_eight rmSmall) ?_
  intro n
  refine of_table 8 reg (toNat_lt_eight regSmall) ?_
  revert n
  cases mode <;> decide +kernel

private theorem byte_extract (byte : UInt8) :
    BitField.mode.extract byte ≤ 3 ∧ BitField.register.extract byte ≤ 7 ∧
      BitField.registerOrMemory.extract byte ≤ 7 ∧
      BitField.mode.extract byte <<< 6 ||| BitField.register.extract byte <<< 3 |||
        BitField.registerOrMemory.extract byte = byte :=
  of_table 256 byte byte.toNat_lt (by decide +kernel)

/-- The codes that a byte holds fit the bits that they are taken from. -/
theorem extract_le (byte : UInt8) :
    BitField.mode.extract byte ≤ 3 ∧ BitField.register.extract byte ≤ 7 ∧
      BitField.registerOrMemory.extract byte ≤ 7 := by
  obtain ⟨mode, register, registerOrMemory, -⟩ := byte_extract byte
  exact ⟨mode, register, registerOrMemory⟩

theorem ofByte_byte {reg : UInt8} {m : ModRm} (regSmall : reg ≤ 7) (rmSmall : m.rm ≤ 7) :
    ofByte (byte reg m) = .ok m := by
  obtain ⟨mode, -, rm⟩ := extract_byte regSmall rmSmall
  simp only [ofByte, mode, rm, Mode.ofCode_code, Except.map]

theorem register_byte {reg : UInt8} {m : ModRm} (regSmall : reg ≤ 7) (rmSmall : m.rm ≤ 7) :
    BitField.register.extract (byte reg m) = reg :=
  (extract_byte regSmall rmSmall).2.1

/-- Every byte is one that a mode and two codes of three bits are packed into. -/
theorem exists_byte (value : UInt8) :
    ∃ reg m, reg ≤ 7 ∧ m.rm ≤ 7 ∧ byte reg m = value := by
  obtain ⟨modeSmall, regSmall, rmSmall, packed⟩ := byte_extract value
  obtain ⟨mode, read⟩ := Mode.exists_ofCode modeSmall
  rw [Mode.ofCode_eq_ok_iff.mp read] at packed
  exact ⟨_, ⟨mode, _⟩, regSmall, rmSmall, packed⟩

end ModRm

end Mov8086
