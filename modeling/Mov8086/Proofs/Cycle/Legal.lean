import Mov8086.Instruction.Legal
import Mov8086.Proofs.Cycle.Instruction
import Mov8086.Proofs.Record.Move

/-!
The moves that a cycle decodes. They are the legal moves: a well-formed record stands for one of
them, and each of them has a record of its own, whose bytes a cycle takes.
-/

set_option autoImplicit false

namespace Mov8086

open ByteStream

/-! ### What is ruled out -/

namespace Instruction.Legal

variable {i : Instruction} (legal : i.Legal)
include legal

theorem not_memory_both : ¬(i.destination.IsMemory ∧ i.source.IsMemory) := by
  rintro ⟨destination, source⟩
  cases legal with
  | constant => cases destination
  | copy => cases destination
  | load => cases destination
  | store => cases source

theorem width_eq {r r' : Register} {width width' : Width}
    (destination : i.destination = .register r width) (source : i.source = .register r' width') :
    width = width' := by
  cases legal with
  | constant => cases source
  | copy =>
    cases destination
    cases source
    rfl
  | load _ _ isMemory =>
    cases source
    cases isMemory
  | store _ _ isMemory =>
    cases destination
    cases isMemory

theorem destination_ne_immediate (value : UInt16) : i.destination ≠ .immediate value := by
  intro destination
  cases legal with
  | constant => cases destination
  | copy => cases destination
  | load => cases destination
  | store _ _ isMemory =>
    cases destination
    cases isMemory

theorem immediate_lt {r : Register} {value : UInt16}
    (destination : i.destination = .register r .byte) (source : i.source = .immediate value) :
    value < 256 := by
  cases legal with
  | constant _ fits =>
    cases destination
    cases source
    exact fits rfl
  | copy => cases source
  | load _ _ isMemory =>
    cases source
    cases isMemory
  | store => cases source

end Instruction.Legal

namespace Record

/-! ### Records of legal moves -/

private theorem Names.isMemory_or_register {width : Width} {m : ModRm}
    {displacement : Option Int16} {operand : Operand}
    (names : Names width m displacement operand) :
    operand.IsMemory ∨ ∃ register, operand = .register register width := by
  cases names with
  | register register => exact .inr ⟨register, rfl⟩
  | direct => exact .inl (.direct _)
  | indirect => exact .inl (.indirect _ _)

/-- A well-formed record stands for a legal move. -/
theorem WellFormed.legal {r : Record} {i : Instruction} (wf : r.WellFormed)
    (stands : StandsFor r i) : i.Legal := by
  cases stands with
  | immediate width register => exact .constant register wf.2
  | load width register names =>
    rcases names.isMemory_or_register with isMemory | ⟨source, rfl⟩
    · exact .load register width isMemory
    · exact .copy register source width
  | store width register names =>
    rcases names.isMemory_or_register with isMemory | ⟨destination, rfl⟩
    · exact .store register width isMemory
    · exact .copy destination register width

/-- Every operand in memory has a mode and a displacement that fit it. A sum of registers takes a
displacement of two bytes, even of zero, since the mode without one does not have all of them. -/
private theorem exists_names_of_isMemory {memory : Operand} (isMemory : memory.IsMemory)
    (width : Width) :
    ∃ m displacement, m.rm ≤ 7 ∧ DisplacementFits m.displacementSize displacement ∧
      Names width m displacement memory := by
  cases isMemory with
  | direct address =>
    refine ⟨⟨.memory, AddressBase.directCode⟩, some address.toInt16, by decide,
      ⟨by decide, nofun⟩, ?_⟩
    have names : Names width ⟨.memory, AddressBase.directCode⟩ _ _ :=
      .direct (some address.toInt16)
    rwa [Option.getD_some, UInt16.toUInt16_toInt16] at names
  | indirect base displacement =>
    have memory : Mode.memoryWord ≠ .register := nofun
    exact ⟨⟨.memoryWord, base.code⟩, some displacement, base.code_le, ⟨nofun, nofun⟩,
      .indirect memory rfl (some displacement)⟩

/-- Every legal move has a well-formed record that stands for it. -/
theorem exists_record_of_legal {i : Instruction} (legal : i.Legal) :
    ∃ r : Record, r.WellFormed ∧ StandsFor r i := by
  cases legal with
  | @constant register width value fits =>
    exact ⟨⟨width, register.code, .immediate value⟩, ⟨register.code_le, fits⟩,
      .immediate width register value⟩
  | copy destination source width =>
    exact ⟨⟨width, destination.code, .registerOrMemory true ⟨.register, source.code⟩ none⟩,
      ⟨destination.code_le, source.code_le, rfl⟩,
      .load width destination (.register source none)⟩
  | load register width isMemory =>
    obtain ⟨m, displacement, small, fits, names⟩ := exists_names_of_isMemory isMemory width
    exact ⟨⟨width, register.code, .registerOrMemory true m displacement⟩,
      ⟨register.code_le, small, fits⟩, .load width register names⟩
  | store register width isMemory =>
    obtain ⟨m, displacement, small, fits, names⟩ := exists_names_of_isMemory isMemory width
    exact ⟨⟨width, register.code, .registerOrMemory false m displacement⟩,
      ⟨register.code_le, small, fits⟩, .store width register names⟩

end Record

namespace Cycle

theorem legal_of_instruction {stream : ByteStream} {i : Instruction}
    (decoded : (instruction stream).outcome = .ok i) : i.Legal := by
  obtain ⟨r, complete, known⟩ := instruction_eq_ok_iff.mp decoded
  obtain ⟨wf, -⟩ := eq_encode_append_of_ok complete
  exact wf.legal (Record.instruction_eq_ok_iff.mp known)

theorem exists_bytes_of_legal {i : Instruction} (legal : i.Legal) :
    ∃ bytes : List UInt8, 2 ≤ bytes.length ∧ bytes.length ≤ 4 ∧ ∀ rest : ByteStream,
      (instruction (ofBytes bytes ++ rest)).outcome = .ok i ∧
        (instruction (ofBytes bytes ++ rest)).rest = rest := by
  obtain ⟨r, wf, stands⟩ := Record.exists_record_of_legal legal
  have known := Record.instruction_eq_ok_iff.mpr stands
  obtain ⟨least, greatest⟩ := Record.length_encode r
  refine ⟨r.encode, least, greatest, fun rest => ?_⟩
  rw [instruction_of_encode wf known]
  exact ⟨rfl, rfl⟩

/-- A cycle decodes the legal moves and no others, each of them from two to four bytes of its own.
So no stream yields a move between two places in memory, between registers of two widths, to a
constant, or of a constant that does not fit. -/
theorem decodes_iff_legal :
    (∀ i : Instruction, (∃ stream : ByteStream, (instruction stream).outcome = .ok i) ↔ i.Legal) ∧
    (∀ i : Instruction, i.Legal →
      ∃ bytes : List UInt8, 2 ≤ bytes.length ∧ bytes.length ≤ 4 ∧ ∀ rest : ByteStream,
        (instruction (ofBytes bytes ++ rest)).outcome = .ok i ∧
          (instruction (ofBytes bytes ++ rest)).rest = rest) ∧
    ∀ (stream : ByteStream) (i : Instruction), (instruction stream).outcome = .ok i →
      ¬(i.destination.IsMemory ∧ i.source.IsMemory) ∧
      (∀ r r' width width', i.destination = .register r width → i.source = .register r' width' →
        width = width') ∧
      (∀ value, i.destination ≠ .immediate value) ∧
      ∀ r value, i.destination = .register r .byte → i.source = .immediate value →
        value < 256 := by
  refine ⟨fun i => ⟨?_, ?_⟩, fun i => exists_bytes_of_legal, fun stream i decoded => ?_⟩
  · rintro ⟨stream, decoded⟩
    exact legal_of_instruction decoded
  · intro legal
    obtain ⟨bytes, -, -, decoded⟩ := exists_bytes_of_legal legal
    exact ⟨_, (decoded []).1⟩
  · have legal := legal_of_instruction decoded
    exact ⟨legal.not_memory_both, fun _ _ _ _ => legal.width_eq, legal.destination_ne_immediate,
      fun _ _ => legal.immediate_lt⟩

/-- `[bp]` alone, whose place in the mode without a displacement the bare address takes. -/
theorem decodes_iff_legal_bp :
    let i : Instruction := ⟨.register .alAx .byte, .indirect .bp 0⟩
    i.Legal ∧ ∃ stream : ByteStream, (instruction stream).outcome = .ok i := by
  intro i
  have legal : i.Legal := .load _ _ (.indirect _ _)
  obtain ⟨bytes, -, -, decoded⟩ := decodes_iff_legal.2.1 i legal
  exact ⟨legal, _, (decoded []).1⟩

end Cycle

end Mov8086
