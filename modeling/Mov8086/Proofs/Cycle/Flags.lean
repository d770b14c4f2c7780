import Mov8086.Proofs.Cycle.Outcome
import Mov8086.Proofs.Record.Move

/-!
The flags of an op code. What stands behind the op code of a move between a register and a register
or memory settles the move but for its direction and the width of its registers, whatever the flags
are. Behind the op code of a constant the width flag settles how many bytes the constant takes up.
-/

set_option autoImplicit false

namespace Mov8086

open ByteStream

/-! ### The other direction and the other width -/

def Width.other : Width → Width
  | .byte => .word
  | .word => .byte

/-- The operand at the other width; only a register has one. -/
def Operand.resized : Operand → Operand
  | .register r width => .register r width.other
  | operand => operand

namespace Instruction

/-- The move from the destination to the source. -/
def exchanged (i : Instruction) : Instruction :=
  ⟨i.source, i.destination⟩

/-- The move with each of its registers at the other width. -/
def resized (i : Instruction) : Instruction :=
  ⟨i.destination.resized, i.source.resized⟩

end Instruction

namespace Record

section StandsFor

variable {width : Width} {reg : UInt8} {toRegister : Bool} {m : ModRm}
  {displacement : Option Int16} {i : Instruction}

/-- The other direction exchanges the operands. -/
theorem StandsFor.exchanged
    (stands : StandsFor ⟨width, reg, .registerOrMemory toRegister m displacement⟩ i) :
    StandsFor ⟨width, reg, .registerOrMemory (!toRegister) m displacement⟩ i.exchanged := by
  cases stands with
  | load _ register names => exact .store width register names
  | store _ register names => exact .load width register names

theorem Names.resized {operand : Operand} (names : Names width m displacement operand) :
    Names width.other m displacement operand.resized := by
  cases names with
  | register register => exact .register register displacement
  | direct => exact .direct displacement
  | indirect memory summed => exact .indirect memory summed displacement

/-- The other width resizes the registers and keeps their codes and the operand in memory. -/
theorem StandsFor.resized
    (stands : StandsFor ⟨width, reg, .registerOrMemory toRegister m displacement⟩ i) :
    StandsFor ⟨width.other, reg, .registerOrMemory toRegister m displacement⟩ i.resized := by
  cases stands with
  | load _ register names => exact .load width.other register names.resized
  | store _ register names => exact .store width.other register names.resized

end StandsFor

end Record

namespace OpCode

theorem byte_xor_direction (toRegister : Bool) (width : Width) :
    (registerOrMemory toRegister width).byte ^^^ 2 = (registerOrMemory (!toRegister) width).byte := by
  cases toRegister <;> cases width <;> rfl

theorem byte_xor_width (toRegister : Bool) (width : Width) :
    (registerOrMemory toRegister width).byte ^^^ 1 =
      (registerOrMemory toRegister width.other).byte := by
  cases toRegister <;> cases width <;> rfl

end OpCode

/-! ### What stands behind an op code -/

/-- What stands behind an op code breaks a move between a register and a register or memory off, or
completes it with the same fields, whatever the flags of the op code are. -/
inductive FieldsBehind (stream rest : ByteStream) : Prop where
  | broken (ran : ∀ toRegister width events,
      Phase.run (.modRm toRegister width) ⟨stream, events⟩ = (.error .truncated, ⟨rest, events⟩))
  | complete (reg : UInt8) (m : ModRm) (displacement : Option Int16)
      (regSmall : reg ≤ 7) (rmSmall : m.rm ≤ 7) (ran : ∀ toRegister width events,
        Phase.run (.modRm toRegister width) ⟨stream, events⟩ =
          (.ok ⟨width, reg, .registerOrMemory toRegister m displacement⟩, ⟨rest, events⟩))

theorem exists_fieldsBehind (stream : ByteStream) : ∃ rest, FieldsBehind stream rest := by
  obtain ⟨run, tail, rest, rfl, missing⟩ := exists_run stream
  cases run with
  | nil => exact ⟨rest, .broken fun _ _ => Phase.run_modRm_none _ _ missing⟩
  | cons second run =>
    obtain ⟨reg, m, regSmall, rmSmall, rfl⟩ := ModRm.exists_byte second
    have step (toRegister : Bool) (width : Width) (events : List Event) :
        Phase.run (.modRm toRegister width)
            ⟨ofBytes (m.byte reg :: run) ++ tail, events⟩ =
          Phase.run (.displacement toRegister width reg m) ⟨ofBytes run ++ tail, events⟩ :=
      Phase.run_modRm_byte toRegister width regSmall rmSmall (ofBytes run ++ tail) events
    have completes (toRegister : Bool) (width : Width) :=
      Phase.completes_ofLead ⟨width, reg, .registerOrMemory toRegister m none⟩
    rcases offers_or_lacks m.displacementSize (ofBytes run ++ tail) with
      ⟨data, rest, size, split⟩ | ⟨data, tail', rest, short, split, missing'⟩
    · refine ⟨rest, .complete reg m (Record.displacementOf data) regSmall rmSmall ?_⟩
      intro toRegister width events
      rw [step, split]
      exact (completes toRegister width).found rest events size
    · refine ⟨rest, .broken ?_⟩
      intro toRegister width events
      rw [step, split]
      exact (completes toRegister width).missing events short missing'

namespace Cycle

theorem record_of_run {stream rest : ByteStream} {code : OpCode} (fits : code.Fits)
    {outcome : Except DecodeError Record} (ran : ∀ events,
      Phase.run (.ofOpCode code) ⟨stream, events⟩ = (outcome, ⟨rest, events⟩)) :
    (record (.byte code.byte :: stream : ByteStream)).outcome = outcome ∧
      (record (.byte code.byte :: stream : ByteStream)).rest = rest := by
  have first := Phase.run_opCode_byte code.byte stream []
  rw [OpCode.ofByte_byte fits] at first
  rw [record, first.trans (ran _)]
  exact ⟨rfl, rfl⟩

/-- Where other flags make another move of the same fields, they make it of the same stream, and leave
the same slots or fail alike. -/
theorem instruction_of_flags (toRegister toRegister' : Bool) (width width' : Width)
    {change : Instruction → Instruction}
    (changes : ∀ {reg m displacement i},
      Record.StandsFor ⟨width, reg, .registerOrMemory toRegister m displacement⟩ i →
        Record.StandsFor ⟨width', reg, .registerOrMemory toRegister' m displacement⟩ (change i))
    (stream : ByteStream) :
    let here := instruction (.byte (OpCode.registerOrMemory toRegister width).byte :: stream)
    let there := instruction (.byte (OpCode.registerOrMemory toRegister' width').byte :: stream)
    there.outcome = here.outcome.map change ∧ there.rest = here.rest := by
  intro here there
  obtain ⟨rest, behind⟩ := exists_fieldsBehind stream
  have fits (toRegister : Bool) (width : Width) :
    (OpCode.registerOrMemory toRegister width).Fits := trivial
  cases behind with
  | broken ran =>
    obtain ⟨failed, left⟩ := record_of_run (fits toRegister width) (ran toRegister width)
    obtain ⟨failed', left'⟩ := record_of_run (fits toRegister' width') (ran toRegister' width')
    rw [instruction_eq_error_iff.mpr failed, instruction_eq_error_iff.mpr failed']
    refine ⟨rfl, ?_⟩
    rw [rest_instruction, rest_instruction, left, left']
  | complete reg m displacement regSmall rmSmall ran =>
    obtain ⟨complete, left⟩ := record_of_run (fits toRegister width) (ran toRegister width)
    obtain ⟨complete', left'⟩ := record_of_run (fits toRegister' width') (ran toRegister' width')
    obtain ⟨i, known⟩ := Record.exists_instruction
      (r := ⟨width, reg, .registerOrMemory toRegister m displacement⟩) ⟨regSmall, rmSmall⟩
    have known' := Record.instruction_eq_ok_iff.mpr
      (changes (Record.instruction_eq_ok_iff.mp known))
    rw [instruction_eq_ok_iff.mpr ⟨_, complete, known⟩,
      instruction_eq_ok_iff.mpr ⟨_, complete', known'⟩]
    refine ⟨rfl, ?_⟩
    rw [rest_instruction, rest_instruction, left, left']

/-- A constant takes up as many bytes behind its op code as its width has, lowest byte first. -/
theorem exists_data_of_immediate {width : Width} {reg : UInt8} (small : reg ≤ 7)
    {stream : ByteStream} {i : Instruction}
    (decoded : (instruction (.byte (OpCode.immediate width reg).byte :: stream)).outcome = .ok i) :
    ∃ register value data, register.code = reg ∧
      i = ⟨.register register width, .immediate value⟩ ∧ data.length = width.bytes ∧
        value.toNat = LittleEndian.toNat data ∧ stream = ofBytes data ++
          (instruction (.byte (OpCode.immediate width reg).byte :: stream)).rest := by
  obtain ⟨r, outcome, known⟩ := instruction_eq_ok_iff.mp decoded
  have completes := Phase.completes_ofLead ⟨width, reg, .immediate 0⟩
  have fits : (OpCode.immediate width reg).Fits := small
  rcases offers_or_lacks width.bytes stream with
    ⟨data, rest, size, rfl⟩ | ⟨data, tail, rest, short, rfl, missing⟩
  · obtain ⟨complete, left⟩ :=
      record_of_run fits fun events => completes.found rest events size
    obtain rfl := Except.ok.inj (complete.symm.trans outcome)
    have few : data.length ≤ 2 := by cases width <;> exact size ▸ by decide
    rw [rest_instruction, left]
    cases Record.instruction_eq_ok_iff.mp known with
    | immediate _ register value =>
      refine ⟨register, _, data, rfl, rfl, size, ?_, rfl⟩
      exact LittleEndian.toNat_ofNat_toNat few
  · obtain ⟨failed, -⟩ :=
      record_of_run fits fun events => completes.missing events short missing
    cases failed.symm.trans outcome

/-- A word for a register takes up one byte more than a byte for it, which is its low byte. -/
theorem exists_high_of_immediate {reg : UInt8} (small : reg ≤ 7) {stream : ByteStream}
    {i j : Instruction} :
    let narrow := instruction (.byte (OpCode.immediate .byte reg).byte :: stream)
    let wide := instruction (.byte (OpCode.immediate .word reg).byte :: stream)
    narrow.outcome = .ok i → wide.outcome = .ok j →
      ∃ register low constant high,
        i = ⟨.register register .byte, .immediate low⟩ ∧
        j = ⟨.register register .word, .immediate constant⟩ ∧
        constant.toNat % 256 = low.toNat % 256 ∧ narrow.rest = .byte high :: wide.rest := by
  intro narrow wide decoded decoded'
  obtain ⟨register, low, data, named, rfl, size, number, split⟩ :=
    exists_data_of_immediate small decoded
  obtain ⟨register', constant, data', named', rfl, size', number', split'⟩ :=
    exists_data_of_immediate small decoded'
  obtain rfl : register = register' := Register.code_inj.mp (named.trans named'.symm)
  match data, data', size, size' with
  | [first], [first', second], _, _ =>
    -- Both constants begin with the byte behind the op code.
    obtain ⟨same, behind⟩ := List.cons.inj (split.symm.trans split')
    obtain rfl : first = first' := Slot.byte.inj same
    refine ⟨register, low, constant, second, rfl, rfl, ?_, behind⟩
    rw [number, number']
    simp only [LittleEndian.toNat]
    omega

/-- The flags of an op code act alone. The other direction exchanges the operands of a move between a
register and a register or memory, and the other width resizes its registers; neither changes what the
move is made of otherwise, the slots that are left, or how the cycle fails. Of two op codes of a
constant that differ in the width alone, the wider one takes one byte more, as the high byte of the
constant for the same register. -/
theorem flags_act_alone :
    (∀ (value : UInt8) (stream : ByteStream), 0x88 ≤ value → value ≤ 0x8B →
      let here := instruction (.byte value :: stream)
      let turned := instruction (.byte (value ^^^ 2) :: stream)
      let resized := instruction (.byte (value ^^^ 1) :: stream)
      (turned.outcome = here.outcome.map Instruction.exchanged ∧ turned.rest = here.rest) ∧
        resized.outcome = here.outcome.map Instruction.resized ∧ resized.rest = here.rest) ∧
    ∀ (value : UInt8) (stream : ByteStream) (i j : Instruction), 0xB0 ≤ value → value ≤ 0xB7 →
      let narrow := instruction (.byte value :: stream)
      let wide := instruction (.byte (value ^^^ 8) :: stream)
      narrow.outcome = .ok i → wide.outcome = .ok j →
        ∃ register low constant high,
          i = ⟨.register register .byte, .immediate low⟩ ∧
          j = ⟨.register register .word, .immediate constant⟩ ∧
          constant.toNat % 256 = low.toNat % 256 ∧ narrow.rest = .byte high :: wide.rest := by
  constructor
  · intro value stream least greatest here turned resized
    obtain ⟨toRegister, width, rfl⟩ := OpCode.exists_registerOrMemory least greatest
    have direction := instruction_of_flags toRegister (!toRegister) width width
      Record.StandsFor.exchanged stream
    have size := instruction_of_flags toRegister toRegister width width.other
      Record.StandsFor.resized stream
    rw [← OpCode.byte_xor_direction] at direction
    rw [← OpCode.byte_xor_width] at size
    exact ⟨direction, size⟩
  · intro value stream i j least greatest narrow wide decoded decoded'
    obtain ⟨reg, small, rfl, other⟩ := OpCode.exists_immediate least greatest
    have wider : wide = instruction (.byte (OpCode.immediate .word reg).byte :: stream) := by
      rw [other]
    rw [wider] at decoded' ⊢
    exact exists_high_of_immediate small decoded decoded'

/-- A copy of `bx` to the memory at `[si - 3]`, and a constant of one byte and of two. -/
theorem flags_act_alone_displaced :
    let store : ByteStream := ofBytes [0x89, 0x5C, 0xFD]
    let load : ByteStream := ofBytes [0x8B, 0x5C, 0xFD]
    let narrow : ByteStream := ofBytes [0x88, 0x5C, 0xFD]
    let constant (value : UInt8) : ByteStream := .byte value :: ofBytes [5, 1]
    (instruction store).outcome = .ok ⟨.indirect .si (-3), .register .blBx .word⟩ ∧
      (instruction load).outcome = .ok ⟨.register .blBx .word, .indirect .si (-3)⟩ ∧
      (instruction narrow).outcome = .ok ⟨.indirect .si (-3), .register .blBx .byte⟩ ∧
      ∃ high, (instruction (constant 0xB1)).rest = .byte high :: (instruction (constant 0xB9)).rest := by
  intro store load narrow constant
  have stored : (instruction store).outcome =
      .ok ⟨.indirect .si (-3), .register .blBx .word⟩ := by decide +kernel
  obtain ⟨⟨turned, -⟩, resized, -⟩ :=
    flags_act_alone.1 0x89 (ofBytes [0x5C, 0xFD]) (by decide) (by decide)
  rw [show instruction (.byte 0x89 :: ofBytes [0x5C, 0xFD]) = instruction store from rfl, stored]
    at turned resized
  refine ⟨stored, turned, resized, ?_⟩
  have decoded : (instruction (constant 0xB1)).outcome =
      .ok ⟨.register .clCx .byte, .immediate 5⟩ := by decide +kernel
  have decoded' : (instruction (constant (0xB1 ^^^ 8))).outcome =
      .ok ⟨.register .clCx .word, .immediate 261⟩ := by decide +kernel
  obtain ⟨_, _, _, high, -, -, -, behind⟩ :=
    flags_act_alone.2 0xB1 (ofBytes [5, 1]) _ _ (by decide) (by decide) decoded decoded'
  exact ⟨high, behind⟩

end Cycle

end Mov8086
