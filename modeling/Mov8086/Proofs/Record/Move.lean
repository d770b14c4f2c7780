import Mov8086.Proofs.Instruction
import Mov8086.Proofs.Record

/-!
The moves that records stand for. Each form of a record has its own kind of move, from which the
fields of the record are read back but for what the move does not depend on: the order in which two
registers are named, a displacement that is not used, and the room that a displacement takes up.
-/

set_option autoImplicit false

namespace Mov8086

namespace Record

/-- The operand that a mode and its code name. A register takes no notice of the displacement, and
one that is absent counts as zero. -/
inductive Names (width : Width) : ModRm → Option Int16 → Operand → Prop where
  | register (register : Register) (displacement : Option Int16) :
      Names width ⟨.register, register.code⟩ displacement (.register register width)
  | direct (displacement : Option Int16) :
      Names width ⟨.memory, AddressBase.directCode⟩ displacement
        (.direct (displacement.getD 0).toUInt16)
  | indirect {mode : Mode} {base : AddressBase} (memory : mode ≠ .register)
      (summed : (⟨mode, base.code⟩ : ModRm).isDirect = false) (displacement : Option Int16) :
      Names width ⟨mode, base.code⟩ displacement (.indirect base (displacement.getD 0))

/-- The move that a record stands for. -/
inductive StandsFor : Record → Instruction → Prop where
  | immediate (width : Width) (register : Register) (value : UInt16) :
      StandsFor ⟨width, register.code, .immediate value⟩
        ⟨.register register width, .immediate value⟩
  | load (width : Width) (register : Register) {m : ModRm} {displacement : Option Int16}
      {operand : Operand} (names : Names width m displacement operand) :
      StandsFor ⟨width, register.code, .registerOrMemory true m displacement⟩
        ⟨.register register width, operand⟩
  | store (width : Width) (register : Register) {m : ModRm} {displacement : Option Int16}
      {operand : Operand} (names : Names width m displacement operand) :
      StandsFor ⟨width, register.code, .registerOrMemory false m displacement⟩
        ⟨operand, .register register width⟩

/-! ### Looking codes up -/

theorem registerOperand_eq_ok_iff {r : Record} {code : UInt8} {operand : Operand} :
    r.registerOperand code = .ok operand ↔
      ∃ register : Register, code = register.code ∧ operand = .register register r.width := by
  rw [registerOperand]
  rcases named : Register.ofCode code with cause | register
  · constructor
    · rintro ⟨⟩
    · rintro ⟨register, rfl, -⟩
      rw [Register.ofCode_code] at named
      cases named
  · obtain rfl := Register.ofCode_eq_ok_iff.mp named
    constructor
    · rintro ⟨⟩
      exact ⟨register, rfl, rfl⟩
    · rintro ⟨register', same, rfl⟩
      rw [Register.code_inj.mp same]
      rfl

theorem Names.registerOrMemoryOperand_eq {r : Record} {m : ModRm} {displacement : Option Int16}
    {operand : Operand} (names : Names r.width m displacement operand) :
    r.registerOrMemoryOperand m displacement = .ok operand := by
  cases names with
  | register register => exact registerOperand_eq_ok_iff.mpr ⟨register, rfl, rfl⟩
  | direct => rfl
  | @indirect mode base memory summed =>
    have based := AddressBase.ofCode_code base
    cases mode with
    | register => exact absurd rfl memory
    | memory | memoryByte | memoryWord =>
      simp only [registerOrMemoryOperand, summed, based]
      rfl

theorem Names.of_registerOrMemoryOperand_eq {r : Record} {m : ModRm}
    {displacement : Option Int16} {operand : Operand}
    (found : r.registerOrMemoryOperand m displacement = .ok operand) :
    Names r.width m displacement operand := by
  obtain ⟨mode, rm⟩ := m
  unfold registerOrMemoryOperand at found
  split at found
  · next isRegister =>
    obtain rfl : mode = .register := isRegister
    obtain ⟨register, rfl, rfl⟩ := registerOperand_eq_ok_iff.mp found
    exact .register register displacement
  · next memory =>
    split at found
    · next isDirect =>
      obtain ⟨rfl, rfl⟩ : mode = .memory ∧ rm = AddressBase.directCode := by
        simpa [ModRm.isDirect] using isDirect
      cases found
      exact .direct displacement
    · next summed =>
      rcases based : AddressBase.ofCode rm with cause | base
      · rw [based] at found
        cases found
      · obtain rfl := AddressBase.ofCode_eq_ok_iff.mp based
        rw [based] at found
        cases found
        exact .indirect memory (Bool.eq_false_iff.mpr summed) displacement

/-- A record is resolved to the move that it stands for, and to no other. -/
theorem instruction_eq_ok_iff {r : Record} {i : Instruction} :
    r.instruction = .ok i ↔ StandsFor r i := by
  constructor
  · intro known
    obtain ⟨width, reg, form⟩ := r
    rcases named : registerOperand ⟨width, reg, form⟩ reg with cause | operand
    · simp only [instruction, named] at known
      cases known
    · obtain ⟨register, rfl, rfl⟩ := registerOperand_eq_ok_iff.mp named
      cases form with
      | immediate value =>
        simp only [instruction, named] at known
        cases known
        exact .immediate width register value
      | registerOrMemory toRegister m displacement =>
        rcases found : registerOrMemoryOperand
            ⟨width, register.code, .registerOrMemory toRegister m displacement⟩ m displacement
          with cause | operand
        · simp only [instruction, named, found] at known
          cases known
        · have names := Names.of_registerOrMemoryOperand_eq found
          simp only [instruction, named, found] at known
          cases toRegister <;> cases known
          · exact .store width register names
          · exact .load width register names
  · intro stands
    cases stands with
    | immediate width register value =>
      simp only [instruction, registerOperand, Register.ofCode_code]
      rfl
    | @load width register m displacement operand names =>
      have found := names.registerOrMemoryOperand_eq
        (r := ⟨width, register.code, .registerOrMemory true m displacement⟩)
      simp only [instruction, found, registerOperand, Register.ofCode_code]
      rfl
    | @store width register m displacement operand names =>
      have found := names.registerOrMemoryOperand_eq
        (r := ⟨width, register.code, .registerOrMemory false m displacement⟩)
      simp only [instruction, found, registerOperand, Register.ofCode_code]
      rfl

/-! ### Reading fields back from a move -/

namespace Names

variable {width width' : Width} {m m' : ModRm} {displacement displacement' : Option Int16}
  {operand operand' : Operand} (names : Names width m displacement operand)
include names

theorem ne_immediate (value : UInt16) : operand ≠ .immediate value := by
  cases names <;> exact nofun

theorem eq_register_iff {register : Register} :
    operand = .register register width' ↔
      m.mode = .register ∧ width = width' ∧ m.rm = register.code := by
  cases names with
  | register => simp [Register.code_inj, and_comm]
  | direct => simp
  | indirect memory => simp [memory]

/-- Two registers are the same by width and code. Two memory operands are the same if their codes
and displacements are, unless one of them is a bare address and the other is not. -/
theorem eq_iff (names' : Names width' m' displacement' operand') :
    operand = operand' ↔
      m.mode = .register ∧ m'.mode = .register ∧ width = width' ∧ m.rm = m'.rm ∨
        m.mode ≠ .register ∧ m'.mode ≠ .register ∧ m.isDirect = m'.isDirect ∧ m.rm = m'.rm ∧
          displacement.getD 0 = displacement'.getD 0 := by
  have same {d d' : Int16} : d.toUInt16 = d'.toUInt16 ↔ d = d' :=
    ⟨fun h => by rw [← Int16.toInt16_toUInt16 d, h, Int16.toInt16_toUInt16], congrArg _⟩
  have isDirect : (⟨.memory, AddressBase.directCode⟩ : ModRm).isDirect = true := rfl
  cases names with
  | register =>
    rw [eq_comm, names'.eq_register_iff]
    simp [eq_comm, and_comm]
  | direct =>
    cases names' with
    | register => simp
    | direct => simp [same]
    | indirect memory summed => simp [isDirect, summed]
  | indirect memory summed =>
    cases names' with
    | register => simp [memory]
    | direct => simp [isDirect, summed]
    | indirect memory' summed' => simp [memory, memory', summed, summed', AddressBase.code_inj]

end Names

/-- Two records that are written alike: of one width, and with the same constant in the same
register, the same two registers, named in either order, or the same register and memory operand,
moved in the same direction. -/
def WrittenAlike (r s : Record) : Prop :=
  r.width = s.width ∧
    match r.form, s.form with
    | .immediate value, .immediate value' => r.reg = s.reg ∧ value = value'
    | .registerOrMemory toRegister m displacement,
      .registerOrMemory toRegister' m' displacement' =>
      m.mode = .register ∧ m'.mode = .register ∧
          (toRegister = toRegister' ∧ r.reg = s.reg ∧ m.rm = m'.rm ∨
            toRegister ≠ toRegister' ∧ r.reg = m'.rm ∧ m.rm = s.reg) ∨
        m.mode ≠ .register ∧ m'.mode ≠ .register ∧ m.isDirect = m'.isDirect ∧
          toRegister = toRegister' ∧ r.reg = s.reg ∧ m.rm = m'.rm ∧
            displacement.getD 0 = displacement'.getD 0
    | _, _ => False

/-- Records stand for the same move exactly when they are written alike. -/
theorem StandsFor.eq_iff {r s : Record} {i j : Instruction} (left : StandsFor r i)
    (right : StandsFor s j) : i = j ↔ WrittenAlike r s := by
  cases left with
  | immediate _ _ value =>
    cases right with
    | immediate =>
      simp only [WrittenAlike, Instruction.mk.injEq, Operand.register.injEq, Operand.immediate.injEq,
        Register.code_inj]
      tauto
    | load _ _ names => simp [WrittenAlike, (names.ne_immediate value).symm]
    | store => simp [WrittenAlike]
  | load _ _ names =>
    cases right with
    | immediate => simp [WrittenAlike, names.ne_immediate]
    | load _ _ names' =>
      simp only [WrittenAlike, Instruction.mk.injEq, Operand.register.injEq, Register.code_inj,
        names.eq_iff names']
      tauto
    | store _ _ names' =>
      rw [Instruction.mk.injEq, names.eq_register_iff, eq_comm (a := Operand.register _ _),
        names'.eq_register_iff]
      simp only [WrittenAlike]
      grind
  | store _ _ names =>
    cases right with
    | immediate => simp [WrittenAlike]
    | load _ _ names' =>
      rw [Instruction.mk.injEq, names.eq_register_iff, eq_comm (a := Operand.register _ _),
        names'.eq_register_iff]
      simp only [WrittenAlike]
      grind
    | store _ _ names' =>
      simp only [WrittenAlike, Instruction.mk.injEq, Operand.register.injEq, Register.code_inj,
        names.eq_iff names']
      tauto

theorem WrittenAlike.family_eq {r s : Record} (alike : WrittenAlike r s) : r.family = s.family := by
  obtain ⟨width, reg, _ | _⟩ := r <;> obtain ⟨width', reg', _ | _⟩ := s
  · rfl
  · exact absurd alike.2 id
  · exact absurd alike.2 id
  · rfl

section Memory

variable {r s : Record} {toRegister toRegister' : Bool} {m m' : ModRm}
  {displacement displacement' : Option Int16}
  (left : r.form = .registerOrMemory toRegister m displacement)
  (right : s.form = .registerOrMemory toRegister' m' displacement')
include left right

theorem WrittenAlike.isDirect_eq (alike : WrittenAlike r s) : m.isDirect = m'.isDirect := by
  have same := alike.2
  rw [left, right] at same
  rcases same with ⟨isRegister, isRegister', -⟩ | ⟨-, -, isDirect, -⟩
  · simp [ModRm.isDirect, isRegister, isRegister']
  · exact isDirect

theorem writtenAlike_memory_iff (memory : m.mode ≠ .register) :
    WrittenAlike r s ↔
      r.width = s.width ∧ m'.mode ≠ .register ∧ m.isDirect = m'.isDirect ∧
        toRegister = toRegister' ∧ r.reg = s.reg ∧ m.rm = m'.rm ∧
          displacement.getD 0 = displacement'.getD 0 := by
  simp only [WrittenAlike, left, right, memory, false_and, false_or, ne_eq, not_false_eq_true,
    true_and]

end Memory

/-- Two records whose codes fit are written as the same text exactly when they are written alike.
So records of different families never are, and neither are a bare address and a sum of registers;
among sums of registers the mode shows in nothing but the value of the displacement. -/
theorem text_eq_iff_writtenAlike {r s : Record} (fit : r.CodesFit) (fit' : s.CodesFit) :
    ∃ i j, r.instruction = .ok i ∧ s.instruction = .ok j ∧
      (i.text = j.text ↔ WrittenAlike r s) ∧
      (r.family ≠ s.family → i.text ≠ j.text) ∧
      ∀ toRegister toRegister' m m' displacement displacement',
        r.form = .registerOrMemory toRegister m displacement →
          s.form = .registerOrMemory toRegister' m' displacement' →
          (m.isDirect ≠ m'.isDirect → i.text ≠ j.text) ∧
          (r.width = s.width → r.reg = s.reg → toRegister = toRegister' → m.rm = m'.rm →
            m.mode ≠ .register → m'.mode ≠ .register → m.isDirect = false → m'.isDirect = false →
              (i.text = j.text ↔ displacement.getD 0 = displacement'.getD 0)) := by
  obtain ⟨i, known⟩ := exists_instruction fit
  obtain ⟨j, known'⟩ := exists_instruction fit'
  have same : i.text = j.text ↔ WrittenAlike r s :=
    Instruction.text_inj.trans
      ((instruction_eq_ok_iff.mp known).eq_iff (instruction_eq_ok_iff.mp known'))
  refine ⟨i, j, known, known', same, ?_, ?_⟩
  · exact fun differ alike => differ (same.mp alike).family_eq
  · intro toRegister toRegister' m m' displacement displacement' left right
    constructor
    · exact fun differ alike => differ ((same.mp alike).isDirect_eq left right)
    · intro width reg direction rm memory memory' summed summed'
      rw [same, writtenAlike_memory_iff left right memory]
      simp [width, reg, direction, rm, memory', summed, summed']

/-- Two registers, named in either order; a displacement does not matter to them. -/
theorem text_eq_iff_writtenAlike_registers :
    let r : Record := ⟨.word, 1, .registerOrMemory true ⟨.register, 3⟩ (some 5)⟩
    let s : Record := ⟨.word, 3, .registerOrMemory false ⟨.register, 1⟩ none⟩
    r.CodesFit ∧ s.CodesFit ∧
      ∃ i j, r.instruction = .ok i ∧ s.instruction = .ok j ∧ i.text = j.text := by
  intro r s
  have fit : r.CodesFit := ⟨by decide, by decide⟩
  have fit' : s.CodesFit := ⟨by decide, by decide⟩
  have alike : WrittenAlike r s := ⟨rfl, .inl ⟨rfl, rfl, .inr ⟨by decide, rfl, rfl⟩⟩⟩
  obtain ⟨i, j, known, known', same, -⟩ := text_eq_iff_writtenAlike fit fit'
  exact ⟨fit, fit', i, j, known, known', same.mpr alike⟩

end Record

end Mov8086
