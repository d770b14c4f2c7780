import Mov8086.Cycle
import Mov8086.Proofs.Record

/-!
Cycles without faults. A code that is taken out of a byte fits the bits that it is taken from. Every
step of a cycle keeps the codes within three bits, so none of them is looked up in vain, whatever the
source is.
-/

set_option autoImplicit false

namespace Mov8086

/-- No fault, and a value with the given property if there is one. -/
inductive Faultless {α : Type} (holds : α → Prop) : Except DecodeError α → Prop where
  | ok {value : α} (held : holds value) : Faultless holds (.ok value)
  | error {error : DecodeError} (expected : ∀ cause, error ≠ .fault cause) :
      Faultless holds (.error error)

namespace Faultless

variable {α β : Type} {holds : α → Prop} {holds' : β → Prop} {outcome : Except DecodeError α}

theorem ne_fault (faultless : Faultless holds outcome) (cause : Fault) :
    outcome ≠ .error (.fault cause) := by
  rintro rfl
  cases faultless with
  | error expected => exact expected cause rfl

theorem of_ok {value : α} (faultless : Faultless holds (.ok value)) : holds value := by
  cases faultless with
  | ok held => exact held

theorem imp {holds' : α → Prop} (faultless : Faultless holds outcome)
    (stronger : ∀ value, holds value → holds' value) : Faultless holds' outcome := by
  cases faultless with
  | ok held => exact .ok (stronger _ held)
  | error expected => exact .error expected

theorem map {f : α → β} (faultless : Faultless holds outcome)
    (kept : ∀ value, holds value → holds' (f value)) : Faultless holds' (outcome.map f) := by
  cases faultless with
  | ok held => exact .ok (kept _ held)
  | error expected => exact .error expected

end Faultless

namespace Reading

variable {σ α β : Type} {holds : α → Prop} {holds' : β → Prop}

/-- The reading ends without a fault on every source, and what it reads has the property. -/
def Ensures (holds : α → Prop) (reading : Reading σ α) : Prop :=
  ∀ source, Faultless holds (reading.on source).1

theorem ensures_pure {value : α} (held : holds value) :
    Ensures holds (pure value : Reading σ α) :=
  fun _ => .ok held

theorem ensures_ofExcept {outcome : Except DecodeError α} (faultless : Faultless holds outcome) :
    Ensures holds (ofExcept outcome : Reading σ α) := by
  intro source
  rw [on_ofExcept]
  exact faultless

theorem Ensures.bind {reading : Reading σ α} {next : α → Reading σ β}
    (first : Ensures holds reading) (later : ∀ value, holds value → Ensures holds' (next value)) :
    Ensures holds' (reading >>= next) := by
  intro source
  have here := first source
  rw [on_bind]
  rcases ran : reading.on source with ⟨outcome, rest⟩
  rw [ran] at here
  cases here with
  | ok held => exact later _ held rest
  | error expected => exact .error expected

variable [ByteSource σ]

theorem ensures_byteOr {missing : DecodeError} (expected : ∀ cause, missing ≠ .fault cause) :
    Ensures (fun _ => True) (byteOr missing : Reading σ UInt8) := by
  intro source
  rw [on_byteOr]
  split
  · exact .ok trivial
  · exact .error expected

theorem ensures_byte : Ensures (fun _ => True) (byte : Reading σ UInt8) :=
  ensures_byteOr nofun

theorem ensures_word : Ensures (fun _ => True) (word : Reading σ UInt16) :=
  ensures_byte.bind fun _ _ => ensures_byte.bind fun _ _ => ensures_pure trivial

theorem ensures_immediate (width : Width) :
    Ensures (fun _ => True) (immediate width : Reading σ UInt16) := by
  cases width with
  | byte => exact ensures_byte.bind fun _ _ => ensures_pure trivial
  | word => exact ensures_word

theorem ensures_displacement (size : Nat) :
    Ensures (fun _ => True) (displacement size : Reading σ Int16) := by
  match size with
  | 0 => exact ensures_pure trivial
  | 1 => exact ensures_byte.bind fun _ _ => ensures_pure trivial
  | _ + 2 => exact ensures_word.bind fun _ _ => ensures_pure trivial

end Reading

theorem OpCode.faultless_ofByte (byte : UInt8) : Faultless OpCode.Fits (OpCode.ofByte byte) := by
  rcases read : OpCode.ofByte byte with error | code
  · obtain ⟨-, rfl⟩ := OpCode.ofByte_eq_error_iff.mp read
    exact .error nofun
  · exact .ok (OpCode.ofByte_eq_ok_iff.mp read).1

theorem ModRm.faultless_ofByte (byte : UInt8) :
    Faultless (fun m => m.rm ≤ 7) ((ModRm.ofByte byte).mapError .fault) := by
  obtain ⟨reg, m, regSmall, rmSmall, rfl⟩ := ModRm.exists_byte byte
  rw [ModRm.ofByte_byte regSmall rmSmall]
  exact .ok rmSmall

namespace Phase

/-- The codes that the phase holds fit three bits each. -/
def CodesFit : Phase → Prop
  | opCode => True
  | immediate _ reg => reg ≤ 7
  | modRm .. => True
  | displacement _ _ reg m => reg ≤ 7 ∧ m.rm ≤ 7
  | complete record => record.CodesFit

theorem codesFit_ofOpCode {code : OpCode} (fits : code.Fits) : (ofOpCode code).CodesFit := by
  cases code with
  | immediate width reg => exact fits
  | registerOrMemory => trivial

variable {σ : Type} [ByteSource σ]

/-- A step keeps the codes within three bits, and looks none up in vain. -/
theorem ensures_step {phase : Phase} (fit : phase.CodesFit) :
    Reading.Ensures CodesFit (step phase : Reading (Logged σ) Phase) := by
  cases phase with
  | opCode =>
    have first : Reading.Ensures (fun _ => True)
        (Reading.byteOr .endOfInput : Reading (Logged σ) UInt8) := Reading.ensures_byteOr nofun
    refine first.bind fun byte _ => ?_
    refine (Reading.ensures_ofExcept (OpCode.faultless_ofByte byte)).bind fun code fits => ?_
    have reported : Reading.Ensures (fun _ => True)
        (Logged.report (.classified byte code) : Reading (Logged σ) Unit) := fun _ => .ok trivial
    exact reported.bind fun _ _ => Reading.ensures_pure (codesFit_ofOpCode fits)
  | immediate width reg =>
    exact (Reading.ensures_immediate width).bind fun _ _ => Reading.ensures_pure ⟨fit, trivial⟩
  | modRm toRegister width =>
    refine Reading.ensures_byte.bind fun byte _ => ?_
    refine (Reading.ensures_ofExcept (ModRm.faultless_ofByte byte)).bind fun m small => ?_
    exact Reading.ensures_pure ⟨(ModRm.extract_le byte).2.1, small⟩
  | displacement toRegister width reg m =>
    simp only [step]
    split
    · exact Reading.ensures_pure fit
    · exact (Reading.ensures_displacement _).bind fun _ _ => Reading.ensures_pure fit
  | complete record => exact Reading.ensures_pure fit

theorem faultless_run {phase : Phase} (fit : phase.CodesFit) (logged : Logged σ) :
    Faultless Record.CodesFit (run phase logged).1 := by
  fun_induction run phase logged with
  | case1 phase logged record finished =>
    obtain rfl : phase = complete record := by cases phase <;> simp_all [record?]
    exact .ok fit
  | case2 phase logged pending error after stepped =>
    have ensured := ensures_step fit logged
    rw [stepped] at ensured
    cases ensured with
    | error expected => exact .error expected
  | case3 phase logged pending next after stepped ih =>
    have ensured := ensures_step fit logged
    rw [stepped] at ensured
    exact ih ensured.of_ok

end Phase

namespace Cycle

variable {σ : Type} [ByteSource σ]

/-- A cycle ends without a fault, and the codes of a record that it finds fit three bits each. -/
theorem faultless_record (source : σ) : Faultless Record.CodesFit (record source).outcome :=
  Phase.faultless_run (show Phase.opCode.CodesFit from trivial) ⟨source, []⟩

theorem faultless_instruction (source : σ) :
    Faultless (fun _ => True) (instruction source).outcome := by
  have ended := faultless_record source
  rcases outcome : (record source).outcome with error | r
  · rw [outcome] at ended
    rw [instruction_of_error outcome]
    exact .error fun cause same => ended.ne_fault cause (congrArg _ same)
  · rw [outcome] at ended
    obtain ⟨i, known⟩ := Record.exists_instruction ended.of_ok
    rw [instruction_of_ok outcome, known]
    exact .ok trivial

theorem outcome_ne_fault (source : σ) (cause : Fault) :
    (record source).outcome ≠ .error (.fault cause) :=
  (faultless_record source).ne_fault cause

end Cycle

end Mov8086
