import Mov8086.Cycle.Script
import Mov8086.Proofs.Command.Report
import Mov8086.Proofs.Decoder.Script
import Mov8086.Proofs.Record.Move

/-!
Where faults arise. Whatever is done with a stream, a decoder or the data of a file, no code is
looked up that its table does not have, no byte is shifted by more than its bits, and no position
runs past the bytes that there are. Only a record that is put together by hand can hold a code that
stands for nothing.
-/

set_option autoImplicit false

namespace Mov8086

open ByteStream

namespace BitField

/-- The fields of the leading bytes. -/
def all : List BitField :=
  [immediateOpCode, immediateWidth, immediateRegister, registerOrMemoryOpCode, direction, width,
    mode, register, registerOrMemory]

/-- Each field is the one that its mask implies. -/
theorem ofMask_of_mem {field : BitField} (member : field ∈ all) : ofMask field.mask = .ok field := by
  revert field
  decide

/-- No field is moved past the end of a byte. -/
theorem select_eq (field : BitField) (byte : UInt8) :
    select byte field.mask (UInt8.ofNat field.shift) = .ok (field.extract byte) := by
  have within : UInt8.ofNat field.shift < 8 := by
    have small := field.shift.isLt
    rw [UInt8.lt_iff_toNat_lt, UInt8.toNat_ofNat_of_lt' (Nat.lt_trans small (by decide))]
    exact small
  rw [select, if_pos within]
  rfl

end BitField

namespace Record

theorem StandsFor.codesFit {r : Record} {i : Instruction} (stands : StandsFor r i) :
    r.CodesFit := by
  have named {width : Width} {m : ModRm} {displacement : Option Int16} {operand : Operand}
      (names : Names width m displacement operand) : m.rm ≤ 7 := by
    cases names with
    | register register => exact register.code_le
    | direct => decide
    | @indirect _ base => exact base.code_le
  cases stands with
  | immediate width register => exact ⟨register.code_le, trivial⟩
  | load width register names => exact ⟨register.code_le, named names⟩
  | store width register names => exact ⟨register.code_le, named names⟩

theorem codesFit_iff {r : Record} :
    r.CodesFit ↔ ¬(7 < r.reg ∨ ∃ toRegister m displacement,
      r.form = .registerOrMemory toRegister m displacement ∧ 7 < m.rm) := by
  obtain ⟨width, reg, ⟨toRegister, m, displacement⟩ | value⟩ := r
  · simp [CodesFit]
  · simp [CodesFit]

/-- A record stands for a move exactly if its codes fit three bits each. -/
theorem exists_fault_iff {r : Record} : (∃ cause, r.instruction = .error cause) ↔ ¬r.CodesFit := by
  constructor
  · rintro ⟨cause, failed⟩ fit
    obtain ⟨i, known⟩ := exists_instruction fit
    cases failed.symm.trans known
  · intro unfit
    rcases known : r.instruction with cause | i
    · exact ⟨cause, rfl⟩
    · exact absurd (instruction_eq_ok_iff.mp known).codesFit unfit

end Record

namespace Pull

/-- The answer is no fault; a record in it has codes of three bits each, and stands for a move. -/
def Answer.Sound : Answer → Prop
  | .record outcome => Faultless (fun r => r.CodesFit ∧ ∃ i, r.instruction = .ok i) outcome
  | .instruction outcome => Faultless (fun _ => True) outcome
  | .byte _ => True
  | .run _ => True

theorem sound_perform (pull : Pull) (stream : ByteStream) : (perform pull stream).1.Sound := by
  cases pull with
  | record =>
    have ended := Cycle.faultless_record stream
    exact ended.imp fun r fit => ⟨fit, Record.exists_instruction fit⟩
  | instruction => exact Cycle.faultless_instruction stream
  | byte => trivial
  | run => trivial

end Pull

namespace Decoder

/-- No outcome in the answer is a fault. -/
def Answer.Sound : Answer → Prop
  | .outcome ended => Faultless (fun _ => True) ended
  | .found ended? => ∀ ended ∈ ended?, Faultless (fun _ => True) ended
  | .number _ => True
  | .outcomes all => ∀ ended ∈ all, Faultless (fun _ => True) ended
  | .items collected => Faultless (fun _ => True) collected
  | .nothing => True

theorem faultless_attempt (decoder : Decoder) :
    Faultless (fun _ => True) decoder.attempt.1.outcome := by
  rw [outcome_attempt]
  exact (Cycle.faultless_instruction decoder.source).map fun _ _ => trivial

theorem faultless_of_mem_block {decoder : Decoder} {first size : Nat}
    {outcome : Except DecodeError Item} (member : outcome ∈ decoder.block first size) :
    Faultless (fun _ => True) outcome := by
  obtain ⟨call, -, rfl⟩ := List.mem_map.mp member
  exact faultless_attempt _

section Takes

variable {found taken : List (Except DecodeError Item)}

theorem Drained.mem {outcome : Except DecodeError Item} (drained : Drained found taken)
    (member : outcome ∈ found) : outcome ∈ taken := by
  rw [drained.eq]
  exact List.mem_append_left _ member

theorem Drawn.mem {n : Nat} {outcome : Except DecodeError Item} (drawn : Drawn n found taken)
    (member : outcome ∈ found) : outcome ∈ taken := by
  cases drawn with
  | full => exact member
  | short drained => exact drained.mem member

/-- An answer holds only outcomes that were taken for it. -/
theorem Use.Takes.sound {use : Use} {answer : Answer} (takes : use.Takes taken answer)
    (faultless : ∀ outcome ∈ taken, Faultless (fun _ => True) outcome) : answer.Sound := by
  cases takes with
  | attempt outcome => exact faultless outcome List.mem_cons_self
  | next drawn => exact fun outcome first => faultless outcome (drawn.mem (List.mem_of_head? first))
  | nth drawn =>
    exact fun outcome place => faultless outcome (drawn.mem (List.mem_of_getElem? place))
  | take drawn => exact fun outcome member => faultless outcome (drawn.mem member)
  | last drained =>
    exact fun outcome last => faultless outcome (drained.mem (List.mem_of_getLast? last))
  | count => trivial
  | all drained => exact fun outcome member => faultless outcome (drained.mem member)
  | collect items => exact .ok trivial
  | @collect_failed items error failed =>
    have ended := faultless (.error error) List.mem_concat_self
    exact .error fun cause same => ended.ne_fault cause (congrArg _ same)
  | position => trivial

end Takes

theorem position_after_le (stream : ByteStream) (calls : Nat) :
    ((ofStream stream).after calls).position ≤ (bytes stream).length := by
  have taken := congrArg (fun stream => (bytes stream).length)
    (takenIn_append (ofStream stream) calls)
  have position := position_after (ofStream stream) calls
  simp only [ofStream, bytes_append, List.length_append] at taken position ⊢
  omega

theorem sound_of_mem_script {stream : ByteStream} {uses : List Use} {done : Answer × Decoder}
    (member : done ∈ script perform uses (ofStream stream)) :
    done.1.Sound ∧ done.2.position ≤ (bytes stream).length := by
  obtain ⟨calls, follows, -⟩ := exists_follows (ofStream stream) uses 0
  obtain ⟨use, start, size, takes, left⟩ := follows.exists_block done member
  rw [left]
  exact ⟨takes.sound fun _ => faultless_of_mem_block, position_after_le stream _⟩

end Decoder

/-- The magnitude of a displacement is written in full: it fits a word. -/
theorem Operand.exists_displacementText (d : Int16) :
    ∃ n < 65536, displacementText d = "" ∨ displacementText d = " + " ++ Numeral.decimal n ∨
      displacementText d = " - " ++ Numeral.decimal n := by
  obtain rfl | ⟨n, least, greatest, rfl⟩ | ⟨n, least, greatest, rfl⟩ := displacement_cases d
  · exact ⟨0, by decide, .inl displacementText_zero⟩
  · exact ⟨n, by omega, .inr (.inl (displacementText_pos least greatest))⟩
  · exact ⟨n, by omega, .inr (.inr (displacementText_neg least greatest))⟩

/-- Faults arise from codes put together by hand only. Nothing that is done with a stream ends in
one, and the records that cycles find have codes of three bits; nor does any use of a decoder, whose
position stays within the number of bytes, or a report on any data with any options. Mode codes have
two bits, each field is moved within its byte, and the magnitude of a displacement fits a word. A
record put together by hand stands for no move exactly if its register code has more than three bits,
or the code of its register or memory operand has, in whatever mode and with whatever displacement. -/
theorem faults_only_by_hand (stream : ByteStream) :
    (∀ pulls, ∀ done ∈ script Pull.perform pulls stream, done.1.Sound) ∧
    (∀ uses, ∀ done ∈ script Decoder.perform uses (Decoder.ofStream stream),
      done.1.Sound ∧ done.2.position ≤ (bytes stream).length) ∧
    (∀ options data offset cause,
      (Command.Report.ofLoaded options (.ok data)).failure ≠
        some (.decode ⟨offset, .fault cause⟩)) ∧
    (∀ byte, BitField.mode.extract byte ≤ 3 ∧
      ∀ field ∈ BitField.all, BitField.ofMask field.mask = .ok field ∧
        BitField.select byte field.mask (UInt8.ofNat field.shift) = .ok (field.extract byte)) ∧
    (∀ d, ∃ n < 65536, Operand.displacementText d = "" ∨
      Operand.displacementText d = " + " ++ Numeral.decimal n ∨
        Operand.displacementText d = " - " ++ Numeral.decimal n) ∧
    ∀ r : Record, (∃ cause, r.instruction = .error cause) ↔
      7 < r.reg ∨ ∃ toRegister m displacement,
        r.form = .registerOrMemory toRegister m displacement ∧ 7 < m.rm := by
  refine ⟨?_, ?_, ?_, ?_, Operand.exists_displacementText, ?_⟩
  · exact fun pulls => forall_mem_script Pull.perform Pull.sound_perform pulls stream
  · exact fun _ _ => Decoder.sound_of_mem_script
  · intro options data offset cause failed
    obtain ⟨words, rest, course⟩ := Course.exists_course options.keepGoing data
    obtain ⟨-, stuck⟩ := (Command.Report.failure_eq_decode_iff course).mp failed
    exact stuck.ne_fault cause rfl
  · intro byte
    refine ⟨(ModRm.extract_le byte).1, ?_⟩
    intro field member
    exact ⟨BitField.ofMask_of_mem member, field.select_eq byte⟩
  · intro r
    rw [Record.exists_fault_iff, Record.codesFit_iff, not_not]

/-- A load through `bp`, taken as a record and by a call, and its record with a register code of
four bits. -/
theorem faults_only_by_hand_bp :
    let r : Record := ⟨.word, 0, .registerOrMemory true ⟨.memoryByte, 6⟩ (some (-3))⟩
    let decoder := Decoder.ofStream (ofBytes r.encode ++ [])
    (Pull.Answer.record (.ok r)).Sound ∧ decoder.attempt.2.position ≤ 3 ∧
      BitField.ofMask BitField.mode.mask = .ok BitField.mode ∧
        ∃ cause, ({ r with reg := 8 } : Record).instruction = .error cause := by
  intro r decoder
  have ran := Cycle.record_encode (r := r) (by decide) []
  have pulled : (Pull.Answer.record (.ok r), []) ∈
      script Pull.perform [.record] (ofBytes r.encode ++ []) := by
    simp only [script, Pull.perform, ran]
    exact List.mem_singleton_self _
  have called : (.outcome decoder.attempt.1.outcome, decoder.attempt.2) ∈
      script Decoder.perform [.attempt] decoder := List.mem_singleton_self _
  obtain ⟨pulls, uses, -, fields, -, failing⟩ := faults_only_by_hand (ofBytes r.encode ++ [])
  refine ⟨pulls _ _ pulled, ?_, ((fields 0).2 BitField.mode (by decide)).1,
    (failing _).mpr (.inl (by decide))⟩
  have length : (bytes (ofBytes r.encode ++ [])).length = 3 := by decide
  exact (uses _ _ called).2.trans_eq length

end Mov8086
