import Mov8086.Proofs.Cycle.Faultless
import Mov8086.Proofs.Cycle.Turn

/-!
The outcomes of a cycle. Records and their bytes are inverse to each other, whatever follows the
bytes; the errors are told apart by the bytes in front of the first gap.
-/

set_option autoImplicit false

namespace Mov8086

open ByteStream

namespace Cycle

/-! ### Records and their bytes -/

theorem eq_encode_append_of_ok {stream : ByteStream} {r : Record}
    (complete : (record stream).outcome = .ok r) :
    r.WellFormed ∧ stream = ofBytes r.encode ++ (record stream).rest := by
  obtain ⟨events, rest, ran, turn⟩ := turn_of_outcome complete
  rw [ran]
  cases turn with
  | complete wf => exact ⟨wf, rfl⟩

/-- The bytes of records form a prefix code, with anything behind them. -/
theorem encode_append_inj {r r' : Record} (wf : r.WellFormed) (wf' : r'.WellFormed)
    {rest rest' : ByteStream} (same : ofBytes r.encode ++ rest = ofBytes r'.encode ++ rest') :
    r = r' ∧ rest = rest' := by
  have first := record_encode wf rest
  rw [same, record_encode wf' rest'] at first
  injection first with outcome _ left
  exact ⟨(Except.ok.inj outcome).symm, left.symm⟩

/-- Decoding a record and writing its bytes undo each other, and a cycle that decodes a record
takes exactly these bytes. -/
theorem record_inverts_encode :
    (∀ r : Record, r.WellFormed → ∀ rest : ByteStream,
      (record (ofBytes r.encode ++ rest)).outcome = .ok r ∧
        (record (ofBytes r.encode ++ rest)).rest = rest) ∧
    (∀ (stream : ByteStream) (r : Record), (record stream).outcome = .ok r →
      r.WellFormed ∧ stream = ofBytes r.encode ++ (record stream).rest) ∧
    ∀ (stream stream' taken taken' : ByteStream) (r : Record),
      (record stream).outcome = .ok r → stream = taken ++ (record stream).rest →
        stream' = taken' ++ (record stream').rest →
          ((record stream').outcome = .ok r ↔ taken' = taken) := by
  refine ⟨?_, ?_, ?_⟩
  · intro r wf rest
    rw [record_encode wf]
    exact ⟨rfl, rfl⟩
  · intro stream r complete
    exact eq_encode_append_of_ok complete
  · intro stream stream' taken taken' r complete held held'
    obtain ⟨wf, encoded⟩ := eq_encode_append_of_ok complete
    obtain rfl : taken = ofBytes r.encode := List.append_cancel_right (held.symm.trans encoded)
    constructor
    · intro complete'
      obtain ⟨-, encoded'⟩ := eq_encode_append_of_ok complete'
      exact List.append_cancel_right (held'.symm.trans encoded')
    · rintro rfl
      rw [held', record_encode wf]

theorem record_inverts_encode_displaced :
    let r : Record := ⟨.word, 1, .registerOrMemory true ⟨.memoryByte, 4⟩ (some (-3))⟩
    r.encode = [0x8B, 0x4C, 0xFD] ∧
      (record (ofBytes r.encode ++ [.gap, .byte 7])).outcome = .ok r ∧
        (record (ofBytes r.encode ++ [.gap, .byte 7])).rest = [.gap, .byte 7] :=
  ⟨by decide, record_inverts_encode.1 _ (by decide) _⟩

/-! ### Errors -/

/-- Bytes that a record begins with and goes on behind. -/
def Broken (run : List UInt8) : Prop :=
  run ≠ [] ∧ ∃ r : Record, r.WellFormed ∧ run <+: r.encode ∧ run ≠ r.encode

theorem endOfInput_iff {stream : ByteStream} :
    (record stream).outcome = .error .endOfInput ↔ stream.pullRun.1 = [] := by
  constructor
  · intro failed
    obtain ⟨_, rest, -, turn⟩ := turn_of_outcome failed
    cases turn with
    | ended missing =>
      have run := pullRun_ofBytes_append missing []
      exact congrArg Prod.fst run
  · intro nothing
    obtain ⟨tail, split, missing⟩ := pullRun_spec stream
    rw [nothing] at split
    rw [split, ofBytes_nil, List.nil_append, record_ended missing]

theorem endOfInput_ofBytes_iff {data : List UInt8} :
    (record (ofBytes data)).outcome = .error .endOfInput ↔ data = [] := by
  rw [endOfInput_iff, pullRun_ofBytes]

theorem unrecognized_iff {stream : ByteStream} {value : UInt8} :
    (record stream).outcome = .error (.unrecognized value) ↔
      stream.pullRun.1.head? = some value ∧ OpCode.Unknown value := by
  constructor
  · intro failed
    obtain ⟨_, rest, -, turn⟩ := turn_of_outcome failed
    cases turn with
    | unrecognized unknown =>
      have run := pullRun_append [value] rest
      exact ⟨congrArg List.head? run, unknown⟩
  · rintro ⟨first, unknown⟩
    obtain ⟨tail, split, -⟩ := pullRun_spec stream
    obtain ⟨later, run⟩ := List.head?_eq_some_iff.mp first
    rw [run, ofBytes_cons, List.cons_append] at split
    rw [split, record_unrecognized unknown]

theorem truncated_iff {stream : ByteStream} :
    (record stream).outcome = .error .truncated ↔ Broken stream.pullRun.1 := by
  constructor
  · intro failed
    obtain ⟨_, rest, -, turn⟩ := turn_of_outcome failed
    cases turn with
    | @truncated r wf front behind split begun unfinished tail rest missing =>
      rw [pullRun_ofBytes_append missing]
      refine ⟨begun, r, wf, ⟨behind, split.symm⟩, ?_⟩
      intro whole
      exact unfinished (List.self_eq_append_right.mp (whole.trans split))
  · rintro ⟨begun, r, wf, ⟨behind, split⟩, more⟩
    obtain ⟨tail, held, missing⟩ := pullRun_spec stream
    have unfinished : behind ≠ [] := by
      rintro rfl
      exact more (by rwa [List.append_nil] at split)
    rw [held, record_truncated wf split.symm begun unfinished missing]

/-! ### What a cycle takes -/

theorem eq_of_endOfInput {stream : ByteStream}
    (failed : (record stream).outcome = .error .endOfInput) :
    stream = .gap :: (record stream).rest ∨ stream = [] ∧ (record stream).rest = [] := by
  obtain ⟨_, rest, ran, turn⟩ := turn_of_outcome failed
  rw [ran]
  cases turn with
  | ended missing => exact pull_eq_none_iff.mp missing

theorem eq_of_unrecognized {stream : ByteStream} {value : UInt8}
    (failed : (record stream).outcome = .error (.unrecognized value)) :
    stream = .byte value :: (record stream).rest := by
  obtain ⟨_, rest, ran, turn⟩ := turn_of_outcome failed
  rw [ran]
  cases turn with
  | unrecognized => rfl

theorem eq_of_truncated {stream : ByteStream}
    (failed : (record stream).outcome = .error .truncated) :
    stream = ofBytes stream.pullRun.1 ++ .gap :: (record stream).rest ∨
      stream = ofBytes stream.pullRun.1 ∧ (record stream).rest = [] := by
  obtain ⟨_, rest, ran, turn⟩ := turn_of_outcome failed
  rw [ran]
  cases turn with
  | @truncated _ _ front _ _ _ _ tail _ missing =>
    rw [pullRun_ofBytes_append missing]
    rcases pull_eq_none_iff.mp missing with rfl | ⟨rfl, nothing⟩
    · exact .inl rfl
    · exact .inr ⟨List.append_nil _, nothing⟩

/-- A failing cycle takes bytes that stand together and at most one gap behind them. -/
theorem eq_of_failed {stream : ByteStream} {error : DecodeError}
    (failed : (record stream).outcome = .error error) :
    ∃ run, stream = ofBytes run ++ (record stream).rest ∨
      stream = (ofBytes run ++ [.gap]) ++ (record stream).rest := by
  cases error with
  | endOfInput =>
    rcases eq_of_endOfInput failed with split | ⟨split, left⟩
    · exact ⟨[], .inr split⟩
    · exact ⟨[], .inl (split.trans left.symm)⟩
  | truncated =>
    refine ⟨stream.pullRun.1, ?_⟩
    rcases eq_of_truncated failed with split | ⟨split, left⟩
    · right
      rwa [← List.append_cons]
    · left
      rwa [left, List.append_nil]
  | unrecognized value => exact ⟨[value], .inl (eq_of_unrecognized failed)⟩
  | fault cause => exact absurd failed (outcome_ne_fault stream cause)

/-- What a cycle leaves is the end of its stream. -/
theorem exists_before_rest (stream : ByteStream) : ∃ front, stream = front ++ (record stream).rest := by
  rcases outcome : (record stream).outcome with error | r
  · obtain ⟨run, split | split⟩ := eq_of_failed outcome
    · exact ⟨_, split⟩
    · exact ⟨_, split⟩
  · exact ⟨_, (eq_encode_append_of_ok outcome).2⟩

/-! ### The bytes in front of the first gap -/

theorem prefix_run_iff {stream : ByteStream} {r : Record} (wf : r.WellFormed) :
    r.encode <+: stream.pullRun.1 ↔ (record stream).outcome = .ok r := by
  constructor
  · rintro ⟨more, held⟩
    obtain ⟨tail, split, -⟩ := pullRun_spec stream
    rw [split, ← held, ofBytes_append, List.append_assoc, record_encode wf]
  · intro complete
    obtain ⟨-, split⟩ := eq_encode_append_of_ok complete
    rw [split, pullRun_append]
    exact List.prefix_append _ _

theorem exists_record {stream : ByteStream} (begun : stream.pullRun.1 ≠ [])
    (known : ∀ value, stream.pullRun.1.head? = some value → ¬OpCode.Unknown value)
    (unbroken : ¬Broken stream.pullRun.1) : ∃ r, (record stream).outcome = .ok r := by
  rcases outcome : (record stream).outcome with error | r
  · cases error with
    | endOfInput => exact absurd (endOfInput_iff.mp outcome) begun
    | truncated => exact absurd (truncated_iff.mp outcome) unbroken
    | unrecognized value =>
      obtain ⟨first, unknown⟩ := unrecognized_iff.mp outcome
      exact absurd unknown (known value first)
    | fault cause => exact absurd outcome (outcome_ne_fault stream cause)
  · exact ⟨r, rfl⟩

/-- The bytes in front of the first gap settle the outcome of a cycle. Where there are none, or they
break off within a record, the cycle takes them and the gap; of a byte that no op code is packed
into it takes that byte alone; else they begin with the bytes of one record, which it takes. -/
theorem outcome_of_run (stream : ByteStream) :
    let run := stream.pullRun.1
    let cycle := record stream
    ((cycle.outcome = .error .endOfInput ↔ run = []) ∧
      (cycle.outcome = .error .endOfInput →
        stream = .gap :: cycle.rest ∨ stream = [] ∧ cycle.rest = [])) ∧
    (∀ value, (cycle.outcome = .error (.unrecognized value) ↔
        run.head? = some value ∧ OpCode.Unknown value) ∧
      (cycle.outcome = .error (.unrecognized value) → stream = .byte value :: cycle.rest)) ∧
    ((cycle.outcome = .error .truncated ↔ Broken run) ∧
      (cycle.outcome = .error .truncated →
        stream = ofBytes run ++ .gap :: cycle.rest ∨ stream = ofBytes run ∧ cycle.rest = [])) ∧
    (run ≠ [] → (∀ value, run.head? = some value → ¬OpCode.Unknown value) → ¬Broken run →
      ∃ r : Record, (r.WellFormed ∧ r.encode <+: run) ∧
        (∀ r' : Record, r'.WellFormed → r'.encode <+: run → r' = r) ∧
          cycle.outcome = .ok r ∧ stream = ofBytes r.encode ++ cycle.rest) := by
  intro run cycle
  refine ⟨⟨endOfInput_iff, eq_of_endOfInput⟩, fun _ => ⟨unrecognized_iff, eq_of_unrecognized⟩,
    ⟨truncated_iff, eq_of_truncated⟩, ?_⟩
  intro begun known unbroken
  obtain ⟨r, complete⟩ := exists_record begun known unbroken
  obtain ⟨wf, split⟩ := eq_encode_append_of_ok complete
  refine ⟨r, ⟨wf, (prefix_run_iff wf).mpr complete⟩, ?_, complete, split⟩
  intro r' wf' held
  have complete' := (prefix_run_iff wf').mp held
  exact Except.ok.inj (complete'.symm.trans complete)

/-- A gap between the two bytes of a word breaks the record off; without it the word is read. -/
theorem outcome_of_run_word :
    let gapped : ByteStream := ofBytes [0xB9, 1] ++ [.gap, .byte 2]
    let whole : ByteStream := ofBytes [0xB9, 1, 2] ++ [.gap]
    ((record gapped).outcome = .error .truncated ∧ (record gapped).rest = [.byte 2]) ∧
      (record whole).outcome = .ok ⟨.word, 1, .immediate 0x201⟩ := by
  intro gapped whole
  constructor
  · have broken : Broken gapped.pullRun.1 :=
      ⟨by decide, ⟨.word, 1, .immediate 1⟩, by decide, by decide, by decide⟩
    have failed := (outcome_of_run gapped).2.2.1.1.mpr broken
    refine ⟨failed, ?_⟩
    rcases (outcome_of_run gapped).2.2.1.2 failed with split | ⟨split, -⟩
    · exact (List.cons.inj (List.cons.inj (List.cons.inj split).2).2).2.symm
    · exact absurd (congrArg List.length split) (by decide)
  · let r : Record := ⟨.word, 1, .immediate 0x201⟩
    have wf : r.WellFormed := by decide
    have encoded : whole = ofBytes r.encode ++ [.gap] := by decide
    have complete : (record whole).outcome = .ok r := by rw [encoded, record_encode wf]
    have unbroken : ¬Broken whole.pullRun.1 := by
      intro broken
      cases (truncated_iff.mpr broken).symm.trans complete
    have known : ∀ value, whole.pullRun.1.head? = some value → ¬OpCode.Unknown value := by
      intro value first
      obtain rfl : 0xB9 = value := Option.some.inj first
      decide
    obtain ⟨r', -, alone, outcome, -⟩ :=
      (outcome_of_run whole).2.2.2 (by decide) known unbroken
    rw [outcome, ← alone r wf (by decide)]

/-! ### Instructions -/

theorem instruction_encode {r : Record} (wf : r.WellFormed) :
    ∃ i, r.instruction = .ok i ∧ ∀ rest : ByteStream,
      (instruction (ofBytes r.encode ++ rest)).outcome = .ok i := by
  obtain ⟨i, known⟩ := Record.exists_instruction wf.codesFit
  refine ⟨i, known, ?_⟩
  intro rest
  have complete : (record (ofBytes r.encode ++ rest)).outcome = .ok r := by
    rw [record_encode wf]
  rw [instruction_of_ok complete, known]

/-- A cycle yields an instruction exactly when it decodes a record that stands for it. -/
theorem instruction_eq_ok_iff {stream : ByteStream} {i : Instruction} :
    (instruction stream).outcome = .ok i ↔
      ∃ r, (record stream).outcome = .ok r ∧ r.instruction = .ok i := by
  constructor
  · intro complete
    rcases outcome : (record stream).outcome with error | r
    · rw [instruction_of_error outcome] at complete
      cases complete
    · obtain ⟨wf, -⟩ := eq_encode_append_of_ok outcome
      obtain ⟨i', known⟩ := Record.exists_instruction wf.codesFit
      rw [instruction_of_ok outcome, known] at complete
      cases complete
      exact ⟨r, rfl, known⟩
  · rintro ⟨r, outcome, known⟩
    rw [instruction_of_ok outcome, known]

theorem instruction_eq_error_iff {stream : ByteStream} {error : DecodeError} :
    (instruction stream).outcome = .error error ↔ (record stream).outcome = .error error := by
  constructor
  · intro failed
    rcases outcome : (record stream).outcome with error' | r
    · rw [instruction_of_error outcome] at failed
      exact congrArg Except.error (Except.error.inj failed)
    · obtain ⟨wf, -⟩ := eq_encode_append_of_ok outcome
      obtain ⟨i, known⟩ := Record.exists_instruction wf.codesFit
      rw [instruction_of_ok outcome, known] at failed
      cases failed
  · intro failed
    rw [instruction_of_error failed]

end Cycle

end Mov8086
