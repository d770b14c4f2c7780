import Mov8086.Proofs.Cycle.Phases

/-!
What a cycle does, read off the stream. A stream begins with the bytes of a record, with a part of
them that breaks off, with a byte that no op code is packed into, or with no byte at all; each of
these beginnings settles the outcome of a cycle, the events and what is left.
-/

set_option autoImplicit false

namespace Mov8086

open ByteStream

namespace Cycle

/-- A stream and the cycle that runs on it, by what the stream begins with. -/
inductive Turn : ByteStream → Cycle ByteStream Record → Prop where
  | complete {r : Record} (wf : r.WellFormed) (rest : ByteStream) :
      Turn (ofBytes r.encode ++ rest) ⟨.ok r, [.classified r.opCode.byte r.opCode], rest⟩
  | truncated {r : Record} (wf : r.WellFormed) {front behind : List UInt8}
      (split : r.encode = front ++ behind) (begun : front ≠ []) (unfinished : behind ≠ [])
      {tail rest : ByteStream} (missing : tail.pull = (none, rest)) :
      Turn (ofBytes front ++ tail)
        ⟨.error .truncated, [.classified r.opCode.byte r.opCode], rest⟩
  | unrecognized {value : UInt8} (unknown : OpCode.Unknown value) (rest : ByteStream) :
      Turn (.byte value :: rest) ⟨.error (.unrecognized value), [], rest⟩
  | ended {tail rest : ByteStream} (missing : tail.pull = (none, rest)) :
      Turn tail ⟨.error .endOfInput, [], rest⟩

private theorem record_eq_of_run {stream rest : ByteStream} {outcome : Except DecodeError Record}
    {events : List Event} (ran : Phase.run .opCode ⟨stream, []⟩ = (outcome, ⟨rest, events⟩)) :
    record stream = ⟨outcome, events, rest⟩ := by
  rw [record, ran]

theorem record_encode {r : Record} (wf : r.WellFormed) (rest : ByteStream) :
    record (ofBytes r.encode ++ rest) = ⟨.ok r, [.classified r.opCode.byte r.opCode], rest⟩ := by
  apply record_eq_of_run
  rw [Record.encode_eq, ofBytes_append, List.append_assoc, Phase.run_lead wf.codesFit,
    (Phase.completes_ofLead r).found rest _ r.length_data, Record.withData_data wf]
  rfl

private theorem record_short_data {r : Record} (wf : r.WellFormed) {data : List UInt8}
    (short : data.length < r.dataSize) {tail rest : ByteStream}
    (missing : tail.pull = (none, rest)) :
    record (ofBytes (r.lead ++ data) ++ tail) =
      ⟨.error .truncated, [.classified r.opCode.byte r.opCode], rest⟩ := by
  apply record_eq_of_run
  rw [ofBytes_append, List.append_assoc, Phase.run_lead wf.codesFit,
    (Phase.completes_ofLead r).missing _ short missing]
  rfl

private theorem record_short_lead {r : Record} (wf : r.WellFormed) {front behind : List UInt8}
    (split : r.lead = front ++ behind) (begun : front ≠ []) (unfinished : behind ≠ [])
    {tail rest : ByteStream} (missing : tail.pull = (none, rest)) :
    record (ofBytes front ++ tail) =
      ⟨.error .truncated, [.classified r.opCode.byte r.opCode], rest⟩ := by
  have known := OpCode.ofByte_byte (Record.opCode_fits wf.codesFit)
  obtain ⟨value, front, rfl⟩ := List.exists_cons_of_ne_nil begun
  obtain ⟨value', behind, rfl⟩ := List.exists_cons_of_ne_nil unfinished
  obtain ⟨width, reg, ⟨toRegister, m, d⟩ | constant⟩ := r
  · cases front with
    | nil =>
      obtain rfl : _ = value := (List.cons.inj split).1
      apply record_eq_of_run
      rw [ofBytes_cons, ofBytes_nil, List.cons_append, List.nil_append, Phase.run_opCode_byte, known]
      exact Phase.run_modRm_none toRegister width missing _
    | cons second front =>
      have length := congrArg List.length split
      simp only [Record.lead, List.length_append, List.length_cons, List.length_nil] at length
      omega
  · have length := congrArg List.length split
    simp only [Record.lead, List.length_append, List.length_cons, List.length_nil] at length
    omega

theorem record_truncated {r : Record} (wf : r.WellFormed) {front behind : List UInt8}
    (split : r.encode = front ++ behind) (begun : front ≠ []) (unfinished : behind ≠ [])
    {tail rest : ByteStream} (missing : tail.pull = (none, rest)) :
    record (ofBytes front ++ tail) =
      ⟨.error .truncated, [.classified r.opCode.byte r.opCode], rest⟩ := by
  -- The bytes break off within the data, or within the leading bytes.
  rw [Record.encode_eq] at split
  rcases List.append_eq_append_iff.mp split with ⟨data, rfl, held⟩ | ⟨between, lead, rfl⟩
  · apply record_short_data wf ?_ missing
    have length := congrArg List.length held
    have more := List.length_pos_iff.mpr unfinished
    rw [Record.length_data, List.length_append] at length
    omega
  · by_cases whole : between = []
    · subst whole
      rw [List.append_nil] at lead
      have short : ([] : List UInt8).length < r.dataSize := by
        rw [← Record.length_data]
        exact List.length_pos_iff.mpr unfinished
      have ended := record_short_data wf short missing
      rwa [List.append_nil, lead] at ended
    · exact record_short_lead wf lead begun whole missing

theorem record_unrecognized {value : UInt8} (unknown : OpCode.Unknown value) (rest : ByteStream) :
    record (.byte value :: rest : ByteStream) = ⟨.error (.unrecognized value), [], rest⟩ := by
  apply record_eq_of_run
  rw [Phase.run_opCode_byte, OpCode.ofByte_eq_error_iff.mpr ⟨unknown, rfl⟩]

theorem record_ended {tail rest : ByteStream} (missing : tail.pull = (none, rest)) :
    record tail = ⟨.error .endOfInput, [], rest⟩ :=
  record_eq_of_run (Phase.run_opCode_none missing [])

theorem Turn.record_eq {stream : ByteStream} {cycle : Cycle ByteStream Record}
    (turn : Turn stream cycle) : record stream = cycle := by
  cases turn with
  | complete wf rest => exact record_encode wf rest
  | truncated wf split begun unfinished missing =>
    exact record_truncated wf split begun unfinished missing
  | unrecognized unknown rest => exact record_unrecognized unknown rest
  | ended missing => exact record_ended missing

/-! ### Every stream begins in one of these ways -/

private theorem exists_turn_lead {r : Record} (fit : r.CodesFit) (stream : ByteStream) :
    ∃ cycle, Turn (ofBytes r.lead ++ stream) cycle := by
  rcases offers_or_lacks r.dataSize stream with
    ⟨data, rest, size, rfl⟩ | ⟨data, tail, rest, short, rfl, missing⟩
  · have turn := Turn.complete (Record.wellFormed_withData fit size) rest
    rw [Record.encode_withData size, ofBytes_append, List.append_assoc] at turn
    exact ⟨_, turn⟩
  · -- Any bytes in the missing places make up a record whose bytes break off here.
    let filling := List.replicate (r.dataSize - data.length) (0 : UInt8)
    have size : (data ++ filling).length = r.dataSize := by
      simp only [filling, List.length_append, List.length_replicate]
      omega
    have unfinished : filling ≠ [] := by
      apply List.ne_nil_of_length_pos
      simp only [filling, List.length_replicate]
      omega
    have split : (r.withData (data ++ filling)).encode = (r.lead ++ data) ++ filling := by
      rw [Record.encode_withData size, List.append_assoc]
    have begun : r.lead ++ data ≠ [] := by
      obtain ⟨width, reg, _ | _⟩ := r <;> exact List.cons_ne_nil _ _
    have turn := Turn.truncated (Record.wellFormed_withData fit size) split begun unfinished missing
    rw [ofBytes_append, List.append_assoc] at turn
    exact ⟨_, turn⟩

theorem exists_turn (stream : ByteStream) : ∃ cycle, Turn stream cycle := by
  obtain ⟨run, tail, rest, rfl, missing⟩ := exists_run stream
  rcases run with _ | ⟨value, run⟩
  · exact ⟨_, .ended missing⟩
  · rcases read : OpCode.ofByte value with error | ⟨width, reg⟩ | ⟨toRegister, width⟩
    · exact ⟨_, .unrecognized (OpCode.ofByte_eq_error_iff.mp read).1 _⟩
    · obtain ⟨fits, rfl⟩ := OpCode.ofByte_eq_ok_iff.mp read
      exact exists_turn_lead (r := ⟨width, reg, .immediate 0⟩) ⟨fits, trivial⟩ (ofBytes run ++ tail)
    · obtain ⟨-, rfl⟩ := OpCode.ofByte_eq_ok_iff.mp read
      rcases run with _ | ⟨second, run⟩
      · let r : Record := ⟨width, 0, .registerOrMemory toRegister ⟨.register, 0⟩ none⟩
        have wf : r.WellFormed := ⟨UInt8.zero_le, UInt8.zero_le, rfl⟩
        have split : r.encode = [r.opCode.byte] ++ [ModRm.byte 0 ⟨.register, 0⟩] := rfl
        exact ⟨_, .truncated wf split (List.cons_ne_nil _ _) (List.cons_ne_nil _ _) missing⟩
      · obtain ⟨reg, m, regSmall, rmSmall, rfl⟩ := ModRm.exists_byte second
        exact exists_turn_lead (r := ⟨width, reg, .registerOrMemory toRegister m none⟩)
          ⟨regSmall, rmSmall⟩ (ofBytes run ++ tail)

/-- A cycle runs as the beginning of its stream says. -/
theorem turn_record (stream : ByteStream) : Turn stream (record stream) := by
  obtain ⟨cycle, turn⟩ := exists_turn stream
  rwa [turn.record_eq]

theorem turn_of_outcome {stream : ByteStream} {outcome : Except DecodeError Record}
    (ended : (record stream).outcome = outcome) :
    ∃ events rest, record stream = ⟨outcome, events, rest⟩ ∧
      Turn stream ⟨outcome, events, rest⟩ := by
  subst ended
  exact ⟨_, _, rfl, turn_record stream⟩

end Cycle

end Mov8086
