import Mov8086.Decoder
import Mov8086.Proofs.Cycle.Outcome

/-!
One attempt of a decoder. It runs the same cycle as on the bare stream, and the bytes that it keeps
are those of the slots that the cycle takes.
-/

set_option autoImplicit false

namespace Mov8086

open ByteStream

namespace Recording

/-- A recording answers as its source does, and what it has kept with what is still to come are the
same bytes at all times. -/
theorem simulation (kept : List UInt8) :
    ByteSource.Simulation fun (recording : Recording ByteStream) (stream : ByteStream) =>
      recording.source = stream ∧ recording.bytes ++ ByteStream.bytes stream = kept where
  answer := by
    rintro ⟨_ | ⟨_ | _, rest⟩, held⟩ _ ⟨rfl, -⟩ <;> rfl
  behind := by
    rintro ⟨_ | ⟨value | _, rest⟩, held⟩ _ ⟨rfl, rfl⟩
    · exact ⟨rfl, rfl⟩
    · exact ⟨rfl, List.append_assoc held [value] (ByteStream.bytes rest)⟩
    · exact ⟨rfl, rfl⟩

end Recording

namespace Decoder

/-- The slots that the next attempt takes. -/
def taken (decoder : Decoder) : ByteStream :=
  decoder.source.before decoder.attempt.2.source

/-- An attempt does what a cycle does on the bare stream, and keeps the bytes that it takes. -/
theorem attempt_eq (decoder : Decoder) :
    decoder.attempt =
      (⟨decoder.position,
          (Cycle.instruction decoder.source).outcome.map
            (⟨decoder.position, bytes decoder.taken, ·⟩),
          (Cycle.instruction decoder.source).events⟩,
        ⟨(Cycle.instruction decoder.source).rest,
          decoder.position + (bytes decoder.taken).length⟩) := by
  obtain ⟨source, position⟩ := decoder
  let recording : Recording ByteStream := ⟨source, []⟩
  have start : recording.source = source ∧ recording.bytes ++ bytes source = bytes source :=
    ⟨rfl, rfl⟩
  obtain ⟨outcome, events, left, kept⟩ :=
    Cycle.agree_instruction (Recording.simulation (bytes source)) start
  obtain ⟨front, split⟩ := Cycle.exists_before_rest source
  rw [← Cycle.rest_instruction] at split
  have taken : Decoder.taken ⟨source, position⟩ = front := by
    have behind : (attempt ⟨source, position⟩).2.source = (Cycle.instruction source).rest := left
    rw [Decoder.taken, behind]
    exact (congrArg (before · _) split).trans (before_append _ _)
  have held : (Cycle.instruction recording).rest.bytes = bytes front := by
    have whole := congrArg bytes split
    rw [bytes_append] at whole
    exact List.append_cancel_right (kept.trans whole)
  rw [taken, ← outcome, ← events, ← left, ← held]
  rfl

theorem source_attempt (decoder : Decoder) :
    decoder.attempt.2.source = (Cycle.record decoder.source).rest := by
  rw [attempt_eq, Cycle.rest_instruction]

theorem position_attempt (decoder : Decoder) :
    decoder.attempt.2.position = decoder.position + (bytes decoder.taken).length := by
  rw [attempt_eq]

theorem outcome_attempt (decoder : Decoder) :
    decoder.attempt.1.outcome =
      (Cycle.instruction decoder.source).outcome.map (⟨decoder.position, bytes decoder.taken, ·⟩) := by
  rw [attempt_eq]

theorem offset_attempt (decoder : Decoder) : decoder.attempt.1.offset = decoder.position := by
  rw [attempt_eq]

theorem events_attempt (decoder : Decoder) :
    decoder.attempt.1.events = (Cycle.instruction decoder.source).events := by
  rw [attempt_eq]

theorem taken_eq {decoder : Decoder} {front rest : ByteStream}
    (split : decoder.source = front ++ rest) (left : (Cycle.record decoder.source).rest = rest) :
    decoder.taken = front := by
  rw [taken, source_attempt, left, split, before_append]

/-- An attempt takes the slots in front of what it leaves. -/
theorem taken_append (decoder : Decoder) :
    decoder.taken ++ decoder.attempt.2.source = decoder.source := by
  obtain ⟨front, split⟩ := Cycle.exists_before_rest decoder.source
  rw [taken_eq split rfl, source_attempt, ← split]

theorem failed_iff {decoder : Decoder} {error : DecodeError} :
    decoder.attempt.1.outcome = .error error ↔
      (Cycle.record decoder.source).outcome = .error error := by
  rw [outcome_attempt, ← Cycle.instruction_eq_error_iff]
  rcases (Cycle.instruction decoder.source).outcome with _ | _ <;> simp [Except.map]

theorem taken_of_record {decoder : Decoder} {r : Record}
    (complete : (Cycle.record decoder.source).outcome = .ok r) :
    decoder.taken = ofBytes r.encode :=
  taken_eq (Cycle.eq_encode_append_of_ok complete).2 rfl

/-- An item is what the bytes of one record, which the attempt takes, stand for. -/
theorem found_iff {decoder : Decoder} {item : Item} :
    decoder.attempt.1.outcome = .ok item ↔
      ∃ r : Record, (Cycle.record decoder.source).outcome = .ok r ∧
        r.instruction = .ok item.instruction ∧ item.offset = decoder.position ∧
          item.bytes = r.encode := by
  have kept {r : Record} (complete : (Cycle.record decoder.source).outcome = .ok r) :
      bytes decoder.taken = r.encode := by
    rw [taken_of_record complete, bytes_ofBytes]
  rw [outcome_attempt]
  constructor
  · intro found
    rcases outcome : (Cycle.instruction decoder.source).outcome with error | i
    · rw [outcome] at found
      cases found
    · rw [outcome] at found
      cases found
      obtain ⟨r, complete, known⟩ := Cycle.instruction_eq_ok_iff.mp outcome
      exact ⟨r, complete, known, rfl, kept complete⟩
  · rintro ⟨r, complete, known, offset, held⟩
    rw [Cycle.instruction_eq_ok_iff.mpr ⟨r, complete, known⟩, kept complete, ← offset, ← held]
    rfl

theorem taken_of_failed {decoder : Decoder} {error : DecodeError}
    (failed : decoder.attempt.1.outcome = .error error) :
    ∃ run, decoder.taken = ofBytes run ∨ decoder.taken = ofBytes run ++ [.gap] := by
  obtain ⟨run, split | split⟩ := Cycle.eq_of_failed (failed_iff.mp failed)
  · exact ⟨run, .inl (taken_eq split rfl)⟩
  · exact ⟨run, .inr (taken_eq split rfl)⟩

/-! ### Data without gaps -/

section Gapless

variable {decoder : Decoder} {data : List UInt8} (gapless : decoder.source = ofBytes data)
include gapless

theorem exists_behind_taken {front : List UInt8} (taken : decoder.taken = ofBytes front) :
    ∃ behind, data = front ++ behind ∧
      decoder.attempt.2 = ⟨ofBytes behind, decoder.position + front.length⟩ := by
  have split := decoder.taken_append
  rw [taken, gapless] at split
  obtain ⟨front', behind, rfl, front_eq, behind_eq⟩ := List.map_eq_append_iff.mp split.symm
  obtain rfl : front' = front := ofBytes_inj.mp front_eq
  have source : ofBytes behind = decoder.attempt.2.source := behind_eq
  have position : decoder.attempt.2.position = decoder.position + front'.length := by
    rw [position_attempt, taken, bytes_ofBytes]
  refine ⟨behind, rfl, ?_⟩
  rw [source, ← position]

/-- An item that is found in data without gaps is what the record in front stands for. -/
theorem exists_front_of_found {item : Item} (found : decoder.attempt.1.outcome = .ok item) :
    ∃ (r : Record) (behind : List UInt8), r.WellFormed ∧ r.instruction = .ok item.instruction ∧
      item = ⟨decoder.position, r.encode, item.instruction⟩ ∧ data = r.encode ++ behind ∧
        decoder.attempt.2 = ⟨ofBytes behind, decoder.position + r.encode.length⟩ := by
  obtain ⟨r, complete, known, offset, held⟩ := found_iff.mp found
  obtain ⟨wf, -⟩ := Cycle.eq_encode_append_of_ok complete
  obtain ⟨behind, split, next⟩ := exists_behind_taken gapless (taken_of_record complete)
  refine ⟨r, behind, wf, known, ?_, split, next⟩
  rw [← offset, ← held]

theorem exists_front_of_unrecognized {value : UInt8}
    (failed : decoder.attempt.1.outcome = .error (.unrecognized value)) :
    OpCode.Unknown value ∧ ∃ behind : List UInt8, data = value :: behind ∧
      decoder.attempt.2 = ⟨ofBytes behind, decoder.position + 1⟩ := by
  have stuck := failed_iff.mp failed
  have split : decoder.source = ofBytes [value] ++ (Cycle.record decoder.source).rest :=
    Cycle.eq_of_unrecognized stuck
  exact ⟨(Cycle.unrecognized_iff.mp stuck).2, exists_behind_taken gapless (taken_eq split rfl)⟩

end Gapless

end Decoder

end Mov8086
