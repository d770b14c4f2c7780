import Mov8086.Proofs.Decoder.Attempt

/-!
Any number of calls of a decoder. What the calls take, one after another, is the front of the
stream; the position counts its bytes, and an item holds those that its call took.
-/

set_option autoImplicit false

namespace Mov8086

open ByteStream

namespace Decoder

/-- The decoder behind so many calls. -/
def after (decoder : Decoder) : Nat → Decoder
  | 0 => decoder
  | calls + 1 => (decoder.after calls).attempt.2

/-- The slots that so many calls take, call by call. -/
def takenIn (decoder : Decoder) (calls : Nat) : ByteStream :=
  (List.range calls).flatMap fun call => (decoder.after call).taken

/-- The bytes of the item that the next call finds, or those that it takes when it fails. -/
def accounted (decoder : Decoder) : List UInt8 :=
  match decoder.attempt.1.outcome with
  | .ok item => item.bytes
  | .error _ => bytes decoder.taken

theorem after_succ (decoder : Decoder) (calls : Nat) :
    decoder.after (calls + 1) = (decoder.after calls).attempt.2 := rfl

theorem after_attempt (decoder : Decoder) (calls : Nat) :
    decoder.attempt.2.after calls = decoder.after (calls + 1) := by
  induction calls with
  | zero => rfl
  | succ calls ih => rw [after_succ, ih, after_succ decoder (calls + 1)]

theorem takenIn_succ (decoder : Decoder) (calls : Nat) :
    decoder.takenIn (calls + 1) = decoder.takenIn calls ++ (decoder.after calls).taken := by
  simp [takenIn, List.range_succ]

/-- The calls take consecutive blocks of the stream. -/
theorem takenIn_append (decoder : Decoder) (calls : Nat) :
    decoder.takenIn calls ++ (decoder.after calls).source = decoder.source := by
  induction calls with
  | zero => rfl
  | succ calls ih =>
    rw [takenIn_succ, after_succ, List.append_assoc, taken_append, ih]

/-- The position moves by the bytes that the calls take, and by no gap. -/
theorem position_after (decoder : Decoder) (calls : Nat) :
    (decoder.after calls).position = decoder.position + (bytes (decoder.takenIn calls)).length := by
  induction calls with
  | zero => rfl
  | succ calls ih =>
    rw [after_succ, position_attempt, ih, takenIn_succ, bytes_append, List.length_append,
      Nat.add_assoc]

theorem accounted_eq (decoder : Decoder) : decoder.accounted = bytes decoder.taken := by
  rcases outcome : decoder.attempt.1.outcome with error | item
  · rw [accounted, outcome]
  · obtain ⟨r, complete, -, -, held⟩ := found_iff.mp outcome
    rw [accounted, outcome, taken_of_record complete, bytes_ofBytes]
    exact held

theorem flatMap_accounted (decoder : Decoder) (calls : Nat) :
    ((List.range calls).flatMap fun call => (decoder.after call).accounted) =
      bytes (decoder.takenIn calls) := by
  induction calls with
  | zero => rfl
  | succ calls ih =>
    rw [List.range_succ, List.flatMap_append, ih, takenIn_succ, bytes_append, List.flatMap_singleton,
      accounted_eq]

/-- Each call up to the end takes a slot, so the end is not further than the stream is long. -/
theorem exists_end (decoder : Decoder) :
    ∃ calls ≤ decoder.source.length,
      (decoder.after calls).attempt.1.outcome = .error .endOfInput := by
  by_cases ended : decoder.attempt.1.outcome = .error .endOfInput
  · exact ⟨0, Nat.zero_le _, ended⟩
  · have shorter := length_source_attempt_lt ended
    obtain ⟨calls, bound, ended⟩ := exists_end decoder.attempt.2
    rw [after_attempt] at ended
    exact ⟨calls + 1, by omega, ended⟩
termination_by decoder.source.length

theorem source_eq_nil_of_end {decoder : Decoder} {data : List UInt8}
    (gapless : decoder.source = ofBytes data)
    (ended : decoder.attempt.1.outcome = .error .endOfInput) : decoder.source = [] := by
  have stuck := failed_iff.mp ended
  rw [gapless] at stuck ⊢
  rw [Cycle.endOfInput_ofBytes_iff.mp stuck, ofBytes_nil]

/-- What is behind the calls on a stream without gaps has none. -/
theorem source_after_eq_ofBytes (decoder : Decoder) {data : List UInt8}
    (gapless : decoder.source = ofBytes data) (calls : Nat) :
    ∃ left, (decoder.after calls).source = ofBytes left := by
  have whole := takenIn_append decoder calls
  rw [gapless] at whole
  obtain ⟨_, left, -, -, behind⟩ := List.map_eq_append_iff.mp whole.symm
  exact ⟨left, behind.symm⟩

/-- The calls on a stream neither lose nor repeat a byte. Behind any number of them the slots that
they took are the front of the stream and the position is the number of bytes in it. The next call
finds an item, whose bytes it takes and which these bytes stand for whatever follows them, or fails
and takes bytes that stand together and at most one gap. Without gaps the calls come to an end, and
what they took is all the data. -/
theorem calls_account_for_stream (stream : ByteStream) :
    (∀ calls : Nat,
      let decoder := (ofStream stream).after calls
      let front := (ofStream stream).takenIn calls
      stream = front ++ decoder.source ∧ decoder.position = (bytes front).length ∧
      (∀ item, decoder.attempt.1.outcome = .ok item →
        item.offset = decoder.position ∧ ofBytes item.bytes = decoder.taken ∧
          2 ≤ item.bytes.length ∧ item.bytes.length ≤ 4 ∧
          ∀ later : ByteStream,
            (Cycle.instruction (ofBytes item.bytes ++ later)).outcome = .ok item.instruction) ∧
      ∀ error, decoder.attempt.1.outcome = .error error →
        ∃ run, decoder.taken = ofBytes run ∨ decoder.taken = ofBytes run ++ [.gap]) ∧
    ∀ data, stream = ofBytes data →
      (∃ calls ≤ data.length,
        ((ofStream stream).after calls).attempt.1.outcome = .error .endOfInput) ∧
      ∀ calls, ((ofStream stream).after calls).attempt.1.outcome = .error .endOfInput →
        ((ofStream stream).after calls).position = data.length ∧
        ((List.range calls).flatMap fun call => ((ofStream stream).after call).accounted) =
          data := by
  constructor
  · intro calls decoder front
    refine ⟨(takenIn_append (ofStream stream) calls).symm, ?_, ?_, fun _ => taken_of_failed⟩
    · rw [position_after (ofStream stream) calls]
      exact Nat.zero_add _
    · intro item found
      obtain ⟨r, complete, known, offset, held⟩ := found_iff.mp found
      obtain ⟨wf, -⟩ := Cycle.eq_encode_append_of_ok complete
      obtain ⟨i, known', replay⟩ := Cycle.instruction_encode wf
      obtain rfl : i = item.instruction := Except.ok.inj (known'.symm.trans known)
      rw [held, taken_of_record complete]
      exact ⟨offset, rfl, (Record.length_encode r).1, (Record.length_encode r).2, replay⟩
  · rintro data rfl
    let start := ofStream (ofBytes data)
    constructor
    · obtain ⟨calls, bound, ended⟩ := exists_end start
      have length : start.source.length = data.length := length_ofBytes data
      exact ⟨calls, by omega, ended⟩
    · intro calls ended
      obtain ⟨left, behind⟩ := source_after_eq_ofBytes start rfl calls
      have whole : start.takenIn calls = ofBytes data := by
        have split := takenIn_append start calls
        rwa [source_eq_nil_of_end behind ended, List.append_nil] at split
      have position := position_after start calls
      have bytes := flatMap_accounted start calls
      rw [whole, bytes_ofBytes] at position bytes
      exact ⟨position.trans (Nat.zero_add _), bytes⟩

/-- An instruction, an unknown byte and an instruction that breaks off. -/
theorem calls_account_for_stream_mixed :
    ∃ calls ≤ 4, ((ofStream (ofBytes [0xB1, 7, 0, 0xB1])).after calls).position = 4 := by
  obtain ⟨⟨calls, bound, ended⟩, whole⟩ :=
    (calls_account_for_stream (ofBytes [0xB1, 7, 0, 0xB1])).2 [0xB1, 7, 0, 0xB1] rfl
  exact ⟨calls, bound, (whole calls ended).1⟩

end Decoder

end Mov8086
