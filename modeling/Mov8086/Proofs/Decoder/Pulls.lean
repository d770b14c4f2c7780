import Mov8086.Cycle.Script
import Mov8086.Proofs.Decoder.Attempts
import Mov8086.Proofs.Script

/-!
Cycles up to the record, cycles up to the instruction and calls of a decoder. A cycle up to the
record takes the slots that the one up to the instruction takes, and so does a call, for all that it
keeps the bytes. So any number of them run alike, and on one stream they may take turns with each
other and with pulls of bytes.
-/

set_option autoImplicit false

namespace Mov8086

/-- A cycle finds the instruction that the record of the cycle stands for. -/
theorem Cycle.outcome_instruction {σ : Type} [ByteSource σ] (source : σ) :
    (instruction source).outcome =
      (record source).outcome.bind fun r => r.instruction.mapError .fault := by
  rcases outcome : (record source).outcome with error | r
  · rw [instruction_of_error outcome]
    rfl
  · rw [instruction_of_ok outcome]
    rcases known : r.instruction with cause | i <;> simp [Except.bind, Except.mapError, known]

namespace Pull

/-- The use that takes an instruction in place of a record. -/
def resolved : Pull → Pull
  | record => instruction
  | pull => pull

/-- The answer with the instruction that a record stands for in place of the record. -/
def Answer.resolved : Answer → Answer
  | .record outcome => .instruction (outcome.bind fun r => r.instruction.mapError .fault)
  | answer => answer

theorem perform_resolved (pull : Pull) (stream : ByteStream) :
    perform pull.resolved stream =
      ((perform pull stream).1.resolved, (perform pull stream).2) := by
  cases pull with
  | record =>
    simp only [resolved, perform, Answer.resolved]
    rw [Cycle.outcome_instruction, Cycle.rest_instruction]
  | instruction | byte | run => rfl

/-- What a script does, with its answers resolved. -/
def resolvedScript (pulls : List Pull) (stream : ByteStream) : List (Answer × ByteStream) :=
  (script perform pulls stream).map fun done => (done.1.resolved, done.2)

/-- Instructions taken in place of records resolve the answers and leave the same slots. -/
theorem resolvedScript_eq (pulls : List Pull) (stream : ByteStream) :
    resolvedScript pulls stream = script perform (pulls.map resolved) stream :=
  map_script perform resolved Answer.resolved id (fun pull _ left => perform_resolved pull left)
    stream

end Pull

namespace Decoder

/-- What so many calls find, as uses of the stream, each with the slots left behind it. -/
def callAnswers (decoder : Decoder) (n : Nat) : List (Pull.Answer × ByteStream) :=
  (List.range n).map fun call =>
    (.instruction ((decoder.after call).attempt.1.outcome.map (·.instruction)),
      (decoder.after (call + 1)).source)

theorem callAnswers_succ (decoder : Decoder) (n : Nat) :
    decoder.callAnswers (n + 1) =
      (.instruction (decoder.attempt.1.outcome.map (·.instruction)), decoder.attempt.2.source) ::
        decoder.attempt.2.callAnswers n := by
  simp only [callAnswers, List.range_succ_eq_map, List.map_cons, List.map_map, after_attempt]
  rfl

/-- A call takes the slots that a cycle on the bare stream takes, and finds the same. -/
theorem perform_instruction (decoder : Decoder) :
    Pull.perform .instruction decoder.source =
      (.instruction (decoder.attempt.1.outcome.map (·.instruction)),
        decoder.attempt.2.source) := by
  rw [attempt_eq]
  simp only [Pull.perform]
  rcases (Cycle.instruction decoder.source).outcome with error | i <;> rfl

theorem script_instruction (decoder : Decoder) (n : Nat) :
    script Pull.perform (List.replicate n .instruction) decoder.source = decoder.callAnswers n := by
  induction n generalizing decoder with
  | zero => rfl
  | succ n ih =>
    rw [List.replicate_succ, script, perform_instruction, callAnswers_succ]
    dsimp only
    rw [ih]

theorem resolvedScript_record (decoder : Decoder) (n : Nat) :
    Pull.resolvedScript (List.replicate n .record) decoder.source = decoder.callAnswers n := by
  rw [Pull.resolvedScript_eq, List.map_replicate, Pull.resolved, script_instruction]

end Decoder

namespace Pull

open Decoder

/-- Cycles up to the record, their records made into instructions, cycles up to the instruction and
calls of a decoder are the same on equal streams, any number of them: the same instructions and
errors, with the same slots left behind each. On one stream the first two may take each other's place
in any script, whatever else is pulled in between. What comes behind a front of pulls depends only on
the slots that the front leaves, and so do the cycles among it, which are the calls of a decoder of
these slots. -/
theorem cycles_agree (stream : ByteStream) :
    (∀ n, script perform (List.replicate n .instruction) stream = (ofStream stream).callAnswers n ∧
      resolvedScript (List.replicate n .record) stream = (ofStream stream).callAnswers n) ∧
    (∀ pulls, resolvedScript pulls stream = script perform (pulls.map resolved) stream) ∧
    ∀ front,
      let left := scriptEnd perform front stream
      (∀ later, (script perform (front ++ later) stream).drop front.length =
        script perform later left) ∧
      ∀ n, (script perform (front ++ List.replicate n .instruction) stream).drop front.length =
          (ofStream left).callAnswers n ∧
        (resolvedScript (front ++ List.replicate n .record) stream).drop front.length =
          (ofStream left).callAnswers n := by
  have alike (source : ByteStream) (n : Nat) :
      script perform (List.replicate n .instruction) source = (ofStream source).callAnswers n ∧
        resolvedScript (List.replicate n .record) source = (ofStream source).callAnswers n :=
    ⟨script_instruction (ofStream source) n, resolvedScript_record (ofStream source) n⟩
  refine ⟨alike stream, fun pulls => resolvedScript_eq pulls stream, ?_⟩
  intro front left
  refine ⟨fun later => drop_script_append perform front later stream, ?_⟩
  intro n
  obtain ⟨instructions, records⟩ := alike left n
  constructor
  · rw [drop_script_append, instructions]
  · rw [resolvedScript, ← List.map_drop, drop_script_append]
    exact records

end Pull

end Mov8086
