import Mov8086.Proofs.Cycle.Outcome

/-!
Cycles up to the instruction, by what the stream begins with: the outcome, everything that is
reported, and what is left.
-/

set_option autoImplicit false

namespace Mov8086

open ByteStream

namespace Cycle

theorem instruction_of_encode {r : Record} {i : Instruction} (wf : r.WellFormed)
    (known : r.instruction = .ok i) (rest : ByteStream) :
    instruction (ofBytes r.encode ++ rest) =
      ⟨.ok i, [.classified r.opCode.byte r.opCode, .decoded r i], rest⟩ := by
  have ran := record_encode wf rest
  have complete : (record (ofBytes r.encode ++ rest)).outcome = .ok r := by rw [ran]
  rw [instruction_of_ok complete, known, ran]
  rfl

theorem instruction_of_unknown {value : UInt8} (unknown : OpCode.Unknown value)
    (rest : ByteStream) :
    instruction (.byte value :: rest : ByteStream) =
      ⟨.error (.unrecognized value), [.failed (.unrecognized value)], rest⟩ := by
  have ran := record_unrecognized unknown rest
  have failed : (record (.byte value :: rest : ByteStream)).outcome =
      .error (.unrecognized value) := by rw [ran]
  rw [instruction_of_error failed, ran]
  rfl

/-- Bytes that break off within a record settle what is reported, whatever is missing behind them. -/
theorem exists_instruction_of_broken {run : List UInt8} (broken : Broken run) :
    ∃ events, ∀ tail rest : ByteStream, tail.pull = (none, rest) →
      instruction (ofBytes run ++ tail) = ⟨.error .truncated, events, rest⟩ := by
  obtain ⟨begun, r, wf, ⟨behind, split⟩, more⟩ := broken
  have unfinished : behind ≠ [] := by
    rintro rfl
    exact more (by rwa [List.append_nil] at split)
  refine ⟨[.classified r.opCode.byte r.opCode, .failed .truncated], ?_⟩
  intro tail rest missing
  have ran := record_truncated wf split.symm begun unfinished missing
  have failed : (record (ofBytes run ++ tail)).outcome = .error .truncated := by rw [ran]
  rw [instruction_of_error failed, ran]
  rfl

theorem instruction_of_missing {tail rest : ByteStream} (missing : tail.pull = (none, rest)) :
    instruction tail = ⟨.error .endOfInput, [], rest⟩ := by
  have ran := record_ended missing
  have failed : (record tail).outcome = .error .endOfInput := by rw [ran]
  rw [instruction_of_error failed, ran]
  rfl

end Cycle

end Mov8086
