import Mov8086.Proofs.Command.Report
import Mov8086.Proofs.Cycle.Instruction

/-!
Disassemblies as a loop. Every cycle calls the decoder once, and the answer says what the cycle adds
and whether another one follows. A disassembly is what this loop makes of the calls.
-/

set_option autoImplicit false

namespace Mov8086

namespace Decoder

theorem events_of_end {decoder : Decoder}
    (ended : decoder.attempt.1.outcome = .error .endOfInput) : decoder.attempt.1.events = [] := by
  have missing := Cycle.eq_of_endOfInput (failed_iff.mp ended)
  rw [events_attempt, Cycle.instruction_of_missing (ByteStream.pull_eq_none_iff.mpr missing)]

theorem exists_earlier_of_end {decoder : Decoder} {calls : Nat}
    (going : decoder.attempt.1.outcome ≠ .error .endOfInput)
    (ended : (decoder.after calls).attempt.1.outcome = .error .endOfInput) :
    ∃ earlier, calls = earlier + 1 ∧
      (decoder.attempt.2.after earlier).attempt.1.outcome = .error .endOfInput := by
  cases calls with
  | zero => exact absurd ended going
  | succ earlier => exact ⟨earlier, rfl, by rwa [after_attempt]⟩

end Decoder

namespace Disassembly

/-- The loop from a decoder on: the number of its cycles, and what they yield. -/
inductive Loop (keepGoing : Bool) : Decoder → Nat → Disassembly → Prop where
  | ended {decoder : Decoder} (outcome : decoder.attempt.1.outcome = .error .endOfInput) :
      Loop keepGoing decoder 1 ⟨[], none, decoder.attempt.1.events.map .cycle⟩
  | found {decoder : Decoder} {item : Item} {cycles : Nat} {later : Disassembly}
      (outcome : decoder.attempt.1.outcome = .ok item)
      (onward : Loop keepGoing decoder.attempt.2 cycles later) :
      Loop keepGoing decoder (cycles + 1)
        ⟨.instruction item :: later.entries, later.stop,
          decoder.attempt.1.events.map .cycle ++ later.notices⟩
  | skipped {decoder : Decoder} {byte : UInt8} {cycles : Nat} {later : Disassembly}
      (outcome : decoder.attempt.1.outcome = .error (.unrecognized byte))
      (going : keepGoing = true) (onward : Loop keepGoing decoder.attempt.2 cycles later) :
      Loop keepGoing decoder (cycles + 1)
        ⟨.data decoder.position byte :: later.entries, later.stop,
          decoder.attempt.1.events.map .cycle ++ .skipped byte decoder.position :: later.notices⟩
  | stopped {decoder : Decoder} {cause : DecodeError}
      (outcome : decoder.attempt.1.outcome = .error cause) (fatal : cause.Fatal keepGoing) :
      Loop keepGoing decoder 1
        ⟨[], some ⟨decoder.position, cause⟩, decoder.attempt.1.events.map .cycle⟩

/-- The disassembly over everything that a decoder still yields. -/
def behind (keepGoing : Bool) (decoder : Decoder) : Disassembly :=
  ofAttempts keepGoing decoder.attempts.1

section Steps

variable {keepGoing : Bool} {decoder : Decoder}

theorem behind_of_end (ended : decoder.attempt.1.outcome = .error .endOfInput) :
    behind keepGoing decoder = ⟨[], none, decoder.attempt.1.events.map .cycle⟩ := by
  rw [behind, Decoder.attempts_of_end ended, Decoder.events_of_end ended]
  rfl

theorem behind_of_passes (passes : decoder.attempt.1.passes keepGoing = true) :
    behind keepGoing decoder =
      ⟨[decoder.attempt.1].filterMap (·.listed?) ++ (behind keepGoing decoder.attempt.2).entries,
        (behind keepGoing decoder.attempt.2).stop,
        decoder.attempt.1.notices keepGoing ++ (behind keepGoing decoder.attempt.2).notices⟩ := by
  have found : decoder.attempt.1.outcome ≠ .error .endOfInput := by
    intro ended
    rw [Attempt.passes, ended] at passes
    cases passes
  have split := ofAttempts_append (List.forall_mem_singleton.mpr passes) decoder.attempt.2.attempts.1
  rw [List.flatMap_singleton] at split
  rw [behind, Decoder.attempts_of_found found]
  exact split

theorem behind_of_found {item : Item} (outcome : decoder.attempt.1.outcome = .ok item) :
    behind keepGoing decoder =
      ⟨.instruction item :: (behind keepGoing decoder.attempt.2).entries,
        (behind keepGoing decoder.attempt.2).stop,
        decoder.attempt.1.events.map .cycle ++ (behind keepGoing decoder.attempt.2).notices⟩ := by
  have passes : decoder.attempt.1.passes keepGoing = true := by rw [Attempt.passes, outcome]
  rw [behind_of_passes passes]
  simp [Attempt.listed?, Attempt.notices, outcome]

theorem behind_of_skipped {byte : UInt8}
    (outcome : decoder.attempt.1.outcome = .error (.unrecognized byte)) (going : keepGoing = true) :
    behind keepGoing decoder =
      ⟨.data decoder.position byte :: (behind keepGoing decoder.attempt.2).entries,
        (behind keepGoing decoder.attempt.2).stop,
        decoder.attempt.1.events.map .cycle ++
          .skipped byte decoder.position :: (behind keepGoing decoder.attempt.2).notices⟩ := by
  have passes : decoder.attempt.1.passes keepGoing = true := by rwa [Attempt.passes, outcome]
  rw [behind_of_passes passes]
  simp [Attempt.listed?, Attempt.notices, outcome, going, Decoder.offset_attempt]

theorem behind_of_fatal {cause : DecodeError} (outcome : decoder.attempt.1.outcome = .error cause)
    (fatal : cause.Fatal keepGoing) :
    behind keepGoing decoder =
      ⟨[], some ⟨decoder.position, cause⟩, decoder.attempt.1.events.map .cycle⟩ := by
  have stops : decoder.attempt.1.passes keepGoing = false := by
    rw [Attempt.passes, outcome]
    cases cause with
    | unrecognized byte => exact fatal
    | _ => rfl
  have going : decoder.attempt.1.outcome ≠ .error .endOfInput := by
    rw [outcome]
    rintro ⟨⟩
    exact fatal
  have stop : Stop.ofAttempt? decoder.attempt.1 = some ⟨decoder.position, cause⟩ := by
    rw [Stop.ofAttempt?, outcome, Decoder.offset_attempt]
  have notices : decoder.attempt.1.notices keepGoing = decoder.attempt.1.events.map .cycle := by
    rw [Attempt.notices, outcome]
    cases cause with
    | unrecognized byte =>
      obtain rfl : keepGoing = false := fatal
      exact List.append_nil _
    | _ => exact List.append_nil _
  rw [behind, Decoder.attempts_of_found going, ofAttempts_fatal stops, stop, notices]

end Steps

/-- The loop ends, with the disassembly. -/
theorem exists_loop (keepGoing : Bool) (decoder : Decoder) :
    ∃ cycles, Loop keepGoing decoder cycles (behind keepGoing decoder) := by
  induction decoder using Decoder.attempt_induction with
  | ended decoder stop =>
    rw [behind_of_end stop]
    exact ⟨1, .ended stop⟩
  | found decoder going ih =>
    obtain ⟨cycles, onward⟩ := ih
    rcases outcome : decoder.attempt.1.outcome with cause | item
    · by_cases fatal : cause.Fatal keepGoing
      · rw [behind_of_fatal outcome fatal]
        exact ⟨1, .stopped outcome fatal⟩
      · cases cause with
        | endOfInput => exact absurd outcome going
        | truncated => exact absurd trivial fatal
        | unrecognized byte =>
          have going : keepGoing = true := by simpa [DecodeError.Fatal] using fatal
          rw [behind_of_skipped outcome going]
          exact ⟨cycles + 1, .skipped outcome going onward⟩
        | fault => exact absurd trivial fatal
    · rw [behind_of_found outcome]
      exact ⟨cycles + 1, .found outcome onward⟩

/-- The loop yields nothing but the disassembly. -/
theorem Loop.eq_behind {keepGoing : Bool} {decoder : Decoder} {cycles : Nat}
    {disassembly : Disassembly} (loop : Loop keepGoing decoder cycles disassembly) :
    disassembly = behind keepGoing decoder := by
  induction loop with
  | ended outcome => exact (behind_of_end outcome).symm
  | found outcome _ ih => rw [behind_of_found outcome, ih]
  | skipped outcome going _ ih => rw [behind_of_skipped outcome going, ih]
  | stopped outcome fatal => exact (behind_of_fatal outcome fatal).symm

/-- A cycle that is not the last makes a call that does not find the end of input. -/
theorem Loop.cycles_le {keepGoing : Bool} {decoder : Decoder} {cycles : Nat}
    {disassembly : Disassembly} (loop : Loop keepGoing decoder cycles disassembly) {calls : Nat}
    (ended : (decoder.after calls).attempt.1.outcome = .error .endOfInput) : cycles ≤ calls + 1 := by
  induction loop generalizing calls with
  | ended => omega
  | found outcome _ ih =>
    obtain ⟨earlier, rfl, ended'⟩ := Decoder.exists_earlier_of_end (by simp [outcome]) ended
    exact Nat.succ_le_succ (ih ended')
  | skipped outcome _ _ ih =>
    obtain ⟨earlier, rfl, ended'⟩ := Decoder.exists_earlier_of_end (by simp [outcome]) ended
    exact Nat.succ_le_succ (ih ended')
  | stopped => omega

end Disassembly

end Mov8086
