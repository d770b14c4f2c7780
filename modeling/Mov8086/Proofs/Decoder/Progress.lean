import Mov8086.Proofs.Command.Loop

/-!
How far calls go, and how soon they end. A cycle is back after at most four turns of its loop. A call
moves the position by one to four bytes unless it finds the end of input, so the data bound the
number of calls and the calls bound the data.
-/

set_option autoImplicit false

namespace Mov8086

open ByteStream

namespace Phase

variable {σ : Type} [ByteSource σ]

/-- The loop of a cycle from the phase on: the number of its turns, and what it returns. -/
inductive Returns : Phase → Logged σ → Nat → Except DecodeError Record × Logged σ → Prop where
  | complete (record : Record) (logged : Logged σ) :
      Returns (complete record) logged 1 (.ok record, logged)
  | failed {phase : Phase} {logged after : Logged σ} {error : DecodeError}
      (pending : phase.record? = none) (stepped : (step phase).on logged = (.error error, after)) :
      Returns phase logged 1 (.error error, after)
  | next {phase next : Phase} {logged after : Logged σ} {turns : Nat}
      {result : Except DecodeError Record × Logged σ} (pending : phase.record? = none)
      (stepped : (step phase).on logged = (.ok next, after))
      (onward : Returns next after turns result) : Returns phase logged (turns + 1) result

theorem exists_returns (phase : Phase) (logged : Logged σ) :
    ∃ turns, Returns phase logged turns (run phase logged) := by
  fun_induction run phase logged with
  | case1 phase logged record complete =>
    cases phase <;> cases complete
    exact ⟨1, .complete record logged⟩
  | case2 phase logged pending error after stepped => exact ⟨1, .failed pending stepped⟩
  | case3 phase logged pending next after stepped ih =>
    obtain ⟨turns, onward⟩ := ih
    exact ⟨turns + 1, .next pending stepped onward⟩

namespace Returns

variable {phase : Phase} {logged : Logged σ} {turns : Nat}
  {result : Except DecodeError Record × Logged σ}

theorem eq_run (returns : Returns phase logged turns result) : result = run phase logged := by
  induction returns with
  | complete record logged => rw [run_complete]
  | failed pending stepped => rw [run_pending pending, stepped]
  | next pending stepped _ ih => rw [run_pending pending, stepped, ih]

theorem turns_le (returns : Returns phase logged turns result) : turns ≤ phase.remaining + 1 := by
  induction returns with
  | complete => exact Nat.le_refl 1
  | failed => exact Nat.le_add_left 1 _
  | next pending stepped _ ih =>
    have lower := remaining_step_lt stepped (remaining_ne_zero pending)
    omega

end Returns

end Phase

namespace Decoder

/-! ### One call -/

/-- A call that finds bytes that break off takes them all. -/
theorem bytes_taken_of_truncated {decoder : Decoder}
    (broken : (Cycle.record decoder.source).outcome = .error .truncated) :
    bytes decoder.taken = decoder.source.pullRun.1 := by
  rcases Cycle.eq_of_truncated broken with split | ⟨split, left⟩
  · rw [List.append_cons] at split
    rw [taken_eq split rfl, bytes_append, bytes_ofBytes, bytes_gap_cons, bytes_nil, List.append_nil]
  · rw [← List.append_nil (ofBytes _), ← left] at split
    rw [taken_eq split rfl, bytes_ofBytes]

/-- Unless there is no first byte, a call takes one to four bytes. -/
theorem length_taken {decoder : Decoder}
    (found : decoder.attempt.1.outcome ≠ .error .endOfInput) :
    1 ≤ (bytes decoder.taken).length ∧ (bytes decoder.taken).length ≤ 4 := by
  rcases outcome : (Cycle.record decoder.source).outcome with error | r
  · cases error with
    | endOfInput => exact absurd (failed_iff.mpr outcome) found
    | truncated =>
      obtain ⟨begun, r, -, held, -⟩ := Cycle.truncated_iff.mp outcome
      have bound := held.length_le
      have whole := r.length_encode
      have some := List.length_pos_iff.mpr begun
      rw [bytes_taken_of_truncated outcome]
      omega
    | unrecognized value =>
      have split : decoder.source = [.byte value] ++ (Cycle.record decoder.source).rest :=
        Cycle.eq_of_unrecognized outcome
      rw [taken_eq split rfl]
      exact ⟨Nat.le_refl 1, Nat.le_add_left 1 3⟩
    | fault cause => exact absurd outcome (Cycle.outcome_ne_fault _ cause)
  · have bound := r.length_encode
    rw [taken_of_record outcome, bytes_ofBytes]
    omega

theorem taken_of_end {decoder : Decoder}
    (ended : decoder.attempt.1.outcome = .error .endOfInput) :
    decoder.taken = [] ∨ decoder.taken = [.gap] := by
  rcases Cycle.eq_of_endOfInput (failed_iff.mp ended) with split | ⟨split, left⟩
  · exact .inr (taken_eq split rfl)
  · exact .inl (taken_eq (split.trans left.symm) rfl)

theorem position_attempt_of_found {decoder : Decoder}
    (found : decoder.attempt.1.outcome ≠ .error .endOfInput) :
    decoder.position + 1 ≤ decoder.attempt.2.position ∧
      decoder.attempt.2.position ≤ decoder.position + 4 := by
  have length := length_taken found
  rw [position_attempt]
  omega

theorem position_attempt_of_end {decoder : Decoder}
    (ended : decoder.attempt.1.outcome = .error .endOfInput) :
    decoder.attempt.2.position = decoder.position := by
  rw [position_attempt]
  rcases taken_of_end ended with taken | taken <;> rw [taken] <;> rfl

/-! ### Many calls -/

theorem position_after_of_found {decoder : Decoder} {calls : Nat}
    (found : ∀ call < calls, (decoder.after call).attempt.1.outcome ≠ .error .endOfInput) :
    decoder.position + calls ≤ (decoder.after calls).position ∧
      (decoder.after calls).position ≤ decoder.position + 4 * calls := by
  induction calls with
  | zero => exact ⟨Nat.le_refl _, Nat.le_refl _⟩
  | succ calls ih =>
    have before := ih fun call earlier => found call (Nat.lt_succ_of_lt earlier)
    have moved := position_attempt_of_found (found calls (Nat.lt_succ_self calls))
    rw [after_succ]
    omega

/-- Every decoder has a first call that finds the end of input. -/
theorem exists_first_end (decoder : Decoder) :
    ∃ calls, (∀ call < calls, (decoder.after call).attempt.1.outcome ≠ .error .endOfInput) ∧
      (decoder.after calls).attempt.1.outcome = .error .endOfInput := by
  induction decoder using attempt_induction with
  | ended decoder stop => exact ⟨0, nofun, stop⟩
  | found decoder going ih =>
    obtain ⟨calls, found, ended⟩ := ih
    refine ⟨calls + 1, ?_, by rwa [← after_attempt]⟩
    intro call earlier
    cases call with
    | zero => exact going
    | succ call =>
      rw [← after_attempt]
      exact found call (Nat.lt_of_succ_lt_succ earlier)

section Gapless

variable {decoder : Decoder} {data : List UInt8} (gapless : decoder.source = ofBytes data)
include gapless

/-- Where nothing is left the position has moved by all the data. -/
theorem position_of_source_nil {calls : Nat} (nothing : (decoder.after calls).source = []) :
    (decoder.after calls).position = decoder.position + data.length := by
  have whole := takenIn_append decoder calls
  rw [nothing, List.append_nil, gapless] at whole
  rw [position_after, whole, bytes_ofBytes]

/-- A call that finds bytes that break off, or none, leaves nothing. -/
theorem source_attempt_of_last
    (last : decoder.attempt.1.outcome = .error .truncated ∨
      decoder.attempt.1.outcome = .error .endOfInput) : decoder.attempt.2.source = [] := by
  rw [source_attempt]
  rcases last with broken | ended
  · have outcome := failed_iff.mp broken
    rcases Cycle.eq_of_truncated outcome with split | ⟨-, left⟩
    · -- A gap in front of what is left is a slot of the data.
      have slots : Slot.gap ∈ ofBytes data := by
        rw [← gapless, split]
        exact List.mem_append_right _ List.mem_cons_self
      simp [ofBytes] at slots
    · exact left
  · have outcome := failed_iff.mp ended
    rw [source_eq_nil_of_end gapless ended] at outcome ⊢
    rcases Cycle.eq_of_endOfInput outcome with split | ⟨-, left⟩
    · cases split
    · exact left

end Gapless

theorem source_after_of_nil {decoder : Decoder} (nothing : decoder.source = []) (calls : Nat) :
    (decoder.after calls).source = [] := by
  have whole := takenIn_append decoder calls
  rw [nothing] at whole
  exact (List.append_eq_nil_iff.mp whole).2

theorem outcome_of_nil {decoder : Decoder} (nothing : decoder.source = []) :
    decoder.attempt.1.outcome = .error .endOfInput := by
  apply failed_iff.mpr
  rw [nothing]
  exact Cycle.endOfInput_ofBytes_iff.mpr rfl

/-- Behind a call that finds bytes that break off, or none, every call finds the end of input. -/
theorem reply_behind_last {data : List UInt8} {call later : Nat}
    (last : ((ofStream (ofBytes data)).reply call).1.outcome = .error .truncated ∨
      ((ofStream (ofBytes data)).reply call).1.outcome = .error .endOfInput)
    (behind : call < later) :
    ((ofStream (ofBytes data)).reply later).1.outcome = .error .endOfInput ∧
      ((ofStream (ofBytes data)).reply later).2 = data.length := by
  let start := ofStream (ofBytes data)
  obtain ⟨left, split⟩ := source_after_eq_ofBytes start rfl call
  have nothing : (start.after (call + 1)).source = [] := source_attempt_of_last split last
  obtain ⟨more, rfl⟩ := Nat.exists_eq_add_of_lt behind
  have spent : (start.after (call + more + 1)).source = [] := by
    rw [Nat.add_right_comm, ← after_add]
    exact source_after_of_nil nothing more
  have ended := outcome_of_nil spent
  have position := (position_of_source_nil rfl spent).trans (Nat.zero_add data.length)
  exact ⟨ended, (position_attempt_of_end ended).trans position⟩

/-- Cycles, calls and disassemblies come to an end. A cycle is back after at most four turns. A call
moves the position by one to four bytes, unless it finds the end of input; then the position stays and
at most one gap is taken. Over data without gaps the calls in front of the first that finds the end
are at most one for each byte and at least one for every four, a disassembly that keeps going ends
after at most one cycle more, and behind a call that finds bytes that break off, or none, all calls
find the end, at the length of the data. -/
theorem calls_progress (stream : ByteStream) :
    ((∃ turns, Phase.Returns .opCode ⟨stream, []⟩ turns (Phase.run .opCode ⟨stream, []⟩)) ∧
      ∀ turns result, Phase.Returns .opCode (⟨stream, []⟩ : Logged ByteStream) turns result →
        turns ≤ 4 ∧ result = Phase.run .opCode ⟨stream, []⟩) ∧
    (∀ position, let decoder : Decoder := ⟨stream, position⟩
      (decoder.attempt.1.outcome ≠ .error .endOfInput →
        position + 1 ≤ decoder.attempt.2.position ∧ decoder.attempt.2.position ≤ position + 4) ∧
      (decoder.attempt.1.outcome = .error .endOfInput →
        decoder.attempt.2.position = position ∧ (decoder.taken = [] ∨ decoder.taken = [.gap]))) ∧
    ∀ data, stream = ofBytes data →
      (∃ n, (∀ call < n, ((ofStream stream).reply call).1.outcome ≠ .error .endOfInput) ∧
        ((ofStream stream).reply n).1.outcome = .error .endOfInput ∧
        data.length ≤ 4 * n ∧ n ≤ data.length ∧
        (∃ cycles, Disassembly.Loop true (ofStream stream) cycles (Disassembly.ofData true data)) ∧
        ∀ cycles disassembly, Disassembly.Loop true (ofStream stream) cycles disassembly →
          cycles ≤ n + 1 ∧ disassembly = Disassembly.ofData true data) ∧
      ∀ call, (((ofStream stream).reply call).1.outcome = .error .truncated ∨
          ((ofStream stream).reply call).1.outcome = .error .endOfInput) →
        ∀ later > call, ((ofStream stream).reply later).1.outcome = .error .endOfInput ∧
          ((ofStream stream).reply later).2 = data.length := by
  refine ⟨⟨Phase.exists_returns .opCode _, ?_⟩, ?_, ?_⟩
  · intro turns result returns
    exact ⟨returns.turns_le, returns.eq_run⟩
  · intro position decoder
    refine ⟨position_attempt_of_found, ?_⟩
    intro ended
    exact ⟨position_attempt_of_end ended, taken_of_end ended⟩
  · rintro data rfl
    refine ⟨?_, fun call last later behind => reply_behind_last last behind⟩
    let start := ofStream (ofBytes data)
    obtain ⟨n, found, ended⟩ := exists_first_end start
    obtain ⟨left, split⟩ := source_after_eq_ofBytes start rfl n
    have whole : (start.after n).position = 0 + data.length :=
      position_of_source_nil rfl (source_eq_nil_of_end split ended)
    have bounds : 0 + n ≤ (start.after n).position ∧ (start.after n).position ≤ 0 + 4 * n :=
      position_after_of_found found
    refine ⟨n, found, ended, by omega, by omega, Disassembly.exists_loop true start, ?_⟩
    intro cycles disassembly loop
    exact ⟨loop.cycles_le ended, loop.eq_behind⟩

/-- An op code that breaks off, and the end of input behind it. -/
theorem calls_progress_opCode :
    let start := ofStream (ofBytes [0x88])
    (start.reply 0).1.outcome = .error .truncated ∧
      1 ≤ start.attempt.2.position ∧ start.attempt.2.position ≤ 4 ∧
      (∃ n ≤ 1, ∃ cycles ≤ n + 1,
        Disassembly.Loop true start cycles (Disassembly.ofData true [0x88])) ∧
      (start.reply 1).1.outcome = .error .endOfInput ∧ (start.reply 1).2 = 1 := by
  intro start
  have broken : Cycle.Broken [0x88] := Cycle.broken_opCode (by decide)
  have failed : start.attempt.1.outcome = .error .truncated := by
    apply failed_iff.mpr
    apply Cycle.truncated_iff.mpr
    rwa [show start.source.pullRun.1 = [0x88] from pullRun_ofBytes _]
  have found : start.attempt.1.outcome ≠ .error .endOfInput := by
    rw [failed]
    nofun
  obtain ⟨-, step, whole⟩ := calls_progress (ofBytes [0x88])
  obtain ⟨lower, upper⟩ := (step 0).1 found
  obtain ⟨⟨n, -, -, -, few, ⟨cycles, loop⟩, bound⟩, behind⟩ := whole [0x88] rfl
  obtain ⟨ended, position⟩ := behind 0 (.inl failed) 1 (Nat.lt_succ_self 0)
  exact ⟨failed, lower, upper, ⟨n, few, cycles, (bound cycles _ loop).1, loop⟩, ended, position⟩

end Decoder

end Mov8086
