import Mov8086.Proofs.Decoder.Calls

/-!
The attempts of a decoder up to the end of input, one call after another. A decoder that starts at
another position makes the same attempts, with every offset moved by the same number of bytes.
-/

set_option autoImplicit false

namespace Mov8086

/-- The item, found so many bytes further on. -/
def Item.shift (n : Nat) (item : Item) : Item :=
  { item with offset := n + item.offset }

/-- The attempt, made so many bytes further on. -/
def Attempt.shift (n : Nat) (attempt : Attempt) : Attempt where
  offset := n + attempt.offset
  outcome := attempt.outcome.map (Item.shift n)
  events := attempt.events

namespace Decoder

/-- The decoder of the same stream, so many bytes further on. -/
def shift (n : Nat) (decoder : Decoder) : Decoder :=
  ⟨decoder.source, n + decoder.position⟩

/-- What holds at the end of input, and holds of a decoder if it holds behind its next attempt,
holds of every decoder. -/
@[elab_as_elim]
theorem attempt_induction {motive : Decoder → Prop}
    (ended : ∀ decoder : Decoder,
      decoder.attempt.1.outcome = .error .endOfInput → motive decoder)
    (found : ∀ decoder : Decoder,
      decoder.attempt.1.outcome ≠ .error .endOfInput → motive decoder.attempt.2 → motive decoder)
    (decoder : Decoder) : motive decoder := by
  by_cases stop : decoder.attempt.1.outcome = .error .endOfInput
  · exact ended decoder stop
  · have shorter := length_source_attempt_lt stop
    exact found decoder stop (attempt_induction ended found decoder.attempt.2)
termination_by decoder.source.length

/-! ### One attempt after another -/

private theorem scan_attempts (decoder : Decoder) (visited : List Attempt) :
    decoder.scan (fun visited attempt => .yield (attempt :: visited)) visited =
      (decoder.attempts.1.reverse ++ visited, decoder.attempts.2) := by
  simp only [attempts, List.reverse_reverse]
  induction decoder using attempt_induction generalizing visited with
  | ended decoder stop => rw [scan_of_end _ stop, scan_of_end _ stop, List.nil_append]
  | found decoder going ih =>
    rw [scan_of_found _ going, scan_of_found _ going]
    dsimp only
    rw [ih, ih [decoder.attempt.1], List.append_assoc, List.singleton_append]

theorem attempts_of_end {decoder : Decoder}
    (ended : decoder.attempt.1.outcome = .error .endOfInput) :
    decoder.attempts = ([], decoder.attempt.2) := by
  rw [attempts, scan_of_end _ ended]
  rfl

theorem attempts_of_found {decoder : Decoder}
    (found : decoder.attempt.1.outcome ≠ .error .endOfInput) :
    decoder.attempts =
      (decoder.attempt.1 :: decoder.attempt.2.attempts.1, decoder.attempt.2.attempts.2) := by
  rw [attempts, scan_of_found _ found]
  simp only [scan_attempts, List.reverse_append, List.reverse_reverse]
  rfl

theorem attempts_cons {decoder rest : Decoder} {attempt : Attempt}
    (ran : decoder.attempt = (attempt, rest)) (found : attempt.outcome ≠ .error .endOfInput) :
    decoder.attempts = (attempt :: rest.attempts.1, rest.attempts.2) := by
  have going : decoder.attempt.1.outcome ≠ .error .endOfInput := by rwa [ran]
  rw [attempts_of_found going, ran]

theorem after_add (decoder : Decoder) (calls more : Nat) :
    (decoder.after calls).after more = decoder.after (calls + more) := by
  induction more with
  | zero => rfl
  | succ more ih => rw [after_succ, ih, ← Nat.add_assoc, after_succ]

/-- What a call answers, the calls counted from zero, and the position behind it. -/
def reply (decoder : Decoder) (call : Nat) : Attempt × Nat :=
  ((decoder.after call).attempt.1, (decoder.after (call + 1)).position)

theorem reply_after (decoder : Decoder) (calls call : Nat) :
    (decoder.after calls).reply call = decoder.reply (calls + call) := by
  rw [reply, after_add, after_add, ← Nat.add_assoc]
  rfl

/-! ### Further on -/

theorem taken_shift (n : Nat) (decoder : Decoder) : (decoder.shift n).taken = decoder.taken := by
  rw [taken, source_attempt, taken, source_attempt]
  rfl

theorem attempt_shift (n : Nat) (decoder : Decoder) :
    (decoder.shift n).attempt = (decoder.attempt.1.shift n, decoder.attempt.2.shift n) := by
  rw [attempt_eq, attempt_eq decoder, taken_shift]
  simp only [shift, Attempt.shift, Nat.add_assoc]
  rcases (Cycle.instruction decoder.source).outcome with error | i <;> rfl

theorem after_shift (n : Nat) (decoder : Decoder) (calls : Nat) :
    (decoder.shift n).after calls = (decoder.after calls).shift n := by
  induction calls with
  | zero => rfl
  | succ calls ih => rw [after_succ, after_succ, ih, attempt_shift]

theorem reply_shift (n : Nat) (decoder : Decoder) (call : Nat) :
    (decoder.shift n).reply call =
      ((decoder.reply call).1.shift n, n + (decoder.reply call).2) := by
  rw [reply, after_shift, after_shift, attempt_shift]
  rfl

theorem isEnd_shift_iff {n : Nat} {attempt : Attempt} :
    (attempt.shift n).outcome = .error .endOfInput ↔ attempt.outcome = .error .endOfInput := by
  obtain ⟨offset, error | item, events⟩ := attempt <;> simp [Attempt.shift, Except.map]

theorem attempts_shift (n : Nat) (decoder : Decoder) :
    (decoder.shift n).attempts =
      (decoder.attempts.1.map (Attempt.shift n), decoder.attempts.2.shift n) := by
  induction decoder using attempt_induction with
  | ended decoder stop =>
    have stop' : (decoder.shift n).attempt.1.outcome = .error .endOfInput := by
      rw [attempt_shift]
      exact isEnd_shift_iff.mpr stop
    rw [attempts_of_end stop, attempts_of_end stop', attempt_shift]
    rfl
  | found decoder going ih =>
    have going' : (decoder.shift n).attempt.1.outcome ≠ .error .endOfInput := by
      rw [attempt_shift]
      exact mt isEnd_shift_iff.mp going
    rw [attempts_of_found going, attempts_of_found going', attempt_shift, ih]
    rfl

end Decoder

end Mov8086
