import Mov8086.Cycle

/-!
Decoders: a stream and the number of bytes taken from it. Each attempt to decode keeps the bytes
that it took and the offset at which it began. Bytes that a failed attempt took are not given
back, so the next attempt goes on behind them.
-/

set_option autoImplicit false

namespace Mov8086

/-- A decoded instruction with the bytes it was decoded from and the offset of the first. -/
structure Item where
  offset : Nat
  bytes : List UInt8
  instruction : Instruction
deriving DecidableEq, Repr

structure Attempt where
  /-- The number of bytes taken before the attempt. -/
  offset : Nat
  outcome : Except DecodeError Item
  events : List Event

namespace Attempt

/-- Whether the attempt found the end of input. -/
def isEnd (attempt : Attempt) : Bool :=
  match attempt.outcome with
  | .error .endOfInput => true
  | _ => false

theorem isEnd_eq_true_iff {attempt : Attempt} :
    attempt.isEnd = true ↔ attempt.outcome = .error .endOfInput := by
  unfold isEnd
  split <;> simp_all

end Attempt

/-- A stream that instructions are decoded from, and the number of bytes taken from it so far. -/
structure Decoder where
  source : ByteStream
  position : Nat

namespace Decoder

def ofStream (stream : ByteStream) : Decoder :=
  ⟨stream, 0⟩

/-- Runs one cycle, keeping the bytes that it takes. -/
def attempt (decoder : Decoder) : Attempt × Decoder :=
  let ⟨outcome, events, ⟨rest, bytes⟩⟩ :=
    Cycle.instruction (⟨decoder.source, []⟩ : Recording ByteStream)
  (⟨decoder.position, outcome.map (⟨decoder.position, bytes, ·⟩), events⟩,
    ⟨rest, decoder.position + bytes.length⟩)

theorem length_source_attempt_lt {decoder : Decoder}
    (found : decoder.attempt.1.outcome ≠ .error .endOfInput) :
    decoder.attempt.2.source.length < decoder.source.length := by
  have bound := @Cycle.size_rest_lt (Recording ByteStream) _ ⟨decoder.source, []⟩
  unfold attempt at found ⊢
  rcases ran : Cycle.instruction (⟨decoder.source, []⟩ : Recording ByteStream) with
    ⟨error | instruction, events, rest⟩
  · rw [ran] at bound
    exact bound (by simpa [ran, Except.map] using found)
  · rw [ran] at bound
    exact bound (by simp)

/-- Folds `visit` over the attempts up to the end of input, or until it is done. -/
def scan {β : Type} (visit : β → Attempt → ForInStep β) (decoder : Decoder) (value : β) :
    β × Decoder :=
  match _ : decoder.attempt with
  | (attempt, rest) =>
    match _ : attempt.isEnd with
    | true => (value, rest)
    | false =>
      match visit value attempt with
      | .done value => (value, rest)
      | .yield value => scan visit rest value
termination_by decoder.source.length
decreasing_by
  have bound := @length_source_attempt_lt decoder
  simp_all [← Attempt.isEnd_eq_true_iff]

theorem scan_of_end {β : Type} (visit : β → Attempt → ForInStep β) {decoder : Decoder}
    (ended : decoder.attempt.1.outcome = .error .endOfInput) (value : β) :
    decoder.scan visit value = (value, decoder.attempt.2) := by
  have isEnd := Attempt.isEnd_eq_true_iff.mpr ended
  rw [scan]
  split
  next attempt rest ran =>
    rw [ran] at isEnd ⊢
    split
    · rfl
    · simp_all

theorem scan_of_found {β : Type} (visit : β → Attempt → ForInStep β) {decoder : Decoder}
    (found : decoder.attempt.1.outcome ≠ .error .endOfInput) (value : β) :
    decoder.scan visit value =
      match visit value decoder.attempt.1 with
      | .done value => (value, decoder.attempt.2)
      | .yield value => decoder.attempt.2.scan visit value := by
  have isEnd := mt Attempt.isEnd_eq_true_iff.mp found
  rw [scan]
  split
  next attempt rest ran =>
    rw [ran] at isEnd ⊢
    split
    · simp_all
    · rfl

/-- The attempts up to the end of input, and the decoder behind it. -/
def attempts (decoder : Decoder) : List Attempt × Decoder :=
  let (visited, rest) := decoder.scan (fun visited attempt => .yield (attempt :: visited)) []
  (visited.reverse, rest)

end Decoder

end Mov8086
