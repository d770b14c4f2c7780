/-!
Sources of bytes. A byte stream is a finite list of slots, each a byte or a gap; a recording keeps
the bytes that are pulled through it. Every source has a size that a pulled byte makes smaller, so
whatever repeats a pull until no byte comes ends.
-/

set_option autoImplicit false

namespace Mov8086

/-- One place in a byte stream. -/
inductive Slot where
  | byte (value : UInt8)
  /-- A place at which the stream answers once that it has no byte, and then goes on. -/
  | gap
deriving DecidableEq, Repr

/-- The byte in the slot, if it is not a gap. -/
def Slot.byte? : Slot → Option UInt8
  | byte value => some value
  | gap => none

/-- A stream of bytes and gaps; behind the last slot it has no byte for ever. -/
abbrev ByteStream := List Slot

namespace ByteStream

/-- The stream of the given bytes, without gaps. -/
def ofBytes (bytes : List UInt8) : ByteStream :=
  bytes.map .byte

/-- The next byte, if the next slot is one, and what is left behind that slot. -/
def pull : ByteStream → Option UInt8 × ByteStream
  | [] => (none, [])
  | .byte value :: rest => (some value, rest)
  | .gap :: rest => (none, rest)

/-- The bytes up to the next gap or the end, and what is left behind it. -/
def pullRun (stream : ByteStream) : List UInt8 × ByteStream :=
  let (run, rest) := stream.span (·.byte?.isSome)
  (run.filterMap Slot.byte?, rest.drop 1)

end ByteStream

/-- A source that bytes can be pulled from one at a time. -/
class ByteSource (σ : Type) where
  /-- The next byte, if there is one now, and the source behind it. -/
  pull : σ → Option UInt8 × σ
  /-- A bound on the number of bytes still to come. -/
  size : σ → Nat
  size_pull_le (source : σ) : size (pull source).2 ≤ size source
  size_pull_lt (source : σ) : (pull source).1.isSome → size (pull source).2 < size source

instance : ByteSource ByteStream where
  pull := ByteStream.pull
  size := List.length
  size_pull_le stream := by
    rcases stream with _ | ⟨_ | _, _⟩ <;> simp [ByteStream.pull]
  size_pull_lt stream := by
    rcases stream with _ | ⟨_ | _, _⟩ <;> simp [ByteStream.pull]

/-- A source together with the bytes pulled from it so far. -/
structure Recording (σ : Type) where
  source : σ
  bytes : List UInt8
deriving DecidableEq, Repr

namespace Recording

variable {σ : Type} [ByteSource σ]

/-- Pulls a byte from the source and keeps it. -/
def pull (recording : Recording σ) : Option UInt8 × Recording σ :=
  match ByteSource.pull recording.source with
  | (some byte, rest) => (some byte, ⟨rest, recording.bytes ++ [byte]⟩)
  | (none, rest) => (none, ⟨rest, recording.bytes⟩)

instance : ByteSource (Recording σ) where
  pull := Recording.pull
  size recording := ByteSource.size recording.source
  size_pull_le recording := by
    have bound := ByteSource.size_pull_le recording.source
    unfold Recording.pull
    split <;> simpa [*] using bound
  size_pull_lt recording := by
    have bound := ByteSource.size_pull_lt recording.source
    unfold Recording.pull
    split <;> simp_all

end Recording

end Mov8086
