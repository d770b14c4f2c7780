import Mov8086.Reading
import Mov8086.Script

/-!
Scripts of raw reads over one stream.
-/

set_option autoImplicit false

namespace Mov8086

inductive Read where
  | byte
  | word
  | displacement (size : Nat)
  | immediate (width : Width)
deriving DecidableEq, Repr

namespace Read

variable {σ : Type} [ByteSource σ]

/-- The reading that answers with the number read: bytes, words and constants without sign,
displacements with theirs. -/
def reading : Read → Reading σ Int
  | byte => return (← Reading.byte).toNat
  | word => return (← Reading.word).toNat
  | displacement size => return (← Reading.displacement size).toInt
  | immediate width => return (← Reading.immediate width).toNat

def perform (read : Read) (stream : ByteStream) : Except DecodeError Int × ByteStream :=
  read.reading.on stream

end Read

end Mov8086
