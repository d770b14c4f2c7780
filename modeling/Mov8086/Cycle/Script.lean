import Mov8086.Cycle
import Mov8086.Script

/-!
Scripts of decode cycles and raw pulls over one stream.
-/

set_option autoImplicit false

namespace Mov8086

/-- One use of a stream. -/
inductive Pull where
  | record
  | instruction
  | byte
  /-- The bytes up to the next gap or the end. -/
  | run
deriving DecidableEq, Repr

namespace Pull

/-- What one use of a stream answers. -/
inductive Answer where
  | record (outcome : Except DecodeError Record)
  | instruction (outcome : Except DecodeError Instruction)
  | byte (value : Option UInt8)
  | run (bytes : List UInt8)

def perform (pull : Pull) (stream : ByteStream) : Answer × ByteStream :=
  match pull with
  | record => let cycle := Cycle.record stream; (.record cycle.outcome, cycle.rest)
  | instruction => let cycle := Cycle.instruction stream; (.instruction cycle.outcome, cycle.rest)
  | byte => let (value, rest) := stream.pull; (.byte value, rest)
  | run => let (bytes, rest) := stream.pullRun; (.run bytes, rest)

end Pull

end Mov8086
