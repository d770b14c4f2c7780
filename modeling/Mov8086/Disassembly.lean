import Mov8086.Listing
import Mov8086.Log

/-!
Disassemblies of whole files. A disassembly goes through the attempts of a decoder over the data
and stops at the first fatal one. An op code that is not recognised is fatal unless the
disassembly keeps going, in which case its byte becomes a data entry.
-/

set_option autoImplicit false

namespace Mov8086

namespace Attempt

/-- Whether a disassembly goes on behind the attempt. -/
def passes (keepGoing : Bool) (attempt : Attempt) : Bool :=
  match attempt.outcome with
  | .ok _ => true
  | .error (.unrecognized _) => keepGoing
  | .error _ => false

/-- The entry that stands for the attempt, if there is one. -/
def listed? (attempt : Attempt) : Option Entry :=
  match attempt.outcome with
  | .ok item => some (.instruction item)
  | .error (.unrecognized byte) => some (.data attempt.offset byte)
  | .error _ => none

/-- What a disassembly reports of the attempt. -/
def notices (keepGoing : Bool) (attempt : Attempt) : List Notice :=
  attempt.events.map .cycle ++
    match attempt.outcome with
    | .error (.unrecognized byte) => if keepGoing then [.skipped byte attempt.offset] else []
    | _ => []

end Attempt

/-- An error that ended a disassembly, and the offset at which its attempt began. -/
structure Stop where
  offset : Nat
  cause : DecodeError
deriving DecidableEq, Repr

def Stop.ofAttempt? (attempt : Attempt) : Option Stop :=
  match attempt.outcome with
  | .ok _ => none
  | .error cause => some ⟨attempt.offset, cause⟩

structure Disassembly where
  entries : List Entry
  /-- The error that ended the disassembly before the end of the data. -/
  stop : Option Stop
  notices : List Notice

namespace Disassembly

/-- The disassembly that a sequence of attempts yields. -/
def ofAttempts (keepGoing : Bool) (attempts : List Attempt) : Disassembly :=
  let (passed, fatal) := attempts.span (·.passes keepGoing)
  { entries := passed.filterMap (·.listed?)
    stop := fatal.head?.bind Stop.ofAttempt?
    notices := (passed ++ fatal.take 1).flatMap (·.notices keepGoing) }

def ofData (keepGoing : Bool) (data : List UInt8) : Disassembly :=
  ofAttempts keepGoing (Decoder.ofStream (ByteStream.ofBytes data)).attempts.1

end Disassembly

end Mov8086
