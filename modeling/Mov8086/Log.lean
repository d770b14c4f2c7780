import Mov8086.Event

/-!
Logs: notices, each with a level, of which a threshold lets some through. No level is assumed to be
compiled out, as in a build for debugging.
-/

set_option autoImplicit false

namespace Mov8086

/-- The level of a notice, or the threshold of a log. -/
inductive Level where
  | warn
  | info
  | debug
  | trace
deriving DecidableEq, Repr

namespace Level

/-- The place of the level in the order from the gravest to the most detailed. -/
def rank : Level → Nat
  | warn => 0
  | info => 1
  | debug => 2
  | trace => 3

/-- The threshold for a number of requests for more detail. -/
def ofVerbosity (verbosity : UInt8) : Level :=
  match verbosity.toNat with
  | 0 => warn
  | 1 => info
  | 2 => debug
  | _ => trace

def label : Level → String
  | warn => "WARN"
  | info => "INFO"
  | debug => "DEBUG"
  | trace => "TRACE"

/-- Whether a log with this threshold shows notices of the given level. -/
def shows (threshold level : Level) : Bool :=
  level.rank ≤ threshold.rank

end Level

/-- What a run reports besides its output. -/
inductive Notice where
  | loaded (size : Nat) (path : String)
  /-- A byte that begins no instruction was passed over. -/
  | skipped (byte : UInt8) (offset : Nat)
  | cycle (event : Event)
deriving DecidableEq, Repr

namespace Notice

def level : Notice → Level
  | loaded .. => .info
  | skipped .. => .warn
  | cycle _ => .debug

def target : Notice → String
  | loaded .. => "sim86_dis"
  | skipped .. => "sim86_dis"
  | cycle _ => "sim86_decoder::decode"

def message : Notice → String
  | loaded size path => "loaded " ++ Numeral.decimal size ++ " bytes from " ++ path
  | skipped byte offset =>
    "unrecognized op code 0x" ++ Numeral.hex 2 byte.toNat ++ " at 0x" ++ Numeral.hex 4 offset
  | cycle event => event.message

/-- The record that a log is assumed to write of the notice: the level, where the notice comes from
and the message. The time in front of them is left out. -/
def line (notice : Notice) : String :=
  notice.level.label ++ " " ++ notice.target ++ ": " ++ notice.message

end Notice

end Mov8086
