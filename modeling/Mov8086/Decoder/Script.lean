import Mov8086.Decoder.Iteration
import Mov8086.Script

/-!
Scripts of uses of one decoder.
-/

set_option autoImplicit false

namespace Mov8086

namespace Decoder

/-- One use of a decoder. -/
inductive Use where
  /-- One attempt, the end of input included. -/
  | attempt
  | next
  | nth (n : Nat)
  | last
  | count
  | take (n : Nat)
  | all
  | collect
  /-- Nothing but a look at the position. -/
  | position
deriving DecidableEq, Repr

inductive Answer where
  | outcome (outcome : Except DecodeError Item)
  | found (outcome : Option (Except DecodeError Item))
  | number (n : Nat)
  | outcomes (outcomes : List (Except DecodeError Item))
  | items (items : Except DecodeError (List Item))
  | nothing

def perform (use : Use) (decoder : Decoder) : Answer × Decoder :=
  match use with
  | .attempt => let (attempt, rest) := decoder.attempt; (.outcome attempt.outcome, rest)
  | .next => let (found, rest) := decoder.next; (.found found, rest)
  | .nth n => let (found, rest) := decoder.nth n; (.found found, rest)
  | .last => let (found, rest) := decoder.last; (.found found, rest)
  | .count => let (n, rest) := decoder.count; (.number n, rest)
  | .take n => let (outcomes, rest) := decoder.take n; (.outcomes outcomes, rest)
  | .all => let (outcomes, rest) := decoder.all; (.outcomes outcomes, rest)
  | .collect => let (items, rest) := decoder.collect; (.items items, rest)
  | .position => (.nothing, decoder)

end Decoder

end Mov8086
