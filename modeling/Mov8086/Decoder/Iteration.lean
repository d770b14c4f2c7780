import Mov8086.Decoder

/-!
Iteration over a decoder. The iteration ends at the end of input; other errors are elements like
any other, behind which it goes on. Each function returns what it asks for with the decoder behind
the last attempt that it made.
-/

set_option autoImplicit false

namespace Mov8086

namespace Decoder

/-- The outcome of the next attempt, unless it finds the end of input. -/
def next (decoder : Decoder) : Option (Except DecodeError Item) × Decoder :=
  let (attempt, rest) := decoder.attempt
  (if attempt.isEnd then none else some attempt.outcome, rest)

/-- The outcome behind the next `n`, unless the end of input comes first. -/
def nth (n : Nat) (decoder : Decoder) : Option (Except DecodeError Item) × Decoder :=
  let ((_, found), rest) := decoder.scan visit (n, none)
  (found, rest)
where
  visit : Nat × Option (Except DecodeError Item) → Attempt →
      ForInStep (Nat × Option (Except DecodeError Item))
    | (0, _), attempt => .done (0, some attempt.outcome)
    | (n + 1, _), _ => .yield (n, none)

/-- The last outcome before the end of input. -/
def last (decoder : Decoder) : Option (Except DecodeError Item) × Decoder :=
  decoder.scan (fun _ attempt => .yield (some attempt.outcome)) none

/-- The number of outcomes before the end of input. -/
def count (decoder : Decoder) : Nat × Decoder :=
  decoder.scan (fun n _ => .yield (n + 1)) 0

/-- The next `n` outcomes, or fewer if the end of input comes first. -/
def take (n : Nat) (decoder : Decoder) : List (Except DecodeError Item) × Decoder :=
  match n with
  | 0 => ([], decoder)
  | n + 1 =>
    let ((_, visited), rest) := decoder.scan visit (n, [])
    (visited.reverse, rest)
where
  visit : Nat × List (Except DecodeError Item) → Attempt →
      ForInStep (Nat × List (Except DecodeError Item))
    | (0, visited), attempt => .done (0, attempt.outcome :: visited)
    | (n + 1, visited), attempt => .yield (n, attempt.outcome :: visited)

/-- The outcomes up to the end of input. -/
def all (decoder : Decoder) : List (Except DecodeError Item) × Decoder :=
  let (attempts, rest) := decoder.attempts
  (attempts.map (·.outcome), rest)

/-- The items up to the end of input, or the first error; nothing is read behind that error. -/
def collect (decoder : Decoder) : Except DecodeError (List Item) × Decoder :=
  let (collected, rest) := decoder.scan visit (.ok [])
  (collected.map List.reverse, rest)
where
  visit : Except DecodeError (List Item) → Attempt → ForInStep (Except DecodeError (List Item))
    | .error error, _ => .done (.error error)
    | .ok items, attempt =>
      match attempt.outcome with
      | .ok item => .yield (.ok (item :: items))
      | .error error => .done (.error error)

end Decoder

/-- The instructions that `data` holds, or the first error met in them. -/
def disassemble (data : List UInt8) : Except DecodeError (List Instruction) :=
  (Decoder.ofStream (ByteStream.ofBytes data)).collect.1.map (·.map (·.instruction))

end Mov8086
