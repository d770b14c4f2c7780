import Mov8086.Cycle

/-!
Traces: instructions decoded one after the other from a stream until the first error, with
everything that the cycles reported.
-/

set_option autoImplicit false

namespace Mov8086

/-- The outcomes of cycles run one after the other, and what they reported. -/
structure Trace where
  results : List (Except DecodeError Instruction)
  events : List Event

namespace Trace

/-- The cycles over a stream up to and including the first error. -/
def ofStream (stream : ByteStream) : Trace :=
  match _ : Cycle.instruction stream with
  | ⟨.error error, events, _⟩ => ⟨[.error error], events⟩
  | ⟨.ok instruction, events, rest⟩ =>
    let later := ofStream rest
    ⟨.ok instruction :: later.results, events ++ later.events⟩
termination_by stream.length
decreasing_by
  have bound := @Cycle.size_rest_lt ByteStream _ stream
  simp_all [ByteSource.size]

end Trace

end Mov8086
