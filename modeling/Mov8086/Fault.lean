/-!
Faults: values of a code or a shift that no field of an instruction can hold. They arise only from
codes put together by hand, never from codes taken out of a byte. The checks that find them are
assumed to be compiled in, as in a build for debugging.
-/

set_option autoImplicit false

namespace Mov8086

/-- Why a code has no meaning. -/
inductive Fault where
  | registerCode (code : UInt8)
  | addressCode (code : UInt8)
  | modeCode (code : UInt8)
  /-- A shift of a byte by eight bits or more. -/
  | shiftAmount (amount : UInt8)
deriving DecidableEq, Repr

namespace Fault

def message : Fault → String
  | registerCode _ => "assertion failed: encoding <= 0b111"
  | addressCode _ => "assertion failed: encoding <= 0b111"
  | modeCode _ => "assertion failed: encoding <= 0b11"
  | shiftAmount _ => "attempt to shift right with overflow"

end Fault

end Mov8086
