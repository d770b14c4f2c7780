import Mov8086.Fault
import Mov8086.Width

/-!
The general purpose registers. A code names a pair, and the width of the operand tells which of the
two is meant: code four is `ah` for a byte and `sp` for a word.
-/

set_option autoImplicit false

namespace Mov8086

/-- A register code, named for its byte register and its word register. -/
inductive Register where
  | alAx
  | clCx
  | dlDx
  | blBx
  | ahSp
  | chBp
  | dhSi
  | bhDi
deriving DecidableEq, Repr

namespace Register

/-- The register with the given code; codes above seven name none. -/
def ofCode (code : UInt8) : Except Fault Register :=
  match code.toNat with
  | 0 => .ok alAx
  | 1 => .ok clCx
  | 2 => .ok dlDx
  | 3 => .ok blBx
  | 4 => .ok ahSp
  | 5 => .ok chBp
  | 6 => .ok dhSi
  | 7 => .ok bhDi
  | _ => .error (.registerCode code)

def code : Register → UInt8
  | alAx => 0
  | clCx => 1
  | dlDx => 2
  | blBx => 3
  | ahSp => 4
  | chBp => 5
  | dhSi => 6
  | bhDi => 7

/-- The name that assembly text gives to the register at a width. -/
def name : Register → Width → String
  | alAx, .byte => "al"
  | clCx, .byte => "cl"
  | dlDx, .byte => "dl"
  | blBx, .byte => "bl"
  | ahSp, .byte => "ah"
  | chBp, .byte => "ch"
  | dhSi, .byte => "dh"
  | bhDi, .byte => "bh"
  | alAx, .word => "ax"
  | clCx, .word => "cx"
  | dlDx, .word => "dx"
  | blBx, .word => "bx"
  | ahSp, .word => "sp"
  | chBp, .word => "bp"
  | dhSi, .word => "si"
  | bhDi, .word => "di"

def all : List Register :=
  [alAx, clCx, dlDx, blBx, ahSp, chBp, dhSi, bhDi]

theorem ofCode_code (r : Register) : ofCode r.code = .ok r := by
  cases r <;> rfl

theorem ofCode_eq_ok_iff {code : UInt8} {r : Register} : ofCode code = .ok r ↔ code = r.code := by
  constructor
  · intro h
    apply UInt8.toNat_inj.mp
    unfold ofCode at h
    split at h <;> cases h <;> simp [*, Register.code]
  · rintro rfl
    exact ofCode_code r

theorem code_inj {r r' : Register} : r.code = r'.code ↔ r = r' := by
  rw [← ofCode_eq_ok_iff, ofCode_code, Except.ok.injEq]

theorem code_le (r : Register) : r.code ≤ 7 := by
  cases r <;> decide

end Register

end Mov8086
