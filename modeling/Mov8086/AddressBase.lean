import Mov8086.Fault

/-!
The base and index registers that an indirect memory operand adds up.
-/

set_option autoImplicit false

namespace Mov8086

/-- The sum of registers that an indirect memory operand starts from. -/
inductive AddressBase where
  | bxSi
  | bxDi
  | bpSi
  | bpDi
  | si
  | di
  | bp
  | bx
deriving DecidableEq, Repr

namespace AddressBase

/-- The address code that stands for a bare address when no displacement follows: `[bp]` has no
encoding of its own in that mode. -/
def directCode : UInt8 := 0b110

/-- The base with the given code; codes above seven name none. -/
def ofCode (code : UInt8) : Except Fault AddressBase :=
  match code.toNat with
  | 0 => .ok bxSi
  | 1 => .ok bxDi
  | 2 => .ok bpSi
  | 3 => .ok bpDi
  | 4 => .ok si
  | 5 => .ok di
  | 6 => .ok bp
  | 7 => .ok bx
  | _ => .error (.addressCode code)

def code : AddressBase → UInt8
  | bxSi => 0
  | bxDi => 1
  | bpSi => 2
  | bpDi => 3
  | si => 4
  | di => 5
  | bp => 6
  | bx => 7

def expression : AddressBase → String
  | bxSi => "bx + si"
  | bxDi => "bx + di"
  | bpSi => "bp + si"
  | bpDi => "bp + di"
  | si => "si"
  | di => "di"
  | bp => "bp"
  | bx => "bx"

def all : List AddressBase :=
  [bxSi, bxDi, bpSi, bpDi, si, di, bp, bx]

theorem ofCode_code (b : AddressBase) : ofCode b.code = .ok b := by
  cases b <;> rfl

theorem ofCode_eq_ok_iff {code : UInt8} {b : AddressBase} :
    ofCode code = .ok b ↔ code = b.code := by
  constructor
  · intro h
    apply UInt8.toNat_inj.mp
    unfold ofCode at h
    split at h <;> cases h <;> simp [*, AddressBase.code]
  · rintro rfl
    exact ofCode_code b

theorem code_inj {b b' : AddressBase} : b.code = b'.code ↔ b = b' := by
  rw [← ofCode_eq_ok_iff, ofCode_code, Except.ok.injEq]

theorem code_le (b : AddressBase) : b.code ≤ 7 := by
  cases b <;> decide

end AddressBase

end Mov8086
