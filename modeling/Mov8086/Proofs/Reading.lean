import Mov8086.Proofs.ByteStream
import Mov8086.Proofs.LittleEndian
import Mov8086.Proofs.Simulation

/-!
Exact readings. Each reading needs a fixed count of bytes: where they are there it takes exactly
these and answers with what they stand for; where they are not it takes the bytes that are there
and the gap behind them, and fails.
-/

set_option autoImplicit false

namespace Mov8086

open ByteStream

namespace Reading

variable {α β : Type}

/-- A reading needs `size` bytes and answers with their value. -/
structure Needs (reading : Reading ByteStream α) (size : Nat) (value : List UInt8 → α) : Prop where
  found {data : List UInt8} (rest : ByteStream) : data.length = size →
    reading.on (ofBytes data ++ rest) = (.ok (value data), rest)
  missing {data : List UInt8} {tail rest : ByteStream} : data.length < size →
    tail.pull = (none, rest) → reading.on (ofBytes data ++ tail) = (.error .truncated, rest)

@[simp] theorem on_byteOr_byte (missing : DecodeError) (value : UInt8) (rest : ByteStream) :
    (byteOr missing).on (Slot.byte value :: rest) = (.ok value, rest) := rfl

theorem on_byteOr_none (missing : DecodeError) {tail rest : ByteStream}
    (none : tail.pull = (none, rest)) : (byteOr missing).on tail = (.error missing, rest) := by
  simp only [on_byteOr, ByteSource.pull, none]

theorem needs_nothing {value : List UInt8 → α} {result : α} (known : result = value []) :
    Needs (pure result) 0 value where
  found rest length := by
    rw [List.length_eq_zero_iff.mp length, known]
    rfl
  missing short := absurd short (Nat.not_lt_zero _)

theorem Needs.byte_bind {next : UInt8 → Reading ByteStream α} {size : Nat}
    {value : List UInt8 → α} (later : ∀ b, Needs (next b) size fun data => value (b :: data)) :
    Needs (byte >>= next) (size + 1) value where
  found {data} rest length := by
    cases data with
    | nil => cases length
    | cons b data =>
      have behind := (later b).found rest (Nat.succ.inj length)
      rw [on_bind]
      exact behind
  missing {data tail rest} short none := by
    cases data with
    | nil =>
      have first := on_byteOr_none .truncated none
      rw [on_bind, byte, ofBytes_nil, List.nil_append, first]
    | cons b data =>
      have behind := (later b).missing (Nat.lt_of_succ_lt_succ short) none
      rw [on_bind]
      exact behind

/-- A word is read from two bytes, low byte first. -/
theorem needs_word : Needs word 2 fun data => UInt16.ofNat (LittleEndian.toNat data) :=
  Needs.byte_bind fun _ => Needs.byte_bind fun _ => needs_nothing rfl

theorem needs_immediate (width : Width) :
    Needs (immediate width) width.bytes fun data => UInt16.ofNat (LittleEndian.toNat data) := by
  cases width with
  | byte =>
    refine Needs.byte_bind fun b => ?_
    apply needs_nothing
    simp [LittleEndian.toNat]
  | word => exact needs_word

theorem Needs.map {reading : Reading ByteStream α} {size : Nat} {value : List UInt8 → α}
    (needs : Needs reading size value) (f : α → β) :
    Needs (reading >>= fun result => pure (f result)) size fun data => f (value data) where
  found rest length := by
    rw [on_bind, needs.found rest length]
    rfl
  missing short none := by rw [on_bind, needs.missing short none]

theorem Needs.congr {reading : Reading ByteStream α} {size : Nat} {value value' : List UInt8 → α}
    (needs : Needs reading size value)
    (same : ∀ data, data.length = size → value data = value' data) : Needs reading size value' where
  found {data} rest length := by rw [← same data length, needs.found rest length]
  missing := needs.missing

/-- A displacement is read with its sign, from one byte or from two. -/
theorem needs_displacement {size : Nat} (some : size ≠ 0) :
    Needs (displacement size) (min size 2) fun data =>
      Int16.ofInt (LittleEndian.toInt data) := by
  match size with
  | 0 => exact absurd rfl some
  | 1 => exact Needs.byte_bind fun b => needs_nothing (LittleEndian.toInt16_byte b)
  | size + 2 =>
    have two : min (size + 2) 2 = 2 := by omega
    rw [two]
    refine (needs_word.map UInt16.toInt16).congr ?_
    intro data length
    match data with
    | [low, high] => exact LittleEndian.toInt16_word low high

end Reading

end Mov8086
