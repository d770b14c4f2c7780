import Mov8086.ByteSource
import Mov8086.DecodeError
import Mov8086.LittleEndian
import Mov8086.Width

/-!
Readings: programs that pull bytes from a source and may fail. What a reading has pulled stays
pulled when it fails. The data of an instruction are read lowest byte first.
-/

set_option autoImplicit false

namespace Mov8086

/-- A program that pulls bytes from a source of type `σ` and may fail. -/
abbrev Reading (σ α : Type) := ExceptT DecodeError (StateM σ) α

namespace Reading

variable {σ α β : Type}

/-- The outcome of a reading on a source, and what it leaves of the source. -/
def on (reading : Reading σ α) (source : σ) : Except DecodeError α × σ :=
  reading.run.run source

/-- Fails with the error, having read nothing. -/
def fail (error : DecodeError) : Reading σ α :=
  throw error

/-- The value, or its error. -/
def ofExcept : Except DecodeError α → Reading σ α
  | .ok value => pure value
  | .error error => fail error

variable [ByteSource σ]

/-- The next byte; `missing` when there is none. -/
def byteOr (missing : DecodeError) : Reading σ UInt8 :=
  ExceptT.mk fun source =>
    match ByteSource.pull source with
    | (some byte, rest) => (.ok byte, rest)
    | (none, rest) => (.error missing, rest)

/-- The next byte of an instruction that has begun. -/
def byte : Reading σ UInt8 :=
  byteOr .truncated

/-- The next two bytes as a word, low byte first. -/
def word : Reading σ UInt16 := do
  let low ← byte
  let high ← byte
  return UInt16.ofNat (LittleEndian.toNat [low, high])

/-- A displacement of `size` bytes: none is zero, a single byte is extended by its sign, and any
other size is a word. -/
def displacement : Nat → Reading σ Int16
  | 0 => return 0
  | 1 => return (← byte).toInt8.toInt16
  | _ => return (← word).toInt16

/-- A constant of the given width. -/
def immediate : Width → Reading σ UInt16
  | .byte => return (← byte).toUInt16
  | .word => word

/-! ### What a reading leaves -/

omit [ByteSource σ] in
@[simp] theorem on_pure (value : α) (source : σ) :
    (pure value : Reading σ α).on source = (.ok value, source) := rfl

omit [ByteSource σ] in
@[simp] theorem on_fail (error : DecodeError) (source : σ) :
    (fail error : Reading σ α).on source = (.error error, source) := rfl

omit [ByteSource σ] in
theorem on_bind (reading : Reading σ α) (next : α → Reading σ β) (source : σ) :
    (reading >>= next).on source =
      match reading.on source with
      | (.ok value, rest) => (next value).on rest
      | (.error error, rest) => (.error error, rest) := by
  change (match reading.on source with
    | (outcome, rest) => (ExceptT.bindCont next outcome : StateM σ (Except DecodeError β)) rest) = _
  rcases reading.on source with ⟨_ | _, _⟩ <;> rfl

omit [ByteSource σ] in
theorem on_bind_eq_ok_iff {reading : Reading σ α} {next : α → Reading σ β} {before after : σ}
    {result : β} :
    (reading >>= next).on before = (.ok result, after) ↔
      ∃ value middle, reading.on before = (.ok value, middle) ∧
        (next value).on middle = (.ok result, after) := by
  rw [on_bind]
  rcases reading.on before with ⟨_ | _, middle⟩
  · simp
  · constructor
    · exact fun h => ⟨_, _, rfl, h⟩
    · rintro ⟨_, _, ⟨⟩, h⟩
      exact h

omit [ByteSource σ] in
@[simp] theorem on_ofExcept (outcome : Except DecodeError α) (source : σ) :
    (ofExcept outcome : Reading σ α).on source = (outcome, source) := by
  cases outcome <;> rfl

theorem on_byteOr (missing : DecodeError) (source : σ) :
    (byteOr missing : Reading σ UInt8).on source =
      match ByteSource.pull source with
      | (some byte, rest) => (.ok byte, rest)
      | (none, rest) => (.error missing, rest) := rfl

/-! ### The size of what is left -/

/-- A reading shrinks when what it leaves is never larger than what it was given. -/
def Shrinks (reading : Reading σ α) : Prop :=
  ∀ source, ByteSource.size (reading.on source).2 ≤ ByteSource.size source

theorem shrinks_pure (value : α) : Shrinks (pure value : Reading σ α) := fun _ => Nat.le_refl _

theorem shrinks_ofExcept (outcome : Except DecodeError α) :
    Shrinks (ofExcept outcome : Reading σ α) := fun source =>
  Nat.le_of_eq (congrArg (fun result => ByteSource.size result.2) (on_ofExcept outcome source))

theorem Shrinks.bind {reading : Reading σ α} {next : α → Reading σ β} (first : Shrinks reading)
    (second : ∀ value, Shrinks (next value)) : Shrinks (reading >>= next) := by
  intro source
  have bound := first source
  rw [on_bind]
  split
  · next value rest h =>
    rw [h] at bound
    exact Nat.le_trans (second value rest) bound
  · next h =>
    rw [h] at bound
    exact bound

theorem shrinks_byteOr (missing : DecodeError) : Shrinks (byteOr missing : Reading σ UInt8) := by
  intro source
  have bound := ByteSource.size_pull_le source
  rw [on_byteOr]
  split <;> simp_all

theorem shrinks_word : Shrinks (word : Reading σ UInt16) :=
  (shrinks_byteOr _).bind fun _ => (shrinks_byteOr _).bind fun _ => shrinks_pure _

theorem shrinks_displacement (size : Nat) : Shrinks (displacement size : Reading σ Int16) := by
  unfold displacement
  split
  · exact shrinks_pure _
  · exact (shrinks_byteOr _).bind fun _ => shrinks_pure _
  · exact shrinks_word.bind fun _ => shrinks_pure _

theorem shrinks_immediate (width : Width) : Shrinks (immediate width : Reading σ UInt16) := by
  cases width
  · exact (shrinks_byteOr _).bind fun _ => shrinks_pure _
  · exact shrinks_word

/-- A reading that begins with a byte leaves less than it was given, unless that byte is missing. -/
theorem size_byteOr_bind_lt {missing : DecodeError} {next : UInt8 → Reading σ β} {source : σ}
    (later : ∀ value, Shrinks (next value))
    (found : ((byteOr missing >>= next).on source).1 ≠ .error missing) :
    ByteSource.size ((byteOr missing >>= next).on source).2 < ByteSource.size source := by
  have bound := ByteSource.size_pull_lt source
  rw [on_bind, on_byteOr] at found ⊢
  rcases pulled : ByteSource.pull source with ⟨_ | value, rest⟩
  · simp [pulled] at found
  · simp only [pulled, Option.isSome_some, forall_const] at bound
    simpa using Nat.lt_of_le_of_lt (later value rest) bound

end Reading

end Mov8086
