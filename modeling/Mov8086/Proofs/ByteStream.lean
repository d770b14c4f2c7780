import Mathlib.Data.List.TakeDrop
import Mov8086.ByteSource

/-!
Streams taken apart. Every stream is a run of bytes with a missing byte behind it, a gap or the
end, and every count of bytes either lies wholly within that run or runs past it.
-/

set_option autoImplicit false

namespace Mov8086

namespace ByteStream

/-- The bytes of a stream, its gaps left out. -/
def bytes (stream : ByteStream) : List UInt8 :=
  stream.filterMap Slot.byte?

@[simp] theorem bytes_nil : bytes [] = [] := rfl

@[simp] theorem bytes_byte_cons (value : UInt8) (rest : ByteStream) :
    bytes (.byte value :: rest) = value :: bytes rest := rfl

@[simp] theorem bytes_gap_cons (rest : ByteStream) : bytes (.gap :: rest) = bytes rest := rfl

@[simp] theorem bytes_append (front rest : ByteStream) :
    bytes (front ++ rest) = bytes front ++ bytes rest :=
  List.filterMap_append

@[simp] theorem ofBytes_nil : ofBytes [] = [] := rfl

@[simp] theorem ofBytes_cons (value : UInt8) (rest : List UInt8) :
    ofBytes (value :: rest) = .byte value :: ofBytes rest := rfl

@[simp] theorem ofBytes_append (front rest : List UInt8) :
    ofBytes (front ++ rest) = ofBytes front ++ ofBytes rest :=
  List.map_append

@[simp] theorem length_ofBytes (data : List UInt8) : (ofBytes data).length = data.length :=
  List.length_map _

@[simp] theorem bytes_ofBytes (data : List UInt8) : bytes (ofBytes data) = data := by
  induction data with
  | nil => rfl
  | cons value rest ih => rw [ofBytes_cons, bytes_byte_cons, ih]

@[simp] theorem ofBytes_inj {left right : List UInt8} : ofBytes left = ofBytes right ↔ left = right :=
  ⟨fun h => by rw [← bytes_ofBytes left, h, bytes_ofBytes], congrArg ofBytes⟩

/-- A byte is missing from a stream exactly at a gap or at the end. -/
theorem pull_nil : pull ([] : ByteStream) = (none, []) := rfl

theorem pull_gap (behind : ByteStream) : pull (.gap :: behind : ByteStream) = (none, behind) := rfl

theorem pull_eq_none_iff {stream rest : ByteStream} :
    stream.pull = (none, rest) ↔ stream = .gap :: rest ∨ stream = [] ∧ rest = [] := by
  constructor
  · intro missing
    rcases stream with _ | ⟨_ | _, behind⟩
    · exact .inr ⟨rfl, (Prod.mk.inj missing).2.symm⟩
    · cases (Prod.mk.inj missing).1
    · exact .inl (congrArg (Slot.gap :: ·) (Prod.mk.inj missing).2)
  · rintro (rfl | ⟨rfl, rfl⟩) <;> rfl

theorem span_ofBytes_append {stream rest : ByteStream} (missing : stream.pull = (none, rest))
    (run : List UInt8) :
    (ofBytes run ++ stream).span (·.byte?.isSome) = (ofBytes run, stream) := by
  have all : ∀ slot ∈ ofBytes run, slot.byte?.isSome = true := by
    intro slot member
    obtain ⟨value, _, rfl⟩ := List.mem_map.mp member
    rfl
  rw [List.span_eq_takeWhile_dropWhile, List.takeWhile_append_of_pos all,
    List.dropWhile_append_of_pos all]
  rcases pull_eq_none_iff.mp missing with rfl | ⟨rfl, rfl⟩ <;> simp [Slot.byte?]

theorem pullRun_ofBytes_append {stream rest : ByteStream} (missing : stream.pull = (none, rest))
    (run : List UInt8) : pullRun (ofBytes run ++ stream) = (run, rest) := by
  have behind : stream.drop 1 = rest := by
    rcases pull_eq_none_iff.mp missing with rfl | ⟨rfl, rfl⟩ <;> rfl
  simp only [pullRun, span_ofBytes_append missing, behind]
  exact congrArg (·, rest) (bytes_ofBytes run)

/-- Every stream is a run of bytes up to a missing one. -/
theorem exists_run (stream : ByteStream) :
    ∃ run tail rest, stream = ofBytes run ++ tail ∧ tail.pull = (none, rest) := by
  induction stream with
  | nil => exact ⟨[], [], [], rfl, rfl⟩
  | cons slot stream ih =>
    cases slot with
    | gap => exact ⟨[], .gap :: stream, stream, rfl, rfl⟩
    | byte value =>
      obtain ⟨run, tail, rest, rfl, missing⟩ := ih
      exact ⟨value :: run, tail, rest, rfl, missing⟩

/-- What the bytes up to the next gap leave of the stream begins with a missing byte. -/
theorem pullRun_spec (stream : ByteStream) :
    ∃ tail, stream = ofBytes stream.pullRun.1 ++ tail ∧ tail.pull = (none, stream.pullRun.2) := by
  obtain ⟨run, tail, rest, rfl, missing⟩ := exists_run stream
  rw [pullRun_ofBytes_append missing]
  exact ⟨tail, rfl, missing⟩

theorem pullRun_append (data : List UInt8) (stream : ByteStream) :
    (pullRun (ofBytes data ++ stream)).1 = data ++ stream.pullRun.1 := by
  obtain ⟨run, tail, rest, rfl, missing⟩ := exists_run stream
  rw [← List.append_assoc, ← ofBytes_append, pullRun_ofBytes_append missing,
    pullRun_ofBytes_append missing]

@[simp] theorem pullRun_ofBytes (data : List UInt8) : (pullRun (ofBytes data)).1 = data := by
  have run := pullRun_append data []
  rwa [List.append_nil, show (pullRun []).1 = [] from rfl, List.append_nil] at run

/-- The next slots are as many bytes as asked for, or the bytes stop short of that count. -/
theorem offers_or_lacks (size : Nat) (stream : ByteStream) :
    (∃ data rest, data.length = size ∧ stream = ofBytes data ++ rest) ∨
      ∃ data tail rest, data.length < size ∧ stream = ofBytes data ++ tail ∧
        tail.pull = (none, rest) := by
  obtain ⟨run, tail, rest, rfl, missing⟩ := exists_run stream
  by_cases enough : size ≤ run.length
  · left
    refine ⟨run.take size, ofBytes (run.drop size) ++ tail, ?_, ?_⟩
    · rw [List.length_take, Nat.min_eq_left enough]
    · rw [← List.append_assoc, ← ofBytes_append, List.take_append_drop]
  · exact .inr ⟨run, tail, rest, by omega, rfl, missing⟩

/-- The slots of a stream in front of what is left of it. -/
def before (stream rest : ByteStream) : ByteStream :=
  stream.take (stream.length - rest.length)

@[simp] theorem before_append (front rest : ByteStream) : before (front ++ rest) rest = front := by
  have length : (front ++ rest).length - rest.length = front.length := by
    rw [List.length_append]
    omega
  rw [before, length, List.take_left]

end ByteStream

end Mov8086
