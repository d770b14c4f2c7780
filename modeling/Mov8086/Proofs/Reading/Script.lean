import Mov8086.Proofs.Reading
import Mov8086.Proofs.Script
import Mov8086.Reading.Script

/-!
Scripts of reads. The reads take blocks of the stream that stand end to end. The block of a read holds
the bytes that it needs, or, where one of them is missing, the bytes in front of the gap and the gap.
-/

set_option autoImplicit false

namespace Mov8086

open ByteStream

namespace Read

/-- The number of bytes that a read needs. -/
def size : Read → Nat
  | byte => 1
  | word => 2
  | displacement size => min size 2
  | immediate width => width.bytes

/-- The number that bytes stand for, lowest byte first: in two's complement of all their bits for a
displacement, without a sign for every other read. -/
def value : Read → List UInt8 → Int
  | displacement _, data => LittleEndian.toInt data
  | _, data => LittleEndian.toNat data

/-- The slots that a read takes, what it leaves behind them, and its answer. -/
inductive Takes (read : Read) : ByteStream → ByteStream → Except DecodeError Int → Prop where
  | found {data : List UInt8} (enough : data.length = read.size) (rest : ByteStream) :
      Takes read (ofBytes data) rest (.ok (read.value data))
  | gap {data : List UInt8} (short : data.length < read.size) (rest : ByteStream) :
      Takes read (ofBytes data ++ [.gap]) rest (.error .truncated)
  | ended {data : List UInt8} (short : data.length < read.size) :
      Takes read (ofBytes data) [] (.error .truncated)

/-- Reads that take one block of the stream after the other, each answered with what is left behind
its block. -/
inductive Partition : List Read → List ByteStream → ByteStream →
    List (Except DecodeError Int × ByteStream) → Prop where
  | nil (stream : ByteStream) : Partition [] [] stream []
  | cons {read : Read} {reads : List Read} {block rest : ByteStream} {blocks : List ByteStream}
      {answer : Except DecodeError Int} {steps : List (Except DecodeError Int × ByteStream)}
      (takes : read.Takes block rest answer) (later : Partition reads blocks rest steps) :
      Partition (read :: reads) (block :: blocks) (block ++ rest) ((answer, rest) :: steps)

/-! ### One read -/

theorem size_le (read : Read) : read.size ≤ 2 := by
  cases read with
  | byte => exact Nat.le_succ 1
  | word => exact Nat.le_refl 2
  | displacement size => exact Nat.min_le_right size 2
  | immediate width => cases width <;> decide

/-- Each read needs its count of bytes and answers with the number that they stand for. -/
theorem needs_reading (read : Read) : read.reading.Needs read.size read.value := by
  have unsigned {width : Nat} (small : width ≤ 2) (data : List UInt8) (length : data.length = width) :
      ((UInt16.ofNat (LittleEndian.toNat data)).toNat : Int) = LittleEndian.toNat data := by
    rw [LittleEndian.toNat_ofNat_toNat (length ▸ small)]
  cases read with
  | byte =>
    refine Reading.Needs.byte_bind fun b => Reading.needs_nothing ?_
    simp [value, LittleEndian.toNat]
  | word =>
    exact (Reading.needs_word.map fun word => (word.toNat : Int)).congr (unsigned (Nat.le_refl 2))
  | displacement size =>
    have signed (data : List UInt8) (length : data.length = min size 2) :
        (Int16.ofInt (LittleEndian.toInt data)).toInt = LittleEndian.toInt data :=
      LittleEndian.toInt_ofInt_toInt (length ▸ Nat.min_le_right size 2)
    cases size with
    | zero => exact ((Reading.needs_nothing rfl).map Int16.toInt).congr signed
    | succ size =>
      exact ((Reading.needs_displacement (Nat.succ_ne_zero size)).map Int16.toInt).congr signed
  | immediate width =>
    exact ((Reading.needs_immediate width).map fun word => (word.toNat : Int)).congr
      (unsigned (size_le (.immediate width)))

theorem perform_found {read : Read} {data : List UInt8} (enough : data.length = read.size)
    (rest : ByteStream) : perform read (ofBytes data ++ rest) = (.ok (read.value data), rest) :=
  read.needs_reading.found rest enough

theorem perform_missing {read : Read} {data : List UInt8} (short : data.length < read.size)
    {tail rest : ByteStream} (missing : tail.pull = (none, rest)) :
    perform read (ofBytes data ++ tail) = (.error .truncated, rest) :=
  read.needs_reading.missing short missing

/-- A read takes the front of the stream. -/
theorem exists_takes (read : Read) (stream : ByteStream) :
    ∃ block, stream = block ++ (perform read stream).2 ∧
      read.Takes block (perform read stream).2 (perform read stream).1 := by
  rcases offers_or_lacks read.size stream with
    ⟨data, rest, enough, rfl⟩ | ⟨data, tail, rest, short, rfl, missing⟩
  · rw [perform_found enough]
    exact ⟨ofBytes data, rfl, .found enough rest⟩
  · rw [perform_missing short missing]
    rcases pull_eq_none_iff.mp missing with rfl | ⟨rfl, rfl⟩
    · exact ⟨ofBytes data ++ [.gap], List.append_cons _ _ _, .gap short rest⟩
    · exact ⟨ofBytes data, rfl, .ended short⟩

/-- A read succeeds where the next slots are as many bytes as it needs. -/
theorem perform_eq_ok_iff {read : Read} {stream : ByteStream} :
    (∃ number, (perform read stream).1 = .ok number) ↔
      ∃ data behind, data.length = read.size ∧ stream = ofBytes data ++ behind := by
  constructor
  · rintro ⟨number, known⟩
    rcases offers_or_lacks read.size stream with
      ⟨data, behind, enough, split⟩ | ⟨data, tail, behind, short, rfl, missing⟩
    · exact ⟨data, behind, enough, split⟩
    · rw [perform_missing short missing] at known
      cases known
  · rintro ⟨data, behind, enough, rfl⟩
    exact ⟨read.value data, congrArg Prod.fst (perform_found enough behind)⟩

/-- A read that fails is truncated, and has taken the bytes in front of the gap and the gap. -/
theorem perform_failed {read : Read} {stream : ByteStream} {error : DecodeError}
    (failed : (perform read stream).1 = .error error) :
    error = .truncated ∧
      (stream = ofBytes stream.pullRun.1 ++ .gap :: (perform read stream).2 ∨
        stream = ofBytes stream.pullRun.1 ∧ (perform read stream).2 = []) := by
  rcases offers_or_lacks read.size stream with
    ⟨data, behind, enough, rfl⟩ | ⟨data, tail, behind, short, rfl, missing⟩
  · rw [perform_found enough] at failed
    cases failed
  · rw [perform_missing short missing] at failed ⊢
    cases failed
    rw [pullRun_ofBytes_append missing]
    refine ⟨rfl, ?_⟩
    rcases pull_eq_none_iff.mp missing with rfl | ⟨rfl, rfl⟩
    · exact .inl rfl
    · exact .inr ⟨List.append_nil _, rfl⟩

/-! ### Scripts -/

theorem exists_partition (reads : List Read) (stream : ByteStream) :
    ∃ blocks, Partition reads blocks stream (script perform reads stream) ∧
      stream = blocks.flatten ++ scriptEnd perform reads stream := by
  induction reads generalizing stream with
  | nil => exact ⟨[], .nil stream, rfl⟩
  | cons read reads ih =>
    obtain ⟨block, split, takes⟩ := exists_takes read stream
    obtain ⟨blocks, partition, whole⟩ := ih (perform read stream).2
    refine ⟨block :: blocks, ?_, ?_⟩
    · have steps := Partition.cons takes partition
      rwa [← split] at steps
    · rw [List.flatten_cons, List.append_assoc, scriptEnd, ← whole, ← split]

/-- The reads of a script take blocks of the stream that stand end to end, and each of them starts
right behind the block of the one before. A read succeeds exactly where the next slots are as many
bytes as it needs, takes these and answers with the number that they stand for. Anywhere else it is
truncated, for no other reason, and has taken the bytes in front of the first gap and that gap, or all
that was left of the stream. -/
theorem reads_partition_stream :
    (∀ (reads : List Read) (stream : ByteStream),
      ∃ blocks, Partition reads blocks stream (script perform reads stream) ∧
        stream = blocks.flatten ++ scriptEnd perform reads stream) ∧
    ∀ (read : Read) (stream : ByteStream),
      let answer := (perform read stream).1
      let rest := (perform read stream).2
      let run := stream.pullRun.1
      ((∃ number, answer = .ok number) ↔
        ∃ data behind, data.length = read.size ∧ stream = ofBytes data ++ behind) ∧
      (∀ data behind, data.length = read.size → stream = ofBytes data ++ behind →
        answer = .ok (read.value data) ∧ rest = behind) ∧
      ∀ error, answer = .error error → error = .truncated ∧
        (stream = ofBytes run ++ .gap :: rest ∨ stream = ofBytes run ∧ rest = []) := by
  refine ⟨exists_partition, ?_⟩
  intro read stream answer rest run
  refine ⟨perform_eq_ok_iff, ?_, fun error failed => perform_failed failed⟩
  intro data behind enough split
  have done := perform_found enough behind
  rw [← split] at done
  exact ⟨congrArg Prod.fst done, congrArg Prod.snd done⟩

/-- A displacement of one byte keeps its sign; the gap behind the first byte of a word is taken with it. -/
theorem reads_partition_stream_gap :
    let stream : ByteStream := ofBytes [0xFD, 1] ++ [.gap, .byte 7]
    let left : ByteStream := ofBytes [1] ++ [.gap, .byte 7]
    (∃ blocks, Partition [.displacement 1, .word] blocks stream
      (script perform [.displacement 1, .word] stream)) ∧
    ((perform (.displacement 1) stream).1 = .ok (-3) ∧ (perform (.displacement 1) stream).2 = left) ∧
      (perform .word left).1 = .error .truncated ∧ (perform .word left).2 = [.byte 7] := by
  intro stream left
  obtain ⟨blocks, partition, -⟩ := reads_partition_stream.1 [.displacement 1, .word] stream
  have read := (reads_partition_stream.2 (.displacement 1) stream).2.1 [0xFD] left (by decide) rfl
  rw [show value (.displacement 1) [0xFD] = -3 by decide] at read
  obtain ⟨-, -, failed⟩ := reads_partition_stream.2 .word left
  have short : [1].length < Read.word.size := by decide
  have truncated : (perform .word left).1 = .error .truncated :=
    congrArg Prod.fst (perform_missing short (pull_gap [.byte 7]))
  refine ⟨⟨blocks, partition⟩, read, truncated, ?_⟩
  rcases (failed _ truncated).2 with split | ⟨split, -⟩
  · exact (List.cons.inj (List.cons.inj split).2).2.symm
  · exact absurd (congrArg List.length split) (by decide)

end Read

end Mov8086
