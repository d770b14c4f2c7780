import Mov8086.Disassembly
import Mov8086.Proofs.Decoder.Disassemble
import Mov8086.Proofs.Layout

/-!
Disassemblies followed through the data. A disassembly passes words one after another, with one
entry for each, and ends where nothing is left or where it is stuck.
-/

set_option autoImplicit false

namespace Mov8086

open ByteStream

/-- A word that a disassembly passes: the bytes of a record, or, if it keeps going, a byte that no
op code is packed into. -/
def Passable (keepGoing : Bool) (word : List UInt8) : Prop :=
  (∃ r : Record, r.WellFormed ∧ word = r.encode) ∨
    keepGoing = true ∧ ∃ value, OpCode.Unknown value ∧ word = [value]

/-- Bytes at whose beginning a disassembly stops, and the error that it stops with. -/
inductive Stuck (keepGoing : Bool) : List UInt8 → DecodeError → Prop where
  | broken {rest : List UInt8} (broken : Cycle.Broken rest) : Stuck keepGoing rest .truncated
  | unknown {value : UInt8} (later : List UInt8) (stopping : keepGoing = false)
      (unknown : OpCode.Unknown value) : Stuck keepGoing (value :: later) (.unrecognized value)

/-- The words that a disassembly of the data passes, and what is left where it ends. -/
structure Course (keepGoing : Bool) (data : List UInt8) (words : List (List UInt8))
    (rest : List UInt8) : Prop where
  eq : data = words.flatten ++ rest
  word : ∀ word ∈ words, Passable keepGoing word
  rest : rest = [] ∨ ∃ error, Stuck keepGoing rest error

theorem Passable.isWord {keepGoing : Bool} {word : List UInt8} (passable : Passable keepGoing word) :
    IsWord word :=
  passable.imp_right And.right

namespace Course

variable {keepGoing : Bool}

theorem nil {rest : List UInt8} (ends : rest = [] ∨ ∃ error, Stuck keepGoing rest error) :
    Course keepGoing rest [] rest :=
  ⟨rfl, List.forall_mem_nil _, ends⟩

theorem cons {word later rest : List UInt8} {words : List (List UInt8)}
    (passable : Passable keepGoing word) (course : Course keepGoing later words rest) :
    Course keepGoing (word ++ later) (word :: words) rest where
  eq := by rw [course.eq, List.flatten_cons, List.append_assoc]
  word := List.forall_mem_cons.mpr ⟨passable, course.word⟩
  rest := course.rest

private theorem exists_course_of_layout {data tail : List UInt8} {words : List (List UInt8)}
    (layout : Layout data words tail) :
    ∃ passed rest, Course keepGoing data passed rest := by
  induction words generalizing data with
  | nil =>
    obtain rfl : data = tail := layout.eq
    exact ⟨[], data, nil (layout.tail.imp_right fun broken => ⟨_, .broken broken⟩)⟩
  | cons word words ih =>
    obtain ⟨isWord, later⟩ := List.forall_mem_cons.mp layout.word
    have split := layout.eq
    rw [List.flatten_cons, List.append_assoc] at split
    obtain ⟨passed, rest, course⟩ := ih ⟨rfl, later, layout.tail⟩
    rw [split]
    rcases isWord with ⟨r, wf, rfl⟩ | ⟨value, unknown, rfl⟩
    · exact ⟨_, rest, cons (.inl ⟨r, wf, rfl⟩) course⟩
    · cases keepGoing with
      | true => exact ⟨_, rest, cons (.inr ⟨rfl, value, unknown, rfl⟩) course⟩
      | false => exact ⟨[], _, nil (.inr ⟨_, .unknown _ rfl unknown⟩)⟩

/-- A disassembly of any data has a course. -/
theorem exists_course (keepGoing : Bool) (data : List UInt8) :
    ∃ words rest, Course keepGoing data words rest := by
  obtain ⟨words, tail, layout⟩ := Layout.exists_layout data
  exact exists_course_of_layout layout

end Course

/-- The entry that a disassembly has for a word at a position. -/
inductive Entry.Shows (position : Nat) : List UInt8 → Entry → Prop where
  | instruction {r : Record} {i : Instruction} (wf : r.WellFormed)
      (known : r.instruction = .ok i) :
      Shows position r.encode (.instruction ⟨position, r.encode, i⟩)
  | data {value : UInt8} (unknown : OpCode.Unknown value) :
      Shows position [value] (.data position value)

namespace Entry.Shows

variable {position : Nat} {word : List UInt8} {entry : Entry} (shows : entry.Shows position word)
include shows

theorem offset_eq : entry.offset = position := by
  cases shows <;> rfl

theorem bytes_eq : entry.bytes = word := by
  cases shows <;> rfl

end Entry.Shows

namespace Decoder

theorem attempt_unknown {value : UInt8} (unknown : OpCode.Unknown value) (rest : ByteStream)
    (position : Nat) :
    attempt ⟨.byte value :: rest, position⟩ =
      (⟨position, .error (.unrecognized value), [.failed (.unrecognized value)]⟩,
        ⟨rest, position + 1⟩) :=
  attempt_of_cycle [.byte value] (Cycle.instruction_of_unknown unknown rest) position

/-- A disassembly goes on behind the attempt at a word that it passes, and has an entry for it. -/
theorem exists_entry {keepGoing : Bool} {word : List UInt8} (passable : Passable keepGoing word)
    (position : Nat) :
    ∃ entry : Entry, entry.Shows position word ∧
      (attempt ⟨ofBytes word, position⟩).1.passes keepGoing = true ∧
      (attempt ⟨ofBytes word, position⟩).1.listed? = some entry := by
  rcases passable with ⟨r, wf, rfl⟩ | ⟨going, value, unknown, rfl⟩
  · obtain ⟨i, known⟩ := Record.exists_instruction wf.codesFit
    obtain ⟨outcome, -⟩ := attempt_encode wf known [] position
    rw [List.append_nil] at outcome
    refine ⟨_, .instruction wf known, ?_, ?_⟩
    · rw [Attempt.passes, outcome]
    · rw [Attempt.listed?, outcome]
  · have ran : attempt ⟨ofBytes [value], position⟩ = _ := attempt_unknown unknown [] position
    refine ⟨_, .data unknown, ?_, ?_⟩
    · rw [ran]
      exact going
    · rw [ran]
      rfl

/-- The attempt at bytes where a disassembly is stuck fails with the error that it stops with. -/
theorem exists_attempts_of_stuck {keepGoing : Bool} {rest : List UInt8} {error : DecodeError}
    (stuck : Stuck keepGoing rest error) (position : Nat) :
    ∃ (fatal : Attempt) (later : List Attempt),
      (attempts ⟨ofBytes rest, position⟩).1 = fatal :: later ∧
        fatal.passes keepGoing = false ∧ fatal.offset = position ∧
          fatal.outcome = .error error := by
  cases stuck with
  | broken broken =>
    obtain ⟨events, ran⟩ := attempts_broken broken position
    exact ⟨_, [], congrArg Prod.fst ran, rfl, rfl, rfl⟩
  | @unknown value later stopping unknown =>
    have ran := attempt_unknown unknown (ofBytes later) position
    exact ⟨_, _, congrArg Prod.fst (attempts_cons ran nofun), stopping, rfl, rfl⟩

end Decoder

namespace Disassembly

open Decoder

/-! ### The loop -/

theorem ofAttempts_append {keepGoing : Bool} {passed : List Attempt}
    (passing : ∀ attempt ∈ passed, attempt.passes keepGoing = true) (later : List Attempt) :
    ofAttempts keepGoing (passed ++ later) =
      ⟨passed.filterMap (·.listed?) ++ (ofAttempts keepGoing later).entries,
        (ofAttempts keepGoing later).stop,
        passed.flatMap (·.notices keepGoing) ++ (ofAttempts keepGoing later).notices⟩ := by
  simp only [ofAttempts, List.span_eq_takeWhile_dropWhile, List.takeWhile_append_of_pos passing,
    List.dropWhile_append_of_pos passing, List.filterMap_append, List.append_assoc,
    List.flatMap_append]

theorem ofAttempts_fatal {keepGoing : Bool} {fatal : Attempt}
    (stops : fatal.passes keepGoing = false) (later : List Attempt) :
    ofAttempts keepGoing (fatal :: later) =
      ⟨[], Stop.ofAttempt? fatal, fatal.notices keepGoing⟩ := by
  simp [ofAttempts, List.span_eq_takeWhile_dropWhile, stops]

/-! ### Entries -/

/-- The entries for words laid end to end from a position. -/
def wordEntries (position : Nat) (words : List (List UInt8)) : List Entry :=
  (wordAttempts position words).filterMap (·.listed?)

theorem wordEntries_append (position : Nat) (front behind : List (List UInt8)) :
    wordEntries position (front ++ behind) =
      wordEntries position front ++ wordEntries (position + front.flatten.length) behind := by
  rw [wordEntries, wordAttempts_append, List.filterMap_append]
  rfl

section Words

variable {keepGoing : Bool} {words : List (List UInt8)}
  (passable : ∀ word ∈ words, Passable keepGoing word)
include passable

theorem passes_of_mem_wordAttempts {position : Nat} {attempt : Attempt}
    (member : attempt ∈ wordAttempts position words) : attempt.passes keepGoing = true := by
  obtain ⟨word, held, offset, rfl⟩ := mem_wordAttempts member
  obtain ⟨_, -, passes, -⟩ := exists_entry (passable word held) offset
  exact passes

omit passable in
theorem exists_wordEntries_cons {word : List UInt8} (first : Passable keepGoing word)
    (words : List (List UInt8)) (position : Nat) :
    ∃ entry : Entry, entry.Shows position word ∧
      wordEntries position (word :: words) =
        entry :: wordEntries (position + word.length) words := by
  obtain ⟨entry, shows, -, listed⟩ := exists_entry first position
  exact ⟨entry, shows, List.filterMap_cons_some listed⟩

theorem flatMap_bytes_wordEntries (position : Nat) :
    (wordEntries position words).flatMap Entry.bytes = words.flatten := by
  induction words generalizing position with
  | nil => rfl
  | cons word words ih =>
    obtain ⟨first, later⟩ := List.forall_mem_cons.mp passable
    obtain ⟨entry, shows, split⟩ := exists_wordEntries_cons first words position
    rw [split, List.flatMap_cons, shows.bytes_eq, ih later, List.flatten_cons]

/-- Each entry shows a word, at the number of bytes that the entries in front of it show. -/
theorem shows_of_split {position : Nat} {before after : List Entry} {entry : Entry}
    (split : wordEntries position words = before ++ entry :: after) :
    ∃ word, entry.Shows (position + (before.flatMap Entry.bytes).length) word := by
  induction words generalizing position before with
  | nil => cases before <;> cases split
  | cons word words ih =>
    obtain ⟨first, later⟩ := List.forall_mem_cons.mp passable
    obtain ⟨entry', shows, parts⟩ := exists_wordEntries_cons first words position
    rw [parts] at split
    -- The first entry is for the first word, whose bytes stand in front of every later entry.
    cases before with
    | nil =>
      obtain ⟨rfl, -⟩ := List.cons.inj split
      exact ⟨word, shows⟩
    | cons head before =>
      obtain ⟨rfl, behind⟩ := List.cons.inj split
      obtain ⟨word', shows'⟩ := ih later behind
      refine ⟨word', ?_⟩
      rwa [List.flatMap_cons, shows.bytes_eq, List.length_append, ← Nat.add_assoc]

end Words

end Disassembly

namespace Course

open Decoder Disassembly

variable {keepGoing : Bool} {data rest : List UInt8} {words : List (List UInt8)}
  (course : Course keepGoing data words rest)
include course

/-- The attempts at the words that are passed stand in front of those at what is left. -/
theorem ofData_eq :
    ofData keepGoing data =
      ofAttempts keepGoing
        (wordAttempts 0 words ++ (attempts ⟨ofBytes rest, words.flatten.length⟩).1) := by
  have isWord : ∀ word ∈ words, IsWord word := fun word held => (course.word word held).isWord
  have ran := congrArg Prod.fst (attempts_words isWord (ofBytes rest) 0)
  rw [Nat.zero_add, ← ofBytes_append, ← course.eq] at ran
  rw [ofData, ofStream, ran]

private theorem ofData_whole (nothing : rest = []) :
    (ofData keepGoing data).entries = wordEntries 0 words ∧ (ofData keepGoing data).stop = none := by
  rw [course.ofData_eq, ofAttempts_append fun _ => passes_of_mem_wordAttempts course.word, nothing,
    ofBytes_nil, attempts_nil]
  exact ⟨List.append_nil _, rfl⟩

private theorem ofData_stuck {error : DecodeError} (stuck : Stuck keepGoing rest error) :
    (ofData keepGoing data).entries = wordEntries 0 words ∧
      (ofData keepGoing data).stop = some ⟨words.flatten.length, error⟩ := by
  obtain ⟨fatal, later, ran, stops, offset, outcome⟩ :=
    exists_attempts_of_stuck stuck words.flatten.length
  rw [course.ofData_eq, ofAttempts_append fun _ => passes_of_mem_wordAttempts course.word, ran,
    ofAttempts_fatal stops]
  refine ⟨List.append_nil _, ?_⟩
  dsimp only
  rw [Stop.ofAttempt?, outcome, offset]

/-- A disassembly has the entries for the words that it passes, and no others. -/
theorem entries_eq : (ofData keepGoing data).entries = wordEntries 0 words := by
  rcases course.rest with nothing | ⟨error, stuck⟩
  · exact (ofData_whole course nothing).1
  · exact (ofData_stuck course stuck).1

/-- It ends without an error where nothing is left. -/
theorem stop_of_nil (nothing : rest = []) : (ofData keepGoing data).stop = none :=
  (ofData_whole course nothing).2

/-- It ends with an error, at the bytes that it has passed, where it is stuck. -/
theorem stop_of_stuck {error : DecodeError} (stuck : Stuck keepGoing rest error) :
    (ofData keepGoing data).stop = some ⟨words.flatten.length, error⟩ :=
  (ofData_stuck course stuck).2

/-- Only where nothing is left does it end without an error. -/
theorem rest_eq_nil_of_stop (ended : (ofData keepGoing data).stop = none) : rest = [] := by
  rcases course.rest with nothing | ⟨error, stuck⟩
  · exact nothing
  · rw [course.stop_of_stuck stuck] at ended
    cases ended

/-- The offset of the error is the number of bytes that were passed. -/
theorem offset_of_stop {stop : Stop} (stopped : (ofData keepGoing data).stop = some stop) :
    stop.offset = words.flatten.length := by
  rcases course.rest with nothing | ⟨error, stuck⟩
  · rw [course.stop_of_nil nothing] at stopped
    cases stopped
  · rw [course.stop_of_stuck stuck] at stopped
    cases stopped
    rfl

end Course

end Mov8086
