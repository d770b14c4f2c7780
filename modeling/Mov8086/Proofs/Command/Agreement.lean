import Mov8086.Proofs.Command.Status

/-!
The command and the disassembly of whole buffers. A report that stops at a byte that begins no
record prints the instructions that `disassemble` finds, and fails with the error that `disassemble`
fails with. One that keeps going prints what that one prints, and goes on only where such a byte
stops it.
-/

set_option autoImplicit false

namespace Mov8086

/-- A word that is passed without keeping going is shown as the instruction of its record. -/
theorem Passable.exists_record {word : List UInt8} {entry : Entry} {position : Nat}
    (passable : Passable false word) (shows : entry.Shows position word) :
    ∃ (r : Record) (i : Instruction), r.WellFormed ∧ r.instruction = .ok i ∧ word = r.encode ∧
      entry.line false = i.text := by
  cases shows with
  | instruction wf known => exact ⟨_, _, wf, known, rfl, rfl⟩
  | @data value unknown =>
    exfalso
    have recognized : Recognized [[value]] :=
      recognized_of_passable (List.forall_mem_singleton.mpr passable)
    exact recognized value unknown List.mem_cons_self

namespace Disassembly

open Decoder

/-- Words that are passed without keeping going are the bytes of records, and their lines are the
texts of the instructions that these stand for. -/
theorem exists_spell_of_passable {words : List (List UInt8)}
    (passable : ∀ word ∈ words, Passable false word) (position : Nat) :
    ∃ (records : List Record) (instructions : List Instruction),
      Record.Spell records words.flatten ∧
        records.map Record.instruction = instructions.map .ok ∧
          (wordEntries position words).map (·.line false) = instructions.map Instruction.text := by
  induction words generalizing position with
  | nil => exact ⟨[], [], Record.spell_nil.mpr rfl, rfl, rfl⟩
  | cons word words ih =>
    obtain ⟨first, later⟩ := List.forall_mem_cons.mp passable
    obtain ⟨entry, shows, split⟩ := exists_wordEntries_cons first words position
    obtain ⟨r, i, wf, known, encoded, line⟩ := first.exists_record shows
    obtain ⟨records, instructions, spell, same, lines⟩ := ih later (position + word.length)
    refine ⟨r :: records, i :: instructions, ?_, ?_, ?_⟩
    · rw [List.flatten_cons, encoded]
      exact Record.spell_cons.mpr ⟨wf, _, spell, rfl⟩
    · rw [List.map_cons, List.map_cons, known, same]
    · rw [split, List.map_cons, List.map_cons, line, lines]

end Disassembly

namespace Course

variable {data rest : List UInt8} {words : List (List UInt8)}
  (course : Course false data words rest)
include course

/-- Where a course without keeping going ends, `disassemble` ends with the instructions of its words,
or fails with the error that the course is stuck at. -/
theorem disassemble_eq :
    ∃ instructions,
      (Disassembly.wordEntries 0 words).map (·.line false) = instructions.map Instruction.text ∧
      (rest = [] → disassemble data = .ok instructions) ∧
      ∀ error, Stuck false rest error → disassemble data = .error error := by
  obtain ⟨records, instructions, spell, same, lines⟩ :=
    Disassembly.exists_spell_of_passable course.word 0
  refine ⟨instructions, lines, ?_, ?_⟩
  · intro nothing
    have whole : data = words.flatten := by rw [course.eq, nothing, List.append_nil]
    rw [whole]
    exact disassemble_eq_ok_iff.mpr ⟨records, spell, same⟩
  · intro error stuck
    have failed := Decoder.failed_iff.mp (stuck_iff.mp stuck).1
    exact disassemble_spellUpTo ⟨⟨words.flatten, spell, course.eq⟩, stuck.ne_nil,
      Cycle.instruction_eq_error_iff.mpr failed⟩

end Course

namespace Command

open Disassembly

/-- A report that does not keep going ends as `disassemble` does: without a failure, and then its
lines are the instructions in order, or with the error. -/
theorem Report.ends_as_disassemble {options : Options} (stopping : options.keepGoing = false)
    (data : List UInt8) :
    let report := ofLoaded options (.ok data)
    (∃ instructions, disassemble data = .ok instructions ∧ report.failure = none ∧
      (options.listing = false → report.lines =
        (if options.noHeader then [] else [header]) ++ instructions.map Instruction.text)) ∨
    ∃ stop, disassemble data = .error stop.cause ∧ report.failure = some (.decode stop) := by
  intro report
  obtain ⟨words, rest, course⟩ := Course.exists_course false data
  obtain ⟨instructions, lines, complete, failed⟩ := course.disassemble_eq
  have passed : Course options.keepGoing data words rest := by rwa [stopping]
  rcases course.rest with nothing | ⟨error, stuck⟩
  · refine .inl ⟨instructions, complete nothing, (failure_eq_none_iff passed).mpr nothing, ?_⟩
    intro plain
    rw [lines_of_course passed, plain, lines]
  · refine .inr ⟨⟨words.flatten.length, error⟩, failed error stuck, ?_⟩
    rw [← stopping] at stuck
    exact (failure_eq_decode_iff passed).mpr ⟨rfl, stuck⟩

/-- A report that passes every word of a layout fails only at its tail. -/
theorem Report.failure_of_layout {options : Options} {data tail : List UInt8}
    {words : List (List UInt8)} (layout : Layout data words tail)
    (passable : ∀ word ∈ words, Passable options.keepGoing word) :
    (ofLoaded options (.ok data)).failure =
      if tail = [] then none else some (.decode ⟨words.flatten.length, .truncated⟩) := by
  have course := layout.course passable
  by_cases nothing : tail = []
  · rw [if_pos nothing]
    exact (failure_eq_none_iff course).mpr nothing
  · rw [if_neg nothing]
    exact (failure_eq_decode_iff course).mpr ⟨rfl, .broken (layout.broken_of_ne_nil nothing)⟩

/-- A report that keeps going is the one that does not, unless that one stops at a byte that begins
no record, behind whose lines it goes on. -/
theorem Report.going_eq_or_goes_on (options : Options) (data : List UInt8) :
    let stopping := ofLoaded { options with keepGoing := false } (.ok data)
    let going := ofLoaded { options with keepGoing := true } (.ok data)
    (going.lines = stopping.lines ∧ going.failure = stopping.failure) ∨
      (∃ offset value, stopping.failure = some (.decode ⟨offset, .unrecognized value⟩)) ∧
        stopping.lines <+: going.lines := by
  intro stopping going
  let off : Options := { options with keepGoing := false }
  let on : Options := { options with keepGoing := true }
  obtain ⟨words, tail, layout⟩ := Layout.exists_layout data
  have all : ∀ word ∈ words, Passable on.keepGoing word := fun word held =>
    (layout.word word held).passable_going
  have whole : going.lines = _ := lines_of_course (layout.course all)
  rcases passable_or_exists_first_unknown layout.word with
    passable | ⟨front, value, behind, rfl, passable, unknown⟩
  · have passed : ∀ word ∈ words, Passable off.keepGoing word := passable
    refine .inl ⟨?_, ?_⟩
    · exact whole.trans (lines_of_course (layout.course passed)).symm
    · exact (failure_of_layout layout all).trans (failure_of_layout layout passed).symm
  · have course : Course off.keepGoing data front (value :: (behind.flatten ++ tail)) :=
      layout.course_of_unknown passable unknown
    refine .inr ⟨⟨front.flatten.length, value, ?_⟩, ?_⟩
    · exact (failure_eq_decode_iff course).mpr ⟨rfl, .unknown _ rfl unknown⟩
    · have first : stopping.lines = _ := lines_of_course course
      rw [first, whole, wordEntries_append, List.map_append, ← List.append_assoc]
      exact List.prefix_append _ _

/-- The command prints what `disassemble` finds. If it does not keep going, it succeeds exactly if
`disassemble` does, and without a listing it then prints the header, unless it is left out, and the
texts of the instructions in order; it fails with an error exactly if `disassemble` fails with that
error. If it keeps going, what it prints begins with what it prints otherwise, and nothing at all is
different unless it would stop at a byte that begins no record. -/
theorem report_agrees_with_disassemble (options : Options) (data : List UInt8) :
    let stopping := Report.ofLoaded { options with keepGoing := false } (.ok data)
    let going := Report.ofLoaded { options with keepGoing := true } (.ok data)
    (stopping.failure = none ↔ ∃ instructions, disassemble data = .ok instructions) ∧
    (options.listing = false → ∀ instructions, disassemble data = .ok instructions →
      stopping.lines =
        (if options.noHeader then [] else [Report.header]) ++ instructions.map Instruction.text) ∧
    (∀ error, (∃ offset, stopping.failure = some (.decode ⟨offset, error⟩)) ↔
      disassemble data = .error error) ∧
    stopping.lines <+: going.lines ∧
    ((∀ offset value, stopping.failure ≠ some (.decode ⟨offset, .unrecognized value⟩)) →
      going.lines = stopping.lines ∧ going.failure = stopping.failure) := by
  intro stopping going
  let off : Options := { options with keepGoing := false }
  have ends := Report.ends_as_disassemble (show off.keepGoing = false from rfl) data
  have behind := Report.going_eq_or_goes_on options data
  refine ⟨?_, ?_, ?_, ?_, ?_⟩
  · rcases ends with ⟨instructions, complete, succeeded, -⟩ | ⟨stop, failed, stopped⟩
    · exact iff_of_true succeeded ⟨instructions, complete⟩
    · rw [failed, stopped]
      exact iff_of_false nofun nofun
  · intro plain instructions complete
    rcases ends with ⟨instructions', complete', -, lines⟩ | ⟨stop, failed, -⟩
    · cases complete.symm.trans complete'
      exact lines plain
    · cases complete.symm.trans failed
  · intro error
    rcases ends with ⟨instructions, complete, succeeded, -⟩ | ⟨stop, failed, stopped⟩
    · rw [complete, succeeded]
      exact iff_of_false nofun nofun
    · rw [failed, stopped]
      constructor
      · rintro ⟨offset, same⟩
        cases same
        rfl
      · rintro ⟨rfl⟩
        exact ⟨stop.offset, rfl⟩
  · rcases behind with ⟨lines, -⟩ | ⟨-, front⟩
    · exact ⟨[], (List.append_nil _).trans lines.symm⟩
    · exact front
  · intro never
    rcases behind with same | ⟨⟨offset, value, stopped⟩, -⟩
    · exact same
    · exact absurd stopped (never offset value)

/-- A file of one move, which is printed alike with keeping going and without. -/
theorem report_agrees_with_disassemble_move :
    let options : Options :=
      { binary := "a", listing := false, keepGoing := false, noHeader := false, verbose := 0 }
    let stopping := Report.ofLoaded options (.ok [0xB1, 7])
    let going := Report.ofLoaded { options with keepGoing := true } (.ok [0xB1, 7])
    stopping.lines = ["bits 16", "mov cl, 7"] ∧ stopping.failure = none ∧
      going.lines = stopping.lines ∧ going.failure = stopping.failure := by
  intro options stopping going
  let r : Record := ⟨.byte, 1, .immediate 7⟩
  let i : Instruction := ⟨.register .clCx .byte, .immediate 7⟩
  have encoded : r.encode = [0xB1, 7] := by decide
  have complete : disassemble [0xB1, 7] = .ok [i] := by
    rw [← encoded]
    exact disassemble_encode (by decide) rfl
  obtain ⟨succeeds, lines, -, -, alike⟩ := report_agrees_with_disassemble options [0xB1, 7]
  have succeeded : stopping.failure = none := succeeds.mpr ⟨_, complete⟩
  have never : ∀ offset value,
      stopping.failure ≠ some (.decode ⟨offset, .unrecognized value⟩) := by
    intro offset value
    rw [succeeded]
    exact nofun
  refine ⟨?_, succeeded, alike never⟩
  exact (lines rfl _ complete).trans (by decide)

end Command

end Mov8086
