import Mov8086.Proofs.Command.Lines
import Mov8086.Proofs.Listing

/-!
Listings beside plain output. A listing puts columns of fixed width in front of every line for a
word, and the header is one line in front of them all; neither changes how a disassembly ends.
-/

set_option autoImplicit false

namespace Mov8086

/-! ### Lines side by side -/

/-- The lines for words laid end to end from a position, plain and in a listing. In front of the
plain line a listing has the digits of the position, four or more, two blanks and a column of thirteen
characters that shows the bytes. -/
inductive Columned : Nat → List (List UInt8) → List String → List String → Prop where
  | nil (position : Nat) : Columned position [] [] []
  | cons {position : Nat} {word : List UInt8} {words : List (List UInt8)}
      {digits column : List Char} {line : String} {plain listed : List String}
      (shown : WordLine word line) (written : Numeral.IsHex 'A' 4 digits position)
      (width : column.length = 13) (read : Row.readColumn? column = some word)
      (later : Columned (position + word.length) words plain listed) :
      Columned position (word :: words) (line :: plain)
        ((String.ofList digits ++ "  " ++ String.ofList column ++ line) :: listed)

theorem WordLine.newline_not_mem {word : List UInt8} {line : String} (shown : WordLine word line) :
    '\n' ∉ line.toList := by
  cases shown with
  | instruction => exact Instruction.newline_not_mem_text _
  | data _ written =>
    simp only [String.toList_append, List.mem_append, String.toList_ofList, not_or]
    exact ⟨by decide, Numeral.not_mem_of_hexNumber? written.value rfl⟩

/-- Each of the lines is one line of text. -/
theorem Columned.newline_not_mem {position : Nat} {words : List (List UInt8)}
    {plain listed : List String} (columned : Columned position words plain listed) :
    (∀ line ∈ plain, '\n' ∉ line.toList) ∧ ∀ line ∈ listed, '\n' ∉ line.toList := by
  induction columned with
  | nil => exact ⟨List.forall_mem_nil _, List.forall_mem_nil _⟩
  | cons shown written _ read _ ih =>
    have free := shown.newline_not_mem
    refine ⟨List.forall_mem_cons.mpr ⟨free, ih.1⟩, List.forall_mem_cons.mpr ⟨?_, ih.2⟩⟩
    simp only [String.toList_append, List.mem_append, String.toList_ofList, not_or]
    exact ⟨⟨⟨Numeral.not_mem_of_hexNumber? written.value rfl, by decide⟩,
      Row.not_mem_of_readColumn? (by decide) rfl read⟩, free⟩

namespace Disassembly

theorem columned_wordEntries {keepGoing : Bool} {words : List (List UInt8)}
    (passable : ∀ word ∈ words, Passable keepGoing word) (position : Nat) :
    Columned position words ((wordEntries position words).map (·.line false))
      ((wordEntries position words).map (·.line true)) := by
  induction words generalizing position with
  | nil => exact .nil position
  | cons word words ih =>
    obtain ⟨first, later⟩ := List.forall_mem_cons.mp passable
    obtain ⟨entry, shows, split⟩ := exists_wordEntries_cons first words position
    have written := Numeral.isHex_upperHexDigits (show 0 < 4 by decide) position
    have width := Entry.length_column shows.room
    have read := Entry.readColumn?_byteColumn shows.room
    have listed : entry.line true = String.ofList (Numeral.upperHexDigits 4 position) ++ "  " ++
        String.ofList ((Entry.byteColumn entry.bytes).toList ++ [' ']) ++ entry.line false := by
      rw [Entry.line_listing, shows.offset_eq, String.ofList_append, String.ofList_toList,
        ← String.append_assoc]
      rfl
    rw [split, List.map_cons, List.map_cons, listed]
    rw [shows.bytes_eq] at width read ⊢
    exact .cons shows.wordLine written width read (ih later _)

end Disassembly

namespace Command

open Disassembly

/-- The report on data with the same options, but for the listing and the header. -/
def Report.laidOut (options : Options) (data : List UInt8) (listing noHeader : Bool) : Report :=
  .ofLoaded { options with listing := listing, noHeader := noHeader } (.ok data)

/-- A listing only adds columns, and leaving out the header only leaves out a line. Neither changes
how a run fails. With the header the text begins with its line and is else the text without it. A
plain run and a listing have a line of text for each word that they pass, that of the listing being
the plain one behind the offset and the byte column. -/
theorem listing_adds_columns (options : Options) (data : List UInt8) :
    let report := Report.laidOut options data
    (∀ listing noHeader listing' noHeader',
      (report listing noHeader).failure = (report listing' noHeader').failure) ∧
    (∀ listing, linesText (report listing false).lines =
      "bits 16\n" ++ linesText (report listing true).lines) ∧
    ∃ words rest plain listed, data = words.flatten ++ rest ∧
      (∀ noHeader, (report false noHeader).lines =
          (if noHeader then [] else ["bits 16"]) ++ plain ∧
        (report true noHeader).lines = (if noHeader then [] else ["bits 16"]) ++ listed) ∧
      Columned 0 words plain listed ∧
      (∀ line ∈ plain, '\n' ∉ line.toList) ∧ ∀ line ∈ listed, '\n' ∉ line.toList := by
  intro report
  refine ⟨fun _ _ _ _ => rfl, ?_, ?_⟩
  · intro listing
    exact linesText_cons "bits 16" _
  · obtain ⟨words, rest, course⟩ := Course.exists_course options.keepGoing data
    have columned := columned_wordEntries course.word 0
    refine ⟨words, rest, _, _, course.eq, ?_, columned, columned.newline_not_mem⟩
    intro noHeader
    exact ⟨Report.lines_of_course course, Report.lines_of_course course⟩

end Command

end Mov8086
