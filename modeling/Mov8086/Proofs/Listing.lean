import Mov8086.Command.Run
import Mov8086.Listing.Reader
import Mov8086.Proofs.Disassembly
import Mov8086.Proofs.Numeral

/-!
Listings read back. A line of a listing is read as the offset, all bytes and the text of its entry,
and the lines of a whole listing show the data one byte after another, up to where the listing ends.
-/

set_option autoImplicit false

namespace Mov8086

/-! ### Lines -/

namespace Row

private theorem length_cells (bytes : List UInt8) :
    (bytes.flatMap fun byte => Numeral.upperHexDigits 2 byte.toNat ++ [' ']).length =
      3 * bytes.length := by
  induction bytes with
  | nil => rfl
  | cons byte bytes ih =>
    rw [List.flatMap_cons, List.length_append, ih, List.length_append,
      Numeral.length_upperHexDigits_byte, List.length_singleton, List.length_cons]
    omega

/-- A byte column is read back, with any number of blanks behind the bytes. -/
theorem readColumn?_cells (bytes : List UInt8) (blanks : Nat) :
    readColumn? ((bytes.flatMap fun byte => Numeral.upperHexDigits 2 byte.toNat ++ [' ']) ++
      List.replicate blanks ' ') = some bytes := by
  induction bytes with
  | nil =>
    cases blanks with
    | zero => rfl
    | succ blanks => simp [List.replicate_succ, readColumn?]
  | cons byte bytes ih =>
    have read : Numeral.upperHex? (Numeral.upperHexDigits 2 byte.toNat) = some byte.toNat :=
      (Numeral.isHex_upperHexDigits (by decide) byte.toNat).value
    obtain ⟨high, low, digits⟩ := List.length_eq_two.mp (Numeral.length_upperHexDigits_byte byte)
    rw [digits] at read
    have filled : ' ' ∉ [high, low] := Numeral.not_mem_of_hexNumber? read rfl
    rw [List.flatMap_cons, digits]
    simp only [List.cons_append, List.nil_append]
    rw [readColumn?, read, ih]
    · simp
    · rintro rfl
      exact absurd List.mem_cons_self filled

/-- A byte column holds nothing but digits and blanks. -/
theorem not_mem_of_readColumn? {c : Char} {column : List Char} {bytes : List UInt8}
    (filled : c ≠ ' ') (other : Numeral.hexDigit? 'A' c = none)
    (read : readColumn? column = some bytes) : c ∉ column := by
  fun_induction readColumn? column generalizing bytes with
  | case1 => exact List.not_mem_nil
  | case2 rest blank =>
    rintro (_ | ⟨_, member⟩)
    · exact filled rfl
    · exact filled (of_decide_eq_true (List.all_eq_true.mp blank c member))
  | case3 => cases read
  | case4 high low rest _ ih =>
    obtain ⟨value, digits, behind⟩ := Option.bind_eq_some_iff.mp read
    obtain ⟨bytes, later, -⟩ := Option.map_eq_some_iff.mp behind
    have front : c ∉ [high, low] := Numeral.not_mem_of_hexNumber? digits other
    rintro (_ | ⟨_, _ | ⟨_, _ | ⟨_, member⟩⟩⟩)
    · exact front List.mem_cons_self
    · exact front (List.mem_cons_of_mem _ List.mem_cons_self)
    · exact filled rfl
    · exact ih later member
  | case5 => cases read

end Row

namespace Entry

/-- What the line of the entry in a listing shows. -/
def row (entry : Entry) : Row :=
  ⟨entry.offset, entry.bytes, entry.line false⟩

theorem flatMap_bytes_row (entries : List Entry) :
    (entries.map row).flatMap Row.bytes = entries.flatMap bytes := by
  rw [List.flatMap_map]
  rfl

/-- The bytes in their column, with the blank behind it, take up the whole width. -/
theorem length_column {bytes : List UInt8} (room : bytes.length ≤ columnBytes) :
    ((byteColumn bytes).toList ++ [' ']).length = Row.columnWidth := by
  rw [byteColumn, String.toList_ofList, List.take_of_length_le room, List.length_append,
    List.length_append, Row.length_cells, List.length_replicate, List.length_singleton]
  unfold columnBytes at room ⊢
  unfold Row.columnWidth
  omega

theorem readColumn?_byteColumn {bytes : List UInt8} (room : bytes.length ≤ columnBytes) :
    Row.readColumn? ((byteColumn bytes).toList ++ [' ']) = some bytes := by
  rw [byteColumn, String.toList_ofList, List.take_of_length_le room, List.append_assoc,
    ← List.replicate_succ']
  exact Row.readColumn?_cells bytes _

/-- The blanks in the line for a data byte fill up the column that a move of one byte would have. -/
theorem dataLine_eq (offset : Nat) (byte : UInt8) :
    dataLine true offset byte =
      Numeral.upperHex 4 offset ++ "  " ++ byteColumn [byte] ++ " " ++
        dataLine false offset byte := by
  have column : byteColumn [byte] = Numeral.upperHex 2 byte.toNat ++ "          " := by
    rw [byteColumn, Numeral.upperHex, List.take_of_length_le (Nat.le_of_ble_eq_true rfl),
      List.flatMap_singleton, List.append_assoc, String.ofList_append]
    rfl
  have blanks : "          " ++ (" " ++ "db 0x") = "           db 0x" := by decide
  rw [dataLine, if_pos rfl, dataLine, if_neg Bool.false_ne_true, column]
  simp only [String.append_assoc, ← blanks]

/-- In a listing the offset and the byte column stand in front of the line that there is without
one, for moves and for data bytes alike. -/
theorem line_listing (entry : Entry) :
    entry.line true =
      Numeral.upperHex 4 entry.offset ++ "  " ++ byteColumn entry.bytes ++ " " ++
        entry.line false := by
  cases entry with
  | instruction item => rfl
  | data offset byte => exact dataLine_eq offset byte

/-- The line of an entry is read back, if the byte column has room for all of its bytes. -/
theorem ofLine?_line {entry : Entry} (room : entry.bytes.length ≤ columnBytes) :
    Row.ofLine? (entry.line true) = some entry.row := by
  have digits := Numeral.isHex_upperHexDigits (show 0 < 4 by decide) entry.offset
  have free : ' ' ∉ Numeral.upperHexDigits 4 entry.offset :=
    Numeral.not_mem_of_hexNumber? digits.value rfl
  have width := length_column room
  -- The blank in front of the text counts as the last character of the column.
  let column := (byteColumn entry.bytes).toList ++ [' ']
  have line : (entry.line true).toList =
      Numeral.upperHexDigits 4 entry.offset ++
        ' ' :: ' ' :: (column ++ (entry.line false).toList) := by
    simp [line_listing, Numeral.upperHex, column]
  have behind : Row.readBehind? entry.offset (column ++ (entry.line false).toList) =
      some entry.row := by
    have front : (column ++ (entry.line false).toList).take Row.columnWidth = column :=
      List.take_left' width
    have text : (column ++ (entry.line false).toList).drop Row.columnWidth =
        (entry.line false).toList := List.drop_left' width
    have fits : Row.columnWidth ≤ (column ++ (entry.line false).toList).length := by
      rw [List.length_append, width]
      exact Nat.le_add_right _ _
    rw [Row.readBehind?, if_pos fits, front, text, readColumn?_byteColumn room,
      String.ofList_toList]
    rfl
  have offset : Numeral.upperHex? (Numeral.upperHexDigits 4 entry.offset) = some entry.offset :=
    digits.value
  rw [Row.ofLine?, line, span_separator free]
  simp only
  rw [if_pos digits.least, offset, Option.bind_some, behind]

example : Row.ofLine? "0000  B1 07        mov cl, 7" = some ⟨0, [0xB1, 7], "mov cl, 7"⟩ := by
  decide

namespace Shows

variable {position : Nat} {word : List UInt8} {entry : Entry} (shows : entry.Shows position word)
include shows

/-- The byte column has room for the bytes of each word. -/
theorem room : entry.bytes.length ≤ columnBytes := by
  cases shows with
  | instruction => exact (Record.length_encode _).2
  | data => exact Nat.le_of_ble_eq_true rfl

/-- The text is that of a byte that begins no instruction, or of the one instruction that the bytes
stand for. -/
theorem text_eq :
    (∃ value, OpCode.Unknown value ∧ entry.bytes = [value] ∧
        entry.line false = "db 0x" ++ Numeral.hex 2 value.toNat) ∨
      2 ≤ entry.bytes.length ∧ entry.bytes.length ≤ 4 ∧
        ∃ i, disassemble entry.bytes = .ok [i] ∧ entry.line false = i.text := by
  cases shows with
  | @instruction r i wf known =>
    obtain ⟨least, greatest⟩ := Record.length_encode r
    exact .inr ⟨least, greatest, i, disassemble_encode wf known, rfl⟩
  | @data value unknown => exact .inl ⟨value, unknown, rfl, rfl⟩

end Shows

end Entry

/-! ### Listings -/

namespace Command

/-- The report of a listing of the data, whatever else is asked for. -/
def Report.ofListing (options : Options) (data : List UInt8) : Report :=
  .ofLoaded { options with listing := true } (.ok data)

open Disassembly

/-- A listing is a lossless dump. Each of its lines, behind the header if there is one, is read as an
offset, bytes and a text. The offset is the number of bytes that the lines in front show. The bytes
are one that begins no instruction, or all those of one instruction, with its text. Together the
bytes are the data, or, if the command fails, the data in front of the offset that it fails at. -/
theorem listing_lossless (options : Options) (data : List UInt8) :
    ∃ (body : List String) (rows : List Row),
      (Report.ofListing options data).lines =
        (if options.noHeader then [] else [Report.header]) ++ body ∧
      body.map Row.ofLine? = rows.map some ∧
      (∀ before row after, rows = before ++ row :: after →
        row.offset = (before.flatMap Row.bytes).length ∧
        ((∃ value, OpCode.Unknown value ∧ row.bytes = [value] ∧
            row.text = "db 0x" ++ Numeral.hex 2 value.toNat) ∨
          2 ≤ row.bytes.length ∧ row.bytes.length ≤ 4 ∧
            ∃ i, disassemble row.bytes = .ok [i] ∧ row.text = i.text)) ∧
      ((Report.ofListing options data).failure = none → rows.flatMap Row.bytes = data) ∧
      ∀ failure, (Report.ofListing options data).failure = some failure →
        ∃ stop, failure = .decode stop ∧ stop.offset ≤ data.length ∧
          rows.flatMap Row.bytes = data.take stop.offset := by
  obtain ⟨words, rest, course⟩ := Course.exists_course options.keepGoing data
  have lines : (Report.ofListing options data).lines =
      (if options.noHeader then [] else [Report.header]) ++
        (wordEntries 0 words).map (·.line true) := by
    rw [← course.entries_eq]
    rfl
  have failure : (Report.ofListing options data).failure =
      (Disassembly.ofData options.keepGoing data).stop.map .decode := rfl
  have bytes : ((wordEntries 0 words).map Entry.row).flatMap Row.bytes = words.flatten := by
    rw [Entry.flatMap_bytes_row, flatMap_bytes_wordEntries course.word]
  refine ⟨_, (wordEntries 0 words).map Entry.row, lines, ?_, ?_, ?_, ?_⟩
  · rw [List.map_map, List.map_map]
    refine List.map_congr_left fun entry member => ?_
    obtain ⟨before, after, split⟩ := List.append_of_mem member
    obtain ⟨word, shows⟩ := shows_of_split course.word split
    rw [Function.comp_apply, Entry.ofLine?_line shows.room, Function.comp_apply]
  · intro before row after split
    obtain ⟨front, behind, parts, rfl, behind_eq⟩ := List.map_eq_append_iff.mp split
    obtain ⟨entry, later, rfl, rfl, rfl⟩ := List.map_eq_cons_iff.mp behind_eq
    obtain ⟨word, shows⟩ := shows_of_split course.word parts
    refine ⟨?_, shows.text_eq⟩
    rw [Entry.flatMap_bytes_row, ← Nat.zero_add (List.length _)]
    exact shows.offset_eq
  · intro succeeded
    rw [failure, Option.map_eq_none_iff] at succeeded
    have nothing := course.rest_eq_nil_of_stop succeeded
    rw [bytes, course.eq, nothing, List.append_nil]
  · intro cause failed
    rw [failure, Option.map_eq_some_iff] at failed
    obtain ⟨stop, stopped, rfl⟩ := failed
    have offset := course.offset_of_stop stopped
    refine ⟨stop, rfl, ?_, ?_⟩
    · rw [offset, course.eq, List.length_append]
      exact Nat.le_add_right _ _
    · rw [bytes, offset, course.eq, List.take_left]

/-- A listing of a move and a byte that begins none, in front of an op code that breaks off. -/
theorem listing_lossless_opCode :
    let options : Options :=
      { binary := "mov.bin", listing := false, keepGoing := true, noHeader := true, verbose := 0 }
    let report := Report.ofListing options [0xB1, 7, 0x90, 0x88]
    report.failure = some (.decode ⟨3, .truncated⟩) ∧
      ∃ rows : List Row, report.lines.map Row.ofLine? = rows.map some ∧
        rows.flatMap Row.bytes = [0xB1, 7, 0x90] := by
  intro options report
  have stuck : Stuck true [0x88] .truncated := .broken (Cycle.broken_opCode (by decide))
  have course : Course true [0xB1, 7, 0x90, 0x88] [[0xB1, 7], [0x90]] [0x88] := by
    have move : Passable true [0xB1, 7] := .inl ⟨⟨.byte, 1, .immediate 7⟩, by decide, by decide⟩
    have unknown : Passable true [0x90] := .inr ⟨rfl, 0x90, by decide, rfl⟩
    exact .cons move (.cons unknown (.nil (.inr ⟨_, stuck⟩)))
  have failure : report.failure = some (.decode ⟨3, .truncated⟩) :=
    congrArg (Option.map Failure.decode) (course.stop_of_stuck stuck)
  obtain ⟨body, rows, lines, read, -, -, failed⟩ :=
    listing_lossless options [0xB1, 7, 0x90, 0x88]
  obtain ⟨stop, cause, -, bytes⟩ := failed _ failure
  cases cause
  exact ⟨failure, rows, by rwa [lines], bytes⟩

end Command

end Mov8086
