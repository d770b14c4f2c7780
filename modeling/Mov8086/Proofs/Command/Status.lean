import Mov8086.Proofs.Command.Folder
import Mov8086.Proofs.Command.Report
import Mov8086.Proofs.Log

/-!
Exit statuses. A run succeeds exactly on a language of byte lists: on words alone if it keeps going,
and on the bytes of records alone if it does not. A run that fails names the word or the tail that
it fails at.
-/

set_option autoImplicit false

namespace Mov8086

/-- No word is a byte that begins no record. -/
def Recognized (words : List (List UInt8)) : Prop :=
  ∀ value, OpCode.Unknown value → [value] ∉ words

/-- The line of assembly that a word becomes. A byte that begins no record is shown by its two
hexadecimal digits. -/
inductive WordLine : List UInt8 → String → Prop where
  | instruction {r : Record} {i : Instruction} (wf : r.WellFormed)
      (known : r.instruction = .ok i) : WordLine r.encode i.text
  | data {value : UInt8} {digits : List Char} (unknown : OpCode.Unknown value)
      (written : Numeral.IsHex 'a' 2 digits value.toNat) :
      WordLine [value] ("db 0x" ++ String.ofList digits)

theorem Entry.Shows.wordLine {position : Nat} {word : List UInt8} {entry : Entry}
    (shows : entry.Shows position word) : WordLine word (entry.line false) := by
  cases shows with
  | instruction wf known => exact .instruction wf known
  | @data value unknown =>
    exact .data unknown (Numeral.isHex_hexDigits (by decide) value.toNat)

/-- Without a listing, the entries for words become one line for each. -/
theorem Disassembly.forall₂_wordLine {keepGoing : Bool} {words : List (List UInt8)}
    (passable : ∀ word ∈ words, Passable keepGoing word) (position : Nat) :
    List.Forall₂ WordLine words ((wordEntries position words).map (·.line false)) := by
  induction words generalizing position with
  | nil => exact .nil
  | cons word words ih =>
    obtain ⟨first, later⟩ := List.forall_mem_cons.mp passable
    obtain ⟨entry, shows, split⟩ := exists_wordEntries_cons first words position
    rw [split, List.map_cons]
    exact .cons shows.wordLine (ih later _)

/-! ### The words that are passed -/

theorem IsWord.passable_going {word : List UInt8} (isWord : IsWord word) : Passable true word :=
  isWord.imp_right fun unknown => ⟨rfl, unknown⟩

/-- Words that are all passed without keeping going are all recognized. -/
theorem recognized_of_passable {words : List (List UInt8)}
    (passable : ∀ word ∈ words, Passable false word) : Recognized words := by
  intro value _ member
  rcases passable [value] member with ⟨r, -, encoded⟩ | ⟨going, -⟩
  · have least := (Record.length_encode r).1
    rw [← encoded, List.length_singleton] at least
    omega
  · cases going

/-- Either words are all passed without keeping going, or a first one is not, which is a byte that
begins no record. -/
theorem passable_or_exists_first_unknown {words : List (List UInt8)}
    (isWord : ∀ word ∈ words, IsWord word) :
    (∀ word ∈ words, Passable false word) ∨
      ∃ front value behind, words = front ++ [value] :: behind ∧
        (∀ word ∈ front, Passable false word) ∧ OpCode.Unknown value := by
  induction words with
  | nil => exact .inl (List.forall_mem_nil _)
  | cons word words ih =>
    obtain ⟨first, later⟩ := List.forall_mem_cons.mp isWord
    rcases first with encoding | ⟨value, unknown, rfl⟩
    · rcases ih later with passable | ⟨front, value, behind, rfl, passable, unknown⟩
      · exact .inl (List.forall_mem_cons.mpr ⟨.inl encoding, passable⟩)
      · exact .inr ⟨word :: front, value, behind, rfl,
          List.forall_mem_cons.mpr ⟨.inl encoding, passable⟩, unknown⟩
    · exact .inr ⟨[], value, words, rfl, List.forall_mem_nil _, unknown⟩

namespace Layout

variable {data tail : List UInt8} {words : List (List UInt8)}

/-- A disassembly that passes every word of a layout goes on up to its tail. -/
theorem course {keepGoing : Bool} (layout : Layout data words tail)
    (passable : ∀ word ∈ words, Passable keepGoing word) : Course keepGoing data words tail :=
  ⟨layout.eq, passable, layout.tail.imp_right fun broken => ⟨_, .broken broken⟩⟩

/-- A disassembly that does not keep going stops at the first word that it does not recognize. -/
theorem course_of_unknown {front behind : List (List UInt8)} {value : UInt8}
    (layout : Layout data (front ++ [value] :: behind) tail)
    (passable : ∀ word ∈ front, Passable false word) (unknown : OpCode.Unknown value) :
    Course false data front (value :: (behind.flatten ++ tail)) where
  eq := by
    rw [layout.eq, List.flatten_append, List.flatten_cons, List.append_assoc, List.append_assoc,
      List.singleton_append]
  word := passable
  rest := .inr ⟨_, .unknown _ rfl unknown⟩

theorem broken_of_ne_nil (layout : Layout data words tail) (left : tail ≠ []) :
    Cycle.Broken tail :=
  layout.tail.resolve_left left

end Layout

/-! ### Runs -/

/-- The text says where and why a disassembly stops: it has the digits of the offset, four or more,
and behind them a text that is read back as the error. -/
def Stop.SaidBy (stop : Stop) (text : String) : Prop :=
  ∃ digits reason, Numeral.IsHex 'a' 4 digits stop.offset ∧
    LogLine.error.whole? reason = some stop.cause ∧
    text = "error: at offset 0x" ++ String.ofList digits ++ ": " ++ reason

namespace Command

open Disassembly

/-- A run fails with an error in its data: it ends with status 1, and the last thing that it says is
the error and its offset. -/
structure Run.Fails (run : Run) (report : Report) (stop : Stop) : Prop where
  failure : report.failure = some (.decode stop)
  status : run.status = 1
  message : ∃ text, run.stderr.getLast? = some text ∧ stop.SaidBy text

theorem saidBy_message {stop : Stop} (sound : ∀ cause, stop.cause ≠ .fault cause) :
    stop.SaidBy ("error: " ++ (Failure.decode stop).message) := by
  have heading : "error: " ++ "at offset 0x" = "error: at offset 0x" := by decide
  refine ⟨_, _, Numeral.isHex_hexDigits (by decide) stop.offset,
    (LogLine.takes_error sound []).whole?_eq, ?_⟩
  unfold Failure.message
  simp only [← heading, String.append_assoc]
  rfl

namespace Run

theorem Fails.status_ne_zero {run : Run} {report : Report} {stop : Stop}
    (fails : run.Fails report stop) : run.status ≠ 0 := by
  rw [fails.status]
  decide

theorem ofArguments_of_parsed {arguments : List String} {options : Options}
    (parsed : Options.ofArguments arguments = .ok options) (files : Files) :
    ofArguments files arguments =
      ofReport options.level (Report.ofLoaded options (files.read options.binary)) := by
  rw [ofArguments, ofArgumentsM, parsed]
  rfl

theorem ofArguments_of_ok {files : Files} {arguments : List String} {options : Options}
    {data : List UInt8} (parsed : Options.ofArguments arguments = .ok options)
    (loaded : files.read options.binary = .ok data) :
    ofArguments files arguments = ofReport options.level (Report.ofLoaded options (.ok data)) := by
  rw [ofArguments_of_parsed parsed, loaded]

section Report

variable (threshold : Level) {report : Report}

theorem stdout_ofReport : (ofReport threshold report).stdout = report.lines := by
  unfold ofReport
  split <;> rfl

theorem status_ofReport_eq_zero_iff :
    (ofReport threshold report).status = 0 ↔ report.failure = none := by
  unfold ofReport
  split
  · next succeeded => exact iff_of_true rfl succeeded
  · next failure failed =>
    rw [failed]
    exact iff_of_false (show (1 : UInt8) ≠ 0 by decide) nofun

theorem fails_ofReport {stop : Stop} (sound : ∀ cause, stop.cause ≠ .fault cause)
    (failed : report.failure = some (.decode stop)) :
    (ofReport threshold report).Fails report stop where
  failure := failed
  status := by rw [ofReport, failed]
  message := by
    rw [ofReport, failed]
    exact ⟨_, List.getLast?_concat, saidBy_message sound⟩

end Report

section Course

variable {options : Options} {data rest : List UInt8} {words : List (List UInt8)}
  (course : Course options.keepGoing data words rest) (threshold : Level)
include course

theorem status_eq_zero_iff_of_course :
    (ofReport threshold (.ofLoaded options (.ok data))).status = 0 ↔ rest = [] := by
  rw [status_ofReport_eq_zero_iff, Report.failure_eq_none_iff course]

theorem fails_of_course {error : DecodeError} (stuck : Stuck options.keepGoing rest error) :
    (ofReport threshold (.ofLoaded options (.ok data))).Fails (.ofLoaded options (.ok data))
      ⟨words.flatten.length, error⟩ :=
  fails_ofReport threshold stuck.ne_fault
    ((Report.failure_eq_decode_iff course).mpr ⟨rfl, stuck⟩)

theorem not_fails_unrecognized (going : options.keepGoing = true) (offset : Nat) (value : UInt8) :
    ¬(ofReport threshold (.ofLoaded options (.ok data))).Fails (.ofLoaded options (.ok data))
      ⟨offset, .unrecognized value⟩ := by
  intro fails
  obtain ⟨-, stuck⟩ := (Report.failure_eq_decode_iff course).mp fails.failure
  cases stuck with
  | unknown _ stopping => exact Bool.false_ne_true (stopping.symm.trans going)

/-- Without a listing, the output has one line for each word that is passed. -/
theorem exists_stdout_of_course (plain : options.listing = false) :
    ∃ body, (ofReport threshold (.ofLoaded options (.ok data))).stdout =
        (if options.noHeader then [] else ["bits 16"]) ++ body ∧
      List.Forall₂ WordLine words body := by
  rw [stdout_ofReport, Report.lines_of_course course, plain]
  exact ⟨_, rfl, forall₂_wordLine course.word 0⟩

end Course

end Run

/-- A run on data whose words it passes succeeds if the tail is empty, and fails where it begins if
it is not. -/
private theorem run_of_layout {options : Options} {data tail : List UInt8}
    {words : List (List UInt8)} (layout : Layout data words tail)
    (passable : ∀ word ∈ words, Passable options.keepGoing word) (threshold : Level) :
    let report := Report.ofLoaded options (.ok data)
    let run := Run.ofReport threshold report
    (run.status = 0 ↔ tail = []) ∧
      (tail ≠ [] → run.Fails report ⟨words.flatten.length, .truncated⟩) := by
  intro report run
  have course := layout.course passable
  refine ⟨Run.status_eq_zero_iff_of_course course threshold, ?_⟩
  intro left
  exact Run.fails_of_course course threshold (.broken (layout.broken_of_ne_nil left))

/-- The status of a run decides a language. Data are laid out in one way only as words, which are the
bytes of records and the bytes that begin none, and a tail that breaks off within a record. A run
that keeps going succeeds if the tail is empty and fails where the tail begins if it is not; without
a listing its output has a line for each word. A run that does not keep going succeeds if moreover
the bytes that begin no record do not occur, and fails at the first of them if they do. -/
theorem status_decides_layout (data : List UInt8) :
    ∃ words tail, Layout data words tail ∧
      (∀ words' tail', Layout data words' tail' → words' = words ∧ tail' = tail) ∧
      ∀ (files : Files) (arguments : List String) (options : Options),
        Options.ofArguments arguments = .ok options → files.read options.binary = .ok data →
          let report := Report.ofLoaded options (files.read options.binary)
          let run := Run.ofArguments files arguments
          (options.keepGoing = true →
            (run.status = 0 ↔ tail = []) ∧
            (tail ≠ [] → run.Fails report ⟨words.flatten.length, .truncated⟩) ∧
            (∀ offset value, ¬run.Fails report ⟨offset, .unrecognized value⟩) ∧
            (options.listing = false →
              ∃ body, run.stdout = (if options.noHeader then [] else ["bits 16"]) ++ body ∧
                List.Forall₂ WordLine words body)) ∧
          (options.keepGoing = false →
            (run.status = 0 ↔ tail = [] ∧ Recognized words) ∧
            (¬Recognized words → ∃ front value behind, words = front ++ [value] :: behind ∧
              Recognized front ∧ OpCode.Unknown value ∧
                run.Fails report ⟨front.flatten.length, .unrecognized value⟩) ∧
            (Recognized words → tail ≠ [] →
              run.Fails report ⟨words.flatten.length, .truncated⟩)) := by
  obtain ⟨words, tail, layout⟩ := Layout.exists_layout data
  refine ⟨words, tail, layout, fun _ _ layout' => layout'.unique layout, ?_⟩
  intro files arguments options parsed loaded report run
  have ran : run = Run.ofReport options.level report := by
    simp only [run, report, Run.ofArguments_of_ok parsed loaded, loaded]
  have reported : report = .ofLoaded options (.ok data) := by simp only [report, loaded]
  rw [ran, reported]
  constructor
  · intro going
    have passable : ∀ word ∈ words, Passable options.keepGoing word := fun word held =>
      going ▸ (layout.word word held).passable_going
    have course := layout.course passable
    obtain ⟨succeeds, fails⟩ := run_of_layout layout passable options.level
    exact ⟨succeeds, fails, Run.not_fails_unrecognized course options.level going,
      Run.exists_stdout_of_course course options.level⟩
  · intro stopping
    -- The run ends at the tail only if no word ends it before.
    rcases passable_or_exists_first_unknown layout.word with
      passable | ⟨front, value, behind, rfl, passable, unknown⟩
    · have recognized := recognized_of_passable passable
      rw [← stopping] at passable
      obtain ⟨succeeds, fails⟩ := run_of_layout layout passable options.level
      refine ⟨?_, fun unrecognized => absurd recognized unrecognized, fun _ => fails⟩
      rw [succeeds, and_iff_left recognized]
    · have unrecognized : ¬Recognized (front ++ [value] :: behind) := fun recognized =>
        recognized value unknown (List.mem_append_right _ List.mem_cons_self)
      have course := layout.course_of_unknown passable unknown
      rw [← stopping] at course
      have fails := Run.fails_of_course course options.level (.unknown _ stopping unknown)
      refine ⟨?_, ?_, fun recognized => absurd recognized unrecognized⟩
      · exact iff_of_false fails.status_ne_zero fun both => unrecognized both.2
      · intro _
        exact ⟨front, value, behind, rfl, recognized_of_passable passable, unknown, fails⟩

/-- A file of a move and a byte that begins none, with keeping going and without. -/
theorem status_decides_layout_unknown :
    let folder : Folder := [("a", [0xB1, 7, 0x90])]
    let files : Files := folder
    let options : Options :=
      { binary := "a", listing := false, keepGoing := false, noHeader := false, verbose := 0 }
    (Run.ofArguments files ["-k", "a"]).status = 0 ∧
      (Run.ofArguments files ["a"]).Fails (.ofLoaded options (files.read "a"))
        ⟨2, .unrecognized 0x90⟩ := by
  intro folder files options
  have loaded : files.read "a" = .ok [0xB1, 7, 0x90] :=
    Folder.read_of_isName (show Folder.IsName "a" by decide) folder
  have layout : Layout [0xB1, 7, 0x90] [[0xB1, 7], [0x90]] [] := by
    have move : IsWord [0xB1, 7] := .inl ⟨⟨.byte, 1, .immediate 7⟩, by decide, by decide⟩
    have unknown : IsWord [0x90] := .inr ⟨0x90, by decide, rfl⟩
    exact .cons move (.cons unknown (.nil (.inl rfl)))
  obtain ⟨words, tail, -, alone, runs⟩ := status_decides_layout [0xB1, 7, 0x90]
  obtain ⟨rfl, rfl⟩ := alone _ _ layout
  have going := runs files ["-k", "a"] { options with keepGoing := true } (by cbv) loaded
  have stopping := runs files ["a"] options (by cbv) loaded
  refine ⟨(going.1 rfl).1.mpr rfl, ?_⟩
  have unrecognized : ¬Recognized [[0xB1, 7], [0x90]] := fun recognized =>
    recognized 0x90 (by decide) (by decide)
  obtain ⟨front, value, behind, split, -, -, fails⟩ := (stopping.2 rfl).2.1 unrecognized
  -- The word in front of the byte is the move.
  rcases front with _ | ⟨first, _ | ⟨second, front⟩⟩
  · cases split
  · cases split
    exact fails
  · cases front <;> cases split

end Command

end Mov8086
