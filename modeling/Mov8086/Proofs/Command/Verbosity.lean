import Mov8086.Proofs.Command.Log
import Mov8086.Proofs.Command.Loop
import Mov8086.Proofs.Listing

/-!
Verbosity. How often it is asked for changes nothing but which records of the log are shown. The
warnings in the log are those for the data bytes in the output, and the debug records are the
transcript of the calls. The same holds of the lines on the error stream, but only where no path and
no reason holds a line break.
-/

set_option autoImplicit false

namespace Mov8086

open ByteStream

/-! ### Lines of the output -/

/-- The line of the output for a word with the text: the text itself or, in a listing, what is read
back as the position, the bytes and the text. -/
def Printed (listing : Bool) (position : Nat) (word : List UInt8) (text line : String) : Prop :=
  if listing then Row.ofLine? line = some ⟨position, word, text⟩ else line = text

theorem Entry.Shows.printed {position : Nat} {word : List UInt8} {entry : Entry}
    (shows : entry.Shows position word) (listing : Bool) :
    Printed listing position word (entry.line false) (entry.line listing) := by
  cases listing with
  | false => exact rfl
  | true =>
    have read := Entry.ofLine?_line shows.room
    rwa [Entry.row, shows.offset_eq, shows.bytes_eq] at read

namespace Command

/-! ### Arguments that differ in verbosity only -/

/-- The tokens besides those that ask for more detail. -/
def besidesVerbose (tokens : List Token) : List Token :=
  tokens.filter fun token => decide (token ≠ .flag .verbose)

namespace Tally

/-- The tally, without the count of requests for more detail. -/
def quiet (tally : Tally) : Tally :=
  { tally with verbose := 0 }

theorem map_quiet_read {token : Token} (other : token ≠ .flag .verbose) (tally : Tally) :
    (tally.read token).map quiet = tally.quiet.read token := by
  rcases token with flag | text | shown
  · cases flag with
    | verbose => exact absurd rfl other
    | _ => rfl
  · obtain ⟨_ | _, _, _, _, _⟩ := tally <;> rfl
  · rfl

theorem map_quiet_foldlM (tokens : List Token) (tally : Tally) :
    (tokens.foldlM read tally).map quiet = (besidesVerbose tokens).foldlM read tally.quiet := by
  induction tokens generalizing tally with
  | nil => rfl
  | cons token tokens ih =>
    by_cases verbose : token = .flag .verbose
    · subst verbose
      exact ih { tally with verbose := tally.verbose + 1 }
    · have kept : besidesVerbose (token :: tokens) = token :: besidesVerbose tokens :=
        List.filter_cons_of_pos (decide_eq_true verbose)
      rw [kept, List.foldlM_cons, List.foldlM_cons, ← map_quiet_read verbose]
      rcases tally.read token with refusal | next
      · rfl
      · exact ih next

end Tally

namespace Options

/-- The options, without their verbosity. -/
def quiet (options : Options) : Options :=
  { options with verbose := 0 }

theorem map_quiet_settle (tally : Tally) : tally.settle.map quiet = tally.quiet.settle := by
  obtain ⟨_ | binary, listing, keepGoing, noHeader, verbose⟩ := tally
  · rfl
  · simp only [Tally.settle, Tally.quiet, apply_ite (Except.map quiet)]
    rfl

theorem map_quiet_ofArguments (arguments : List String) :
    (ofArguments arguments).map quiet =
      ((besidesVerbose (Token.ofArguments arguments)).foldlM Tally.read .empty).bind Tally.settle := by
  have read := Tally.map_quiet_foldlM (Token.ofArguments arguments) .empty
  rw [show Tally.empty.quiet = .empty from rfl] at read
  rw [ofArguments, ← read]
  rcases (Token.ofArguments arguments).foldlM Tally.read Tally.empty with refusal | tally
  · rfl
  · exact map_quiet_settle tally

/-- Arguments with the same tokens besides ask for the same but in verbosity. -/
theorem quiet_eq {arguments arguments' : List String} {options options' : Options}
    (same : besidesVerbose (Token.ofArguments arguments) =
      besidesVerbose (Token.ofArguments arguments'))
    (parsed : ofArguments arguments = .ok options) (parsed' : ofArguments arguments' = .ok options') :
    options.quiet = options'.quiet := by
  have quiet := map_quiet_ofArguments arguments
  rw [same, ← map_quiet_ofArguments, parsed, parsed'] at quiet
  exact Except.ok.inj quiet

end Options

theorem Report.ofLoaded_quiet (options : Options) (loaded : Except ReadError (List UInt8)) :
    Report.ofLoaded options.quiet loaded = Report.ofLoaded options loaded := by
  cases loaded <;> rfl

/-! ### What the levels say of the data -/

/-- Words that are laid end to end from a position, the lines of output for them, and the warnings
among them: one for each data byte, which is read back as the same byte and the position it has. -/
inductive Warned (listing : Bool) : Nat → List (List UInt8) → List String → List String → Prop where
  | nil (position : Nat) : Warned listing position [] [] []
  | instruction {position : Nat} {r : Record} {i : Instruction} {line : String}
      {words : List (List UInt8)} {lines warnings : List String} (wf : r.WellFormed)
      (known : r.instruction = .ok i) (printed : Printed listing position r.encode i.text line)
      (later : Warned listing (position + r.encode.length) words lines warnings) :
      Warned listing position (r.encode :: words) (line :: lines) warnings
  | data {position : Nat} {value : UInt8} {digits : List Char} {line warning : String}
      {words : List (List UInt8)} {lines warnings : List String} (unknown : OpCode.Unknown value)
      (written : Numeral.IsHex 'a' 2 digits value.toNat)
      (printed : Printed listing position [value] ("db 0x" ++ String.ofList digits) line)
      (warns : LogLine.ofLine? warning = some (.skipped value position))
      (later : Warned listing (position + 1) words lines warnings) :
      Warned listing position ([value] :: words) (line :: lines) (warning :: warnings)

theorem linesAt_skipped (byte : UInt8) (offset : Nat) (notices : List Notice) :
    Notice.linesAt .warn (.skipped byte offset :: notices) =
      (Notice.skipped byte offset).line :: Notice.linesAt .warn notices :=
  rfl

end Command

namespace Disassembly.Loop

open Command

/-- The warnings of a disassembly are those for its data bytes, each at the position of the byte. -/
theorem exists_warned {keepGoing : Bool} {decoder : Decoder} {cycles : Nat}
    {disassembly : Disassembly} (loop : Loop keepGoing decoder cycles disassembly)
    (listing : Bool) {data : List UInt8} (gapless : decoder.source = ofBytes data) :
    ∃ words rest, data = words.flatten ++ rest ∧
      Warned listing decoder.position words (disassembly.entries.map (·.line listing))
        (Notice.linesAt .warn disassembly.notices) := by
  -- The words are what the cycles take; of their reports only that of a skipped byte is a warning.
  induction loop generalizing data with
  | @ended decoder outcome =>
    refine ⟨[], data, rfl, ?_⟩
    rw [Notice.linesAt_cycles_warn]
    exact .nil _
  | @found decoder item cycles later outcome _ ih =>
    obtain ⟨r, behind, wf, known, shown, rfl, next⟩ :=
      Decoder.exists_front_of_found gapless outcome
    rw [next] at ih
    obtain ⟨words, rest, rfl, warned⟩ := ih rfl
    refine ⟨r.encode :: words, rest, (List.append_assoc _ _ _).symm, ?_⟩
    rw [Notice.linesAt_append, Notice.linesAt_cycles_warn, List.nil_append, List.map_cons, shown]
    exact .instruction wf known ((Entry.Shows.instruction wf known).printed listing) warned
  | @skipped decoder value cycles later outcome _ _ ih =>
    obtain ⟨unknown, behind, rfl, next⟩ := Decoder.exists_front_of_unrecognized gapless outcome
    rw [next] at ih
    obtain ⟨words, rest, rfl, warned⟩ := ih rfl
    refine ⟨[value] :: words, rest, rfl, ?_⟩
    rw [Notice.linesAt_append, Notice.linesAt_cycles_warn, List.nil_append, List.map_cons,
      linesAt_skipped]
    exact .data unknown (Numeral.isHex_hexDigits (by decide) value.toNat)
      ((Entry.Shows.data unknown).printed listing) (LogLine.ofLine?_line nofun) warned
  | @stopped decoder cause outcome fatal =>
    refine ⟨[], data, rfl, ?_⟩
    rw [Notice.linesAt_cycles_warn]
    exact .nil _

/-- A disassembly that does not keep going reports the calls up to the first error. -/
theorem notices_eq {decoder : Decoder} {cycles : Nat} {disassembly : Disassembly}
    (loop : Loop false decoder cycles disassembly) :
    disassembly.notices = (Trace.ofStream decoder.source).events.map .cycle := by
  have failed {decoder : Decoder} {error : DecodeError}
      (outcome : decoder.attempt.1.outcome = .error error) :
      decoder.attempt.1.events = (Trace.ofStream decoder.source).events := by
    have answer := Cycle.instruction_eq_error_iff.mpr (Decoder.failed_iff.mp outcome)
    rw [Trace.ofStream_of_error answer, Decoder.events_attempt]
  induction loop with
  | ended outcome => rw [failed outcome]
  | @found decoder item cycles later outcome _ ih =>
    obtain ⟨r, complete, known, -⟩ := Decoder.found_iff.mp outcome
    have answer := Cycle.instruction_eq_ok_iff.mpr ⟨r, complete, known⟩
    rw [Trace.ofStream_of_ok answer, List.map_append, ih, Decoder.events_attempt,
      Decoder.source_attempt, Cycle.rest_instruction]
  | skipped _ going => cases going
  | stopped outcome => rw [failed outcome]

end Disassembly.Loop

namespace Command

namespace Run

/-- Of two runs on the same report the quieter one says what the other one does, without the lines
that its verbosity hides. -/
theorem quieter {low high : UInt8} (below : low ≤ high) (report : Report) :
    let run := ofReport (.ofVerbosity low) report
    let run' := ofReport (.ofVerbosity high) report
    run.stdout = run'.stdout ∧ run.status = run'.status ∧
      run.stderr = run'.stderr.filter fun line => !hides low line := by
  intro run run'
  refine ⟨?_, status_ofReport _ _ report, stderr_filter below report⟩
  rw [stdout_ofReport, stdout_ofReport]

end Run

/-- The output, and the warnings in the log of any verbosity. -/
theorem Report.exists_warned (options : Options) (data : List UInt8) :
    ∃ words rest lines, data = words.flatten ++ rest ∧
      (ofLoaded options (.ok data)).lines =
        (if options.noHeader then [] else [header]) ++ lines ∧
      Warned options.listing 0 words lines
        (Notice.linesAt .warn (ofLoaded options (.ok data)).notices) := by
  obtain ⟨cycles, loop⟩ :=
    Disassembly.exists_loop options.keepGoing (Decoder.ofStream (ofBytes data))
  obtain ⟨words, rest, split, warned⟩ := loop.exists_warned options.listing rfl
  exact ⟨words, rest, _, split, rfl, warned⟩

theorem Report.linesAt_debug {options : Options} (stopping : options.keepGoing = false)
    (data : List UInt8) :
    Notice.linesAt .debug (ofLoaded options (.ok data)).notices =
      (Trace.ofStream (ofBytes data)).lines := by
  obtain ⟨cycles, loop⟩ := Disassembly.exists_loop false (Decoder.ofStream (ofBytes data))
  have notices : (ofLoaded options (.ok data)).notices =
      .loaded data.length options.binary ::
        (Trace.ofStream (ofBytes data)).events.map .cycle := by
    rw [ofLoaded, stopping]
    exact congrArg _ loop.notices_eq
  rw [notices]
  exact Notice.linesAt_cycles_debug _

/-- The verbosity of a run filters its log and changes nothing else. Of two runs whose arguments
differ only in how often more detail is asked for, the quieter one has the same output and status,
and the records of the other one's log that its verbosity does not hide. At every verbosity the log
warns of the data bytes in the output, one by one, each by its value and the number of bytes in front
of it; and without keeping going the debug records are the log of the calls up to the first error. The
records are the lines on the error stream, if neither the path nor the reason of a failure to read it
holds a line break. -/
theorem verbosity_only_filters (files : Files) :
    (∀ (arguments arguments' : List String) (options options' : Options),
      besidesVerbose (Token.ofArguments arguments) =
          besidesVerbose (Token.ofArguments arguments') →
        Options.ofArguments arguments = .ok options →
          Options.ofArguments arguments' = .ok options' → options.verbose ≤ options'.verbose →
            let run := Run.ofArguments files arguments
            let run' := Run.ofArguments files arguments'
            run.stdout = run'.stdout ∧ run.status = run'.status ∧
              (run.stderr = run'.stderr.filter fun record => !hides options.verbose record) ∧
              (files.Unbroken options.binary →
                run.errorLines = run'.errorLines.filter fun line => !hides options.verbose line)) ∧
    ∀ (arguments : List String) (options : Options),
      Options.ofArguments arguments = .ok options →
        let run := Run.ofArguments files arguments
        (files.Unbroken options.binary → run.errorLines = run.stderr) ∧
        (∀ cause, files.read options.binary = .error cause →
          run.stdout = [] ∧ run.stderr.filter Level.warn.marks = []) ∧
        ∀ data, files.read options.binary = .ok data →
          (∃ words rest lines, data = words.flatten ++ rest ∧
            run.stdout = (if options.noHeader then [] else ["bits 16"]) ++ lines ∧
              Warned options.listing 0 words lines (run.stderr.filter Level.warn.marks)) ∧
          (options.keepGoing = false → 2 ≤ options.verbose →
            run.stderr.filter Level.debug.marks = (Trace.ofStream (ofBytes data)).lines) := by
  constructor
  · intro arguments arguments' options options' same parsed parsed' below run run'
    have quiet := Options.quiet_eq same parsed parsed'
    have binary : options.binary = options'.binary := congrArg (·.binary) quiet
    have report : Report.ofLoaded options' (files.read options'.binary) =
        Report.ofLoaded options (files.read options.binary) := by
      rw [← Report.ofLoaded_quiet, ← quiet, Report.ofLoaded_quiet, binary]
    obtain ⟨stdout, status, stderr⟩ :=
      Run.quieter below (Report.ofLoaded options (files.read options.binary))
    have ran : run = Run.ofReport options.level _ := Run.ofArguments_of_parsed parsed files
    have ran' : run' = _ := Run.ofArguments_of_parsed parsed' files
    rw [report] at ran'
    rw [ran, ran']
    refine ⟨stdout, status, stderr, ?_⟩
    intro unbroken
    rw [Run.errorLines_ofReport unbroken, Run.errorLines_ofReport unbroken]
    exact stderr
  · intro arguments options parsed run
    have ran : run = _ := Run.ofArguments_of_parsed parsed files
    have warns : options.level.shows .warn = true :=
      Level.shows_ofVerbosity_iff.mpr (Nat.zero_le _)
    rw [ran, Run.stdout_ofReport, Run.stderr_marks warns]
    refine ⟨fun unbroken => Run.errorLines_ofReport unbroken _, ?_, ?_⟩
    · intro cause unread
      rw [unread]
      exact ⟨rfl, rfl⟩
    · intro data loaded
      rw [loaded]
      refine ⟨Report.exists_warned options data, ?_⟩
      intro stopping detailed
      have debugs : options.level.shows .debug = true :=
        Level.shows_ofVerbosity_iff.mpr (Nat.le_min.mpr ⟨detailed, Nat.le_succ 2⟩)
      rw [Run.stderr_marks debugs, Report.linesAt_debug stopping]

/-- A file of a move and a byte that begins none, without and with more detail and with keeping going,
and no file. -/
theorem verbosity_only_filters_unknown :
    let folder : Folder := [("a", [0xB1, 7, 0x90])]
    let files : Files := folder
    let run := Run.ofArguments files ["a"]
    let run' := Run.ofArguments files ["-vv", "a"]
    let going := Run.ofArguments files ["-k", "a"]
    run.stdout = run'.stdout ∧ run.status = run'.status ∧
      (run.stderr = run'.stderr.filter fun record => !hides 0 record) ∧
      (run.errorLines = run'.errorLines.filter fun line => !hides 0 line) ∧
      run.errorLines = run.stderr ∧
      run'.stderr.filter Level.debug.marks = (Trace.ofStream (ofBytes [0xB1, 7, 0x90])).lines ∧
      (∃ words rest lines, [0xB1, 7, 0x90] = words.flatten ++ rest ∧
        going.stdout = ["bits 16"] ++ lines ∧
          Warned false 0 words lines (going.stderr.filter Level.warn.marks)) ∧
      (Run.ofArguments files ["b"]).stdout = [] := by
  intro folder files run run' going
  have loaded : files.read "a" = .ok [0xB1, 7, 0x90] :=
    Folder.read_of_isName (show Folder.IsName "a" by decide) folder
  have unread : files.read "b" = .error .notFound :=
    Folder.read_of_isName (show Folder.IsName "b" by decide) folder
  have unbroken : files.Unbroken "a" := by
    refine ⟨by decide, ?_⟩
    intro cause failed
    cases loaded.symm.trans failed
  let options : Options :=
    { binary := "a", listing := false, keepGoing := false, noHeader := false, verbose := 0 }
  have parsed : Options.ofArguments ["a"] = .ok options := by cbv
  have parsed' : Options.ofArguments ["-vv", "a"] = .ok { options with verbose := 2 } := by cbv
  have continued : Options.ofArguments ["-k", "a"] = .ok { options with keepGoing := true } := by
    cbv
  have missing : Options.ofArguments ["b"] = .ok { options with binary := "b" } := by cbv
  have same : besidesVerbose (Token.ofArguments ["a"]) =
      besidesVerbose (Token.ofArguments ["-vv", "a"]) := by cbv
  obtain ⟨pairs, runs⟩ := verbosity_only_filters files
  obtain ⟨stdout, status, stderr, lines⟩ := pairs _ _ _ _ same parsed parsed' (by decide)
  obtain ⟨whole, -⟩ := runs _ _ parsed
  obtain ⟨-, -, warned⟩ := runs _ _ continued
  obtain ⟨-, -, debugs⟩ := runs _ _ parsed'
  obtain ⟨-, nothing, -⟩ := runs _ _ missing
  exact ⟨stdout, status, stderr, lines unbroken, whole unbroken,
    (debugs _ loaded).2 rfl (by decide), (warned _ loaded).1, (nothing _ unread).1⟩

/-- The lines on the error stream, unlike the records, are not always filtered, since a path that is
shown may hold a line break. For an empty file with such a name the run with more detail has a line
that the filter keeps and that the other run does not have. Where there is no such file, a line looks
like a warning although there is no output. -/
theorem not_forall_errorLines_filter :
    (¬∀ (files : Files) (arguments arguments' : List String) (options options' : Options),
      besidesVerbose (Token.ofArguments arguments) =
          besidesVerbose (Token.ofArguments arguments') →
        Options.ofArguments arguments = .ok options →
          Options.ofArguments arguments' = .ok options' → options.verbose ≤ options'.verbose →
            (Run.ofArguments files arguments).errorLines =
              (Run.ofArguments files arguments').errorLines.filter fun line =>
                !hides options.verbose line) ∧
    let run := Run.ofArguments ([] : Folder) ["a\nWARN sim86_dis: b"]
    run.stdout = [] ∧ run.errorLines =
      ["error: could not read a",
        "WARN sim86_dis: b: No such file or directory (os error 2)"] := by
  refine ⟨?_, by decide +kernel, by decide +kernel⟩
  intro filters
  let path := "a\nWARN sim86_dis: b"
  let folder : Folder := [(path, [])]
  let options : Options :=
    { binary := path, listing := false, keepGoing := false, noHeader := false, verbose := 0 }
  have parsed : Options.ofArguments [path] = .ok options := by decide +kernel
  have parsed' : Options.ofArguments ["-v", path] = .ok { options with verbose := 1 } := by
    decide +kernel
  have same : besidesVerbose (Token.ofArguments [path]) =
      besidesVerbose (Token.ofArguments ["-v", path]) := by decide +kernel
  have quiet : (Run.ofArguments folder [path]).errorLines = [] := by decide +kernel
  have other : (Run.ofArguments folder ["-v", path]).errorLines =
      ["INFO sim86_dis: loaded 0 bytes from a", "WARN sim86_dis: b"] := by decide +kernel
  have filtered := filters folder [path] ["-v", path] _ _ same parsed parsed' (by decide)
  rw [quiet, other] at filtered
  revert filtered
  decide

end Command

end Mov8086
