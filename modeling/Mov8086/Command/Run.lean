import Mov8086.Command.Folder
import Mov8086.Command.Usage
import Mov8086.Disassembly

/-!
Runs of the command: what it prints, what it logs and the status it ends with.
-/

set_option autoImplicit false

namespace Mov8086.Command

/-- Why the command failed after its options were read. That output cannot be written is left out:
writing is assumed to succeed. -/
inductive Failure where
  | read (path : String) (cause : ReadError)
  | decode (stop : Stop)
deriving DecidableEq, Repr

namespace Failure

def message : Failure → String
  | read path cause => "could not read " ++ path ++ ": " ++ cause.reason
  | decode stop => "at offset 0x" ++ Numeral.hex 4 stop.offset ++ ": " ++ stop.cause.message

end Failure

/-- What the command does for given options: the lines it prints, what it reports, and whether it
fails. What it printed before it fails stays printed. -/
structure Report where
  lines : List String
  notices : List Notice
  failure : Option Failure

namespace Report

def header : String := "bits 16"

/-- The report on the data of a file, or on the failure to read it. -/
def ofLoaded (options : Options) : Except ReadError (List UInt8) → Report
  | .error cause => ⟨[], [], some (.read options.binary cause)⟩
  | .ok data =>
    let disassembly := Disassembly.ofData options.keepGoing data
    { lines :=
        (if options.noHeader then [] else [header]) ++
          disassembly.entries.map (·.line options.listing)
      notices := .loaded data.length options.binary :: disassembly.notices
      failure := disassembly.stop.map .decode }

end Report

/-- The lines as text, each with a line break behind it. -/
def linesText (lines : List String) : String :=
  String.join (lines.map (· ++ "\n"))

/-- A finished run: the lines of the output, the records on the error stream and the exit status. A
record is one line of text, unless a path or a reason that it shows holds a line break. -/
structure Run where
  stdout : List String
  stderr : List String
  status : UInt8
deriving DecidableEq, Repr

namespace Run

def ofRefusal : Refusal → Run
  | .helpWanted => ⟨helpLines, [], 0⟩
  | .versionWanted => ⟨[versionLine], [], 0⟩
  | .usage error => ⟨[], [error.message], 1⟩

/-- The records that a log with the threshold writes of the notices. The log is assumed to write one
for each notice that the threshold shows, in their order, and nothing else. -/
def logLines (threshold : Level) (notices : List Notice) : List String :=
  (notices.filter fun notice => threshold.shows notice.level).map Notice.line

/-- The run that makes the report; a failure is the last thing it says. -/
def ofReport (threshold : Level) (report : Report) : Run :=
  match report.failure with
  | none => ⟨report.lines, logLines threshold report.notices, 0⟩
  | some failure =>
    ⟨report.lines, logLines threshold report.notices ++ ["error: " ++ failure.message], 1⟩

/-- The run for the arguments of the command, where a file is read by an action. -/
def ofArgumentsM {m : Type → Type} [Monad m] (read : String → m (Except ReadError (List UInt8)))
    (arguments : List String) : m Run := do
  match Options.ofArguments arguments with
  | .error refusal => return ofRefusal refusal
  | .ok options =>
    let loaded ← read options.binary
    return ofReport options.level (Report.ofLoaded options loaded)

def ofArguments (files : Files) (arguments : List String) : Run :=
  Id.run (ofArgumentsM (fun path => pure (files.read path)) arguments)

end Run

end Mov8086.Command
