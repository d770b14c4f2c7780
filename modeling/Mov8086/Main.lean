import Mov8086.Command.Run

/-!
The command: reads the file that its arguments name, prints the disassembly, and logs on the error
stream.
-/

set_option autoImplicit false

namespace Mov8086.Command

namespace ReadError

/-- The reason that stands behind an error number of the system. -/
def ofSystem (number : UInt32) (details : String) : ReadError :=
  match number.toNat with
  | 2 => .notFound
  | 20 => .notDirectory
  | 21 => .isDirectory
  | 36 => .nameTooLong
  | n => .other (details ++ " (os error " ++ Numeral.decimal n ++ ")")

/-- The reason that stands behind a failed input operation. -/
def ofInput : IO.Error → ReadError
  | .noFileOrDirectory _ number details
  | .interrupted _ number details
  | .alreadyExists _ number details
  | .invalidArgument _ number details
  | .permissionDenied _ number details
  | .resourceExhausted _ number details
  | .inappropriateType _ number details
  | .noSuchThing _ number details
  | .otherError number details
  | .resourceBusy number details
  | .resourceVanished number details
  | .unsupportedOperation number details
  | .hardwareFault number details
  | .unsatisfiedConstraints number details
  | .illegalOperation number details
  | .protocolError number details
  | .timeExpired number details => ofSystem number details
  | .unexpectedEof => .other "unexpected end of file"
  | .userError text => .other text

end ReadError

def readFile (path : String) : IO (Except ReadError (List UInt8)) := do
  if path.toList.contains '\x00' then
    return .error .nulByte
  try
    let content ← IO.FS.withFile path .read fun handle => handle.readBinToEnd
    return .ok content.toList
  catch error =>
    return .error (ReadError.ofInput error)

def runOn (arguments : List String) : IO Run :=
  Run.ofArgumentsM readFile arguments

end Mov8086.Command

/-- Runs the command and returns its exit status. -/
def main (arguments : List String) : IO UInt32 := do
  let run ← Mov8086.Command.runOn arguments
  (← IO.getStdout).putStr (Mov8086.Command.linesText run.stdout)
  (← IO.getStderr).putStr (Mov8086.Command.linesText run.stderr)
  return run.status.toUInt32
