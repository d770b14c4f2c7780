import Mov8086.Command.Options

/-!
What the command line says when it disassembles nothing: help, version and usage errors.
-/

set_option autoImplicit false

namespace Mov8086.Command

def versionLine : String := "sim86-dis 0.0.1"

def helpLines : List String :=
  [ versionLine,
    "Disassemble 8086 mov instructions",
    "",
    "USAGE:",
    "    sim86-dis [FLAGS] <binary>",
    "",
    "FLAGS:",
    "    -h, --help          Prints help information",
    "    -k, --keep-going    Emit unrecognized op codes as data bytes and carry on",
    "    -l, --listing       Prefix every line with its offset and the raw instruction bytes",
    "        --no-header     Do not print the leading `bits 16` directive",
    "    -V, --version       Prints version information",
    "    -v, --verbose       Log more details to stderr (can be repeated)",
    "",
    "ARGS:",
    "    <binary>    The binary file to disassemble" ]

/-- The text up to the first line break. -/
def firstLine (text : String) : String :=
  String.ofList (text.toList.takeWhile (· ≠ '\n'))

namespace UsageError

/-- The first line of what is said. The usage line and the hint behind it are left out. -/
def message : UsageError → String
  | unknownArgument shown =>
    firstLine ("error: Found argument '" ++ shown ++
      "' which wasn't expected, or isn't valid in this context")
  | missingBinary => "error: The following required arguments were not provided:"
  | repeatedFlag flag =>
    "error: The argument '--" ++ flag.name ++
      "' was provided more than once, but cannot be used multiple times"

end UsageError

end Mov8086.Command
