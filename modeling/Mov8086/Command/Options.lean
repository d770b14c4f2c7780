import Mov8086.Log

/-!
Options of the command line. The arguments are cut into tokens, which do not depend on one another
but for the `--` behind which every argument is an operand. The tokens are read from left to right
until one of them decides; what must hold of all of them is checked at the end.
-/

set_option autoImplicit false

namespace Mov8086.Command

inductive Flag where
  | help
  | version
  | listing
  | keepGoing
  | noHeader
  | verbose
deriving DecidableEq, Repr

namespace Flag

def ofLetter? : Char → Option Flag
  | 'h' => some help
  | 'V' => some version
  | 'l' => some listing
  | 'k' => some keepGoing
  | 'v' => some verbose
  | _ => none

def name : Flag → String
  | help => "help"
  | version => "version"
  | listing => "listing"
  | keepGoing => "keep-going"
  | noHeader => "no-header"
  | verbose => "verbose"

/-- The flag with the given long name, which is never abbreviated. -/
def ofName? (text : String) : Option Flag :=
  [help, version, listing, keepGoing, noHeader, verbose].find? (·.name = text)

end Flag

/-- A part of the command line with a meaning of its own. -/
inductive Token where
  | flag (flag : Flag)
  | operand (text : String)
  /-- A flag that does not exist, as messages show it. -/
  | unknown (shown : String)
deriving DecidableEq, Repr

namespace Token

def ofLetter (letter : Char) : Token :=
  match Flag.ofLetter? letter with
  | some f => flag f
  | none => unknown (String.ofList ['-', letter])

/-- The token of a long flag. Dashes in front of the name count for nothing, and neither does a
value behind it. -/
def ofLongName (text : List Char) : Token :=
  let name := String.ofList ((text.dropWhile (· = '-')).takeWhile (· ≠ '='))
  match Flag.ofName? name with
  | some f => flag f
  | none => unknown ("--" ++ name)

/-- The tokens of one argument in front of any `--`. A dash alone is an operand. -/
def ofArgument (argument : String) : List Token :=
  match argument.toList with
  | '-' :: '-' :: text => [ofLongName text]
  | '-' :: letter :: letters => (letter :: letters).map ofLetter
  | _ => [operand argument]

def ofArguments : List String → List Token
  | [] => []
  | argument :: rest =>
    if argument = "--" then rest.map operand else ofArgument argument ++ ofArguments rest

end Token

inductive UsageError where
  /-- A flag that does not exist, or an operand too many. -/
  | unknownArgument (shown : String)
  | missingBinary
  | repeatedFlag (flag : Flag)
deriving DecidableEq, Repr

/-- Why a command line asks for no disassembly. -/
inductive Refusal where
  | helpWanted
  | versionWanted
  | usage (error : UsageError)
deriving DecidableEq, Repr

/-- What the tokens read so far say. -/
structure Tally where
  binary : Option String
  listing : Nat
  keepGoing : Nat
  noHeader : Nat
  verbose : Nat
deriving DecidableEq, Repr

structure Options where
  binary : String
  listing : Bool
  keepGoing : Bool
  noHeader : Bool
  verbose : UInt8
deriving DecidableEq, Repr

namespace Tally

def empty : Tally := ⟨none, 0, 0, 0, 0⟩

/-- Reads one more token, which may decide the command line. -/
def read (tally : Tally) : Token → Except Refusal Tally
  | .flag .help => .error .helpWanted
  | .flag .version => .error .versionWanted
  | .flag .listing => .ok { tally with listing := tally.listing + 1 }
  | .flag .keepGoing => .ok { tally with keepGoing := tally.keepGoing + 1 }
  | .flag .noHeader => .ok { tally with noHeader := tally.noHeader + 1 }
  | .flag .verbose => .ok { tally with verbose := tally.verbose + 1 }
  | .unknown shown => .error (.usage (.unknownArgument shown))
  | .operand text =>
    match tally.binary with
    | none => .ok { tally with binary := some text }
    | some _ => .error (.usage (.unknownArgument text))

/-- The options that a whole command line asks for. Only the verbose flag may be repeated, and it is
counted in a byte. -/
def settle (tally : Tally) : Except Refusal Options :=
  match tally.binary with
  | none => .error (.usage .missingBinary)
  | some binary =>
    if 1 < tally.listing then .error (.usage (.repeatedFlag .listing))
    else if 1 < tally.keepGoing then .error (.usage (.repeatedFlag .keepGoing))
    else if 1 < tally.noHeader then .error (.usage (.repeatedFlag .noHeader))
    else .ok
      { binary
        listing := tally.listing = 1
        keepGoing := tally.keepGoing = 1
        noHeader := tally.noHeader = 1
        verbose := UInt8.ofNat tally.verbose }

end Tally

namespace Options

def ofArguments (arguments : List String) : Except Refusal Options :=
  ((Token.ofArguments arguments).foldlM Tally.read Tally.empty).bind Tally.settle

def level (options : Options) : Level :=
  Level.ofVerbosity options.verbose

end Options

end Mov8086.Command
