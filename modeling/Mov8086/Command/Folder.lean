/-!
Files, as a run finds them: what reading each path yields. Nothing is assumed of them. A folder is the
special case in which what reading yields can be computed: some files are given, and every directory
but theirs is empty.
-/

set_option autoImplicit false

namespace Mov8086.Command

inductive ReadError where
  | notFound
  | isDirectory
  | notDirectory
  | nameTooLong
  | nulByte
  | other (reason : String)
deriving DecidableEq, Repr

namespace ReadError

def reason : ReadError → String
  | notFound => "No such file or directory (os error 2)"
  | isDirectory => "Is a directory (os error 21)"
  | notDirectory => "Not a directory (os error 20)"
  | nameTooLong => "File name too long (os error 36)"
  | nulByte => "file name contained an unexpected NUL byte"
  | other reason => reason

end ReadError

/-- What reading a path yields, for every path: the content of a file, or the reason why there is
none. -/
structure Files where
  read : String → Except ReadError (List UInt8)

/-- The files of the folder that a command runs in, by name, where there are no others. -/
abbrev Folder := List (String × List UInt8)

namespace Folder

/-- The greatest number of bytes in the name of a file. -/
def maxNameSize : Nat := 255

/-- The least number of bytes that is too much for a path. -/
def maxPathSize : Nat := 4096

/-- Walks down a path from a directory, which is the folder itself or, if `here` is false, any
other. Empty parts and `.` stay in the directory. -/
def walk (folder : Folder) (here : Bool) : List String → Except ReadError (List UInt8)
  | [] => .error .isDirectory
  | part :: rest =>
    if part = "" ∨ part = "." then walk folder here rest
    else if part = ".." then walk folder false rest
    else if maxNameSize < part.utf8ByteSize then .error .nameTooLong
    else
      match if here then folder.lookup part else none with
      | none => .error .notFound
      | some content => if rest = [] then .ok content else .error .notDirectory

/-- The content of the file at a path. -/
def read (folder : Folder) (path : String) : Except ReadError (List UInt8) :=
  if path.toList.contains '\x00' then .error .nulByte
  else if path = "" then .error .notFound
  else if maxPathSize ≤ path.utf8ByteSize then .error .nameTooLong
  else
    walk folder (path.toList.head? ≠ some '/') ((path.toList.splitOn '/').map String.ofList)

end Folder

instance : Coe Folder Files where
  coe folder := ⟨folder.read⟩

end Mov8086.Command
