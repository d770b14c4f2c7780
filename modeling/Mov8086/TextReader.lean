/-!
Readers of text. A reader takes characters from the front of a text and says what they stand for,
and fails where they are not of its form.
-/

set_option autoImplicit false

namespace Mov8086

abbrev TextReader (α : Type) := StateT (List Char) Option α

namespace TextReader

variable {α : Type}

/-- Takes exactly the given text. -/
def exactly (text : String) : TextReader Unit := fun input =>
  (text.toList.isPrefixOf? input).map ((), ·)

/-- Takes a field that ends at the first character of `stop`, and takes `stop`, which must follow. -/
def upTo (stop : String) (field? : List Char → Option α) : TextReader α := fun input =>
  let (field, behind) := input.span fun c => stop.toList.head? ≠ some c
  (field? field).bind fun value => (stop.toList.isPrefixOf? behind).map (value, ·)

/-- Takes all that is left as one field. -/
def toEnd (field? : List Char → Option α) : TextReader α := fun input =>
  (field? input).map (·, [])

/-- Takes a heading and what is read behind it. -/
def choose (readers : List (String × TextReader α)) : TextReader α := fun input =>
  readers.findSome? fun (heading, reader) => (heading.toList.isPrefixOf? input).bind reader

/-- What the whole of a text stands for. -/
def whole? (reader : TextReader α) (text : String) : Option α :=
  match reader text.toList with
  | some (value, []) => some value
  | _ => none

end TextReader

end Mov8086
