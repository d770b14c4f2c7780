import Mov8086.Proofs.Numeral
import Mov8086.TextReader

/-!
What readers of text take. A reader is followed along a text one part at a time, whatever stands
behind it.
-/

set_option autoImplicit false

namespace Mov8086.TextReader

variable {α β : Type}

/-- The reader takes the text in front of the rest, and it stands for the value. -/
def Takes (reader : TextReader α) (text : String) (rest : List Char) (value : α) : Prop :=
  reader (text.toList ++ rest) = some (value, rest)

theorem Takes.of_append_empty {reader : TextReader α} {text : String} {rest : List Char} {value : α}
    (takes : reader.Takes (text ++ "") rest value) : reader.Takes text rest value := by
  rwa [String.append_empty] at takes

theorem Takes.bind {reader : TextReader α} {next : α → TextReader β} {text behind : String}
    {rest : List Char} {a : α} {b : β} (first : reader.Takes text (behind.toList ++ rest) a)
    (later : (next a).Takes behind rest b) :
    Takes (reader >>= next) (text ++ behind) rest b := by
  have joined : (reader >>= next) ((text ++ behind).toList ++ rest) =
      (reader (text.toList ++ (behind.toList ++ rest))).bind fun (a, left) => next a left := by
    rw [String.toList_append, List.append_assoc]
    rfl
  rw [Takes, joined, first]
  exact later

/-- What is read is made into another value. -/
theorem Takes.pure {reader : TextReader α} {next : α → TextReader β} {text : String}
    {rest : List Char} {a : α} {b : β} (first : reader.Takes text rest a)
    (value : next a = Pure.pure b) : Takes (reader >>= next) text rest b := by
  have last : (next a).Takes "" rest b := by rw [value]; rfl
  exact Takes.of_append_empty (Takes.bind first last)

theorem takes_exactly (text : String) (rest : List Char) : (exactly text).Takes text rest () := by
  have front : text.toList.isPrefixOf? (text.toList ++ rest) = some rest :=
    List.isPrefixOf?_eq_some_iff_append_eq.mpr rfl
  rw [Takes, exactly, front]
  rfl

/-- A field is taken up to a character that it does not hold. -/
theorem takes_upTo {stop field : String} {field? : List Char → Option α} {rest : List Char}
    {value : α} {c : Char} {later : List Char} (begins : stop.toList = c :: later)
    (read : field? field.toList = some value) (free : c ∉ field.toList) :
    (upTo stop field?).Takes (field ++ stop) rest value := by
  have span : (field.toList ++ c :: (later ++ rest)).span
      (fun c' => decide (stop.toList.head? ≠ some c')) = (field.toList, c :: (later ++ rest)) := by
    rw [begins, List.head?_cons, ← span_separator free]
    congr 1
    funext c'
    simp [eq_comm]
  have front : stop.toList.isPrefixOf? (c :: (later ++ rest)) = some rest :=
    List.isPrefixOf?_eq_some_iff_append_eq.mpr (by rw [begins]; rfl)
  rw [Takes, String.toList_append, List.append_assoc, upTo, begins, List.cons_append, ← begins,
    span]
  simp only [read, Option.bind_some, front, Option.map_some]

theorem Takes.upTo {stop field behind : String} {field? : List Char → Option α}
    {next : α → TextReader β} {rest : List Char} {a : α} {b : β} {c : Char} {later : List Char}
    (begins : stop.toList = c :: later) (read : field? field.toList = some a)
    (free : c ∉ field.toList) (onward : (next a).Takes behind rest b) :
    Takes (TextReader.upTo stop field? >>= next) (field ++ (stop ++ behind)) rest b := by
  rw [← String.append_assoc]
  exact (takes_upTo begins read free).bind onward

theorem takes_toEnd {field? : List Char → Option α} {text : String} {value : α}
    (read : field? text.toList = some value) : (toEnd field?).Takes text [] value := by
  rw [Takes, List.append_nil, toEnd, read]
  rfl

section Choose

variable {heading text : String} {rest : List Char} {reader : TextReader α} {value : α}
  {readers : List (String × TextReader α)}

theorem Takes.choose (takes : reader.Takes text rest value) :
    (TextReader.choose ((heading, reader) :: readers)).Takes (heading ++ text) rest value := by
  have front : heading.toList.isPrefixOf? ((heading ++ text).toList ++ rest) =
      some (text.toList ++ rest) := by
    rw [String.toList_append, List.append_assoc]
    exact List.isPrefixOf?_eq_some_iff_append_eq.mpr rfl
  rw [Takes, TextReader.choose, List.findSome?_cons]
  simp only [front, Option.bind_some]
  rw [takes]

/-- A heading that does not stand in front of the text is passed over. -/
theorem Takes.choose_tail {heading' : String}
    (other : ∀ behind, heading'.toList.isPrefixOf? (heading.toList ++ behind) = none)
    (takes : (TextReader.choose readers).Takes (heading ++ text) rest value) :
    (TextReader.choose ((heading', reader) :: readers)).Takes (heading ++ text) rest value := by
  have front : heading'.toList.isPrefixOf? ((heading ++ text).toList ++ rest) = none := by
    rw [String.toList_append, List.append_assoc]
    exact other _
  rw [Takes, TextReader.choose, List.findSome?_cons]
  simp only [front, Option.bind_none]
  exact takes

end Choose

theorem Takes.whole?_eq {reader : TextReader α} {text : String} {value : α}
    (takes : reader.Takes text [] value) : reader.whole? text = some value := by
  rw [Takes, List.append_nil] at takes
  rw [whole?, takes]

end Mov8086.TextReader
