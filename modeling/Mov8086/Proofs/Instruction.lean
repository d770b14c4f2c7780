import Mov8086.Proofs.Operand

/-!
Lines of assembly. Each move has one line, which stands for no other move, and the lines of moves are
those of the grammar; the reader takes each of them back to its move.
-/

set_option autoImplicit false

namespace Mov8086.Instruction

theorem text_toList (i : Instruction) :
    i.text.toList = (mnemonic ++ " ").toList ++
      (i.destination.text.toList ++ ',' :: ' ' :: i.source.text.toList) := by
  simp only [text, line, AssemblyLine.text, String.toList_append, List.append_assoc]
  rfl

/-- The text of a move is one line. -/
theorem newline_not_mem_text (i : Instruction) : '\n' ∉ i.text.toList := by
  have destination := Operand.separator_not_mem_text (.inr rfl) i.destination
  have source := Operand.separator_not_mem_text (.inr rfl) i.source
  rw [text_toList]
  simp only [List.mem_append, List.mem_cons, not_or]
  exact ⟨by decide, destination, by decide, by decide, source⟩

theorem Written.eq_text {line : String} {i : Instruction} (written : i.Written line) :
    line = i.text := by
  obtain ⟨first, second⟩ := written
  rw [first.eq_text, second.eq_text]
  rfl

theorem written_text (i : Instruction) : i.Written i.text :=
  .mov (Operand.written_text i.destination) (Operand.written_text i.source)

/-! ### Reading -/

theorem readOperands?_eq_some_iff {text : List Char} {i : Instruction} :
    readOperands? text = some i ↔
      text = i.destination.text.toList ++ ',' :: ' ' :: i.source.text.toList := by
  constructor
  · intro read
    unfold readOperands? at read
    split at read
    · next front behind parts =>
      obtain ⟨left, first, rest⟩ := Option.bind_eq_some_iff.mp read
      obtain ⟨right, second, rfl⟩ := Option.map_eq_some_iff.mp rest
      obtain rfl := Operand.read?_eq_some_iff.mp first
      obtain rfl := Operand.read?_eq_some_iff.mp second
      rw [List.span_eq_takeWhile_dropWhile] at parts
      obtain ⟨taken, dropped⟩ := Prod.mk.inj parts
      have whole := List.takeWhile_append_dropWhile (p := (decide <| · ≠ ',')) (l := text)
      rw [taken, dropped] at whole
      exact whole.symm
    · cases read
  · rintro rfl
    rw [readOperands?, span_separator (Operand.comma_not_mem_text _)]
    simp only [Operand.read?_text, Option.bind_some, Option.map_some]

theorem ofText?_eq_some_iff {line : String} {i : Instruction} :
    ofText? line = some i ↔ line = i.text := by
  rw [← String.toList_inj, text_toList, ofText?, Option.bind_eq_some_iff]
  constructor
  · rintro ⟨rest, front, read⟩
    rw [← readOperands?_eq_some_iff.mp read]
    exact (List.isPrefixOf?_eq_some_iff_append_eq.mp front).symm
  · intro same
    exact ⟨_, List.isPrefixOf?_eq_some_iff_append_eq.mpr same.symm,
      readOperands?_eq_some_iff.mpr rfl⟩

/-- No two moves have the same text, since the reader would have to read it back as both. -/
theorem text_inj {i j : Instruction} : i.text = j.text ↔ i = j := by
  rw [← ofText?_eq_some_iff, ofText?_eq_some_iff.mpr rfl, Option.some.injEq]

/-- The text of a move is a line of the grammar that stands for the move, and is read back as it. A
line of the grammar is the text of the move that it stands for; the reader accepts these lines and
no others. Two moves have the same text only if they are the same. -/
theorem text_unambiguous :
    (∀ i : Instruction, i.Written i.text ∧ ofText? i.text = some i) ∧
      (∀ (line : String) (i : Instruction), i.Written line ↔ line = i.text) ∧
      (∀ (line : String) (i : Instruction), ofText? line = some i ↔ i.Written line) ∧
      ∀ i j : Instruction, i.text = j.text ↔ i = j := by
  have written (line : String) (i : Instruction) : i.Written line ↔ line = i.text :=
    ⟨Written.eq_text, fun same => same ▸ written_text i⟩
  refine ⟨?_, written, ?_, ?_⟩
  · exact fun i => ⟨written_text i, ofText?_eq_some_iff.mpr rfl⟩
  · intro line i
    rw [ofText?_eq_some_iff, written]
  · intro i j
    constructor
    · intro same
      have read := ofText?_eq_some_iff.mpr (Eq.refl i.text)
      rw [same, ofText?_eq_some_iff.mpr rfl] at read
      exact (Option.some.inj read).symm
    · exact congrArg text

end Mov8086.Instruction
