import Mov8086.Command.Folder

/-!
Reading in a folder. A path that names a file and goes through no directory is looked up.
-/

set_option autoImplicit false

namespace Mov8086.Command.Folder

/-- The text can be the name of a file. -/
def IsName (name : String) : Prop :=
  name ∉ ["", ".", ".."] ∧ '/' ∉ name.toList ∧ '\x00' ∉ name.toList ∧
    name.utf8ByteSize ≤ maxNameSize

instance : DecidablePred IsName := fun _ => inferInstanceAs (Decidable (_ ∧ _))

variable {name : String}

/-- A walk to a name ends in the folder itself. -/
theorem walk_of_isName (isName : IsName name) (folder : Folder) :
    folder.walk true [name] = (folder.lookup name).elim (.error .notFound) .ok := by
  obtain ⟨special, -, -, short⟩ := isName
  simp only [List.mem_cons, List.not_mem_nil, or_false, not_or] at special
  obtain ⟨nonempty, here, parent⟩ := special
  rw [walk, if_neg (not_or.mpr ⟨nonempty, here⟩), if_neg parent, if_neg (Nat.not_lt.mpr short),
    if_pos rfl]
  cases folder.lookup name with
  | none => rfl
  | some content => rfl

/-- A name is read by looking it up. -/
theorem read_of_isName (isName : IsName name) (folder : Folder) :
    folder.read name = (folder.lookup name).elim (.error .notFound) .ok := by
  have walked := walk_of_isName isName folder
  obtain ⟨special, slashless, whole, short⟩ := isName
  have parts : (name.toList.splitOn '/').map String.ofList = [name] := by
    rw [List.splitOn_eq_singleton slashless, List.map_singleton, String.ofList_toList]
  have relative : name.toList.head? ≠ some '/' := fun rooted =>
    slashless (List.mem_of_mem_head? rooted)
  have nonempty : name ≠ "" := fun empty => special (empty ▸ List.mem_cons_self)
  have fits : ¬maxPathSize ≤ name.utf8ByteSize := by
    unfold maxNameSize at short
    unfold maxPathSize
    omega
  rw [read, if_neg (by simpa using whole), if_neg nonempty, if_neg fits, parts,
    decide_eq_true relative]
  exact walked

end Mov8086.Command.Folder
