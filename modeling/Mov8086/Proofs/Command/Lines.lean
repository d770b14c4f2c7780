import Mov8086.Proofs.Command.Status
import Mov8086.Proofs.Instruction

/-!
Records of a log as lines of text. A record is one line unless it shows a path, or a reason, that holds
a line break; without such a path and such a reason the lines on the error stream are the records.
-/

set_option autoImplicit false

namespace Mov8086

/-- The text holds no line break. -/
def Unbroken (text : String) : Prop :=
  '\n' ∉ text.toList

instance : DecidablePred Unbroken := fun text => inferInstanceAs (Decidable ('\n' ∉ text.toList))

@[simp]
theorem unbroken_append {text behind : String} :
    Unbroken (text ++ behind) ↔ Unbroken text ∧ Unbroken behind := by
  rw [Unbroken, String.toList_append, List.mem_append, not_or]
  rfl

/-! ### Fields -/

@[simp]
theorem unbroken_decimal (n : Nat) : Unbroken (Numeral.decimal n) :=
  LogLine.not_mem_decimal rfl n

@[simp]
theorem unbroken_signedDecimal (z : Int) : Unbroken (Numeral.signedDecimal z) :=
  LogLine.not_mem_signedDecimal rfl (by decide) z

@[simp]
theorem unbroken_hex {width : Nat} (pos : 0 < width) (n : Nat) : Unbroken (Numeral.hex width n) :=
  LogLine.not_mem_hex rfl pos n

@[simp]
theorem unbroken_width (width : Width) : Unbroken width.label := by
  cases width <;> decide

@[simp]
theorem unbroken_flag (flag : Bool) : Unbroken (toString flag) := by
  cases flag <;> decide

@[simp]
theorem unbroken_family (family : Family) : Unbroken family.label := by
  cases family <;> decide

@[simp]
theorem unbroken_mode (mode : Mode) : Unbroken mode.label := by
  cases mode <;> decide

@[simp]
theorem unbroken_instruction (i : Instruction) : Unbroken i.text :=
  i.newline_not_mem_text

/-! ### Messages -/

@[simp]
theorem unbroken_opCodeText (code : OpCode) : Unbroken (Event.opCodeText code) := by
  unfold Event.opCodeText
  cases code <;> simp +decide

@[simp]
theorem unbroken_displacementText (d : Option Int16) : Unbroken (Event.displacementText d) := by
  unfold Event.displacementText
  cases d <;> simp +decide

@[simp]
theorem unbroken_modRmText (m : ModRm) : Unbroken (Event.modRmText m) := by
  unfold Event.modRmText
  simp +decide

@[simp]
theorem unbroken_formText (f : Form) : Unbroken (Event.formText f) := by
  unfold Event.formText
  cases f <;> simp +decide

@[simp]
theorem unbroken_recordText (r : Record) : Unbroken (Event.recordText r) := by
  unfold Event.recordText
  simp +decide

@[simp]
theorem unbroken_fault (cause : Fault) : Unbroken cause.message := by
  cases cause <;> simp +decide [Fault.message]

@[simp]
theorem unbroken_error (e : DecodeError) : Unbroken e.message := by
  unfold DecodeError.message
  cases e <;> simp +decide

@[simp]
theorem unbroken_event (event : Event) : Unbroken event.message := by
  unfold Event.message
  cases event <;> simp +decide

/-- A notice is one line, unless it shows a path that is not. -/
theorem Notice.unbroken_line {notice : Notice}
    (path : ∀ size path, notice = .loaded size path → Unbroken path) : Unbroken notice.line := by
  unfold Notice.line Notice.message
  cases notice with
  | loaded size shown => simp +decide [Notice.level, Notice.target, path size shown rfl]
  | _ => simp +decide [Notice.level, Notice.target]

/-! ### Lines -/

/-- The lines of a text in which each of them ends with a line break. -/
def textLines (text : String) : List String :=
  (text.toList.splitOn '\n').dropLast.map String.ofList

namespace Command

theorem linesText_cons (line : String) (lines : List String) :
    linesText (line :: lines) = line ++ "\n" ++ linesText lines := by
  rw [linesText, List.map_cons, String.join_cons]
  rfl

/-- Records without line breaks are the lines of the text that they make. -/
theorem textLines_linesText {records : List String} (unbroken : ∀ record ∈ records, Unbroken record) :
    textLines (linesText records) = records := by
  induction records with
  | nil => rfl
  | cons record records ih =>
    obtain ⟨first, later⟩ := List.forall_mem_cons.mp unbroken
    have split : (linesText (record :: records)).toList =
        record.toList ++ '\n' :: (linesText records).toList := by
      rw [linesText_cons, String.toList_append, String.toList_append, List.append_assoc]
      rfl
    have rest := ih later
    rw [textLines] at rest ⊢
    rw [split, List.splitOn_append_cons_self, List.splitOn_eq_singleton first,
      List.singleton_append, List.dropLast_cons_of_ne_nil (List.splitOn_ne_nil _ _), List.map_cons,
      rest, String.ofList_toList]

/-- What a failure says is one line, unless it shows a path or a reason that is not. -/
theorem Failure.unbroken_message {failure : Failure}
    (read : ∀ path cause, failure = .read path cause → Unbroken path ∧ Unbroken cause.reason) :
    Unbroken failure.message := by
  unfold Failure.message
  cases failure with
  | read path cause => simp +decide [read path cause rfl]
  | decode stop => simp +decide

namespace Report

variable {options : Options} {loaded : Except ReadError (List UInt8)} {path : String}

/-- The one path that a report shows among its notices is that of its file. -/
theorem binary_of_mem {notice : Notice} (member : notice ∈ (ofLoaded options loaded).notices)
    {size : Nat} (shown : notice = .loaded size path) : path = options.binary := by
  subst shown
  cases loaded with
  | error cause => cases member
  | ok data =>
    rcases List.mem_cons.mp member with first | later
    · cases first
      rfl
    · obtain ⟨attempt, -, held⟩ := List.mem_flatMap.mp later
      rcases List.mem_append.mp held with cycle | skipped
      · obtain ⟨event, -, same⟩ := List.mem_map.mp cycle
        cases same
      · split at skipped
        · split at skipped
          · cases List.mem_singleton.mp skipped
          · cases skipped
        · cases skipped

/-- A report that says that a file was not read says so of its own file. -/
theorem read_of_failure {cause : ReadError}
    (failed : (ofLoaded options loaded).failure = some (.read path cause)) :
    path = options.binary ∧ loaded = .error cause := by
  cases loaded with
  | error cause' =>
    cases failed
    exact ⟨rfl, rfl⟩
  | ok data =>
    obtain ⟨stop, -, same⟩ := Option.map_eq_some_iff.mp failed
    cases same

end Report

end Command

end Mov8086
