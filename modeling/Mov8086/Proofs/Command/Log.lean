import Mov8086.Proofs.Command.Lines
import Mov8086.Proofs.Transcript

/-!
The log of a run, record by record. A record begins with the mark of its level, so the records of a
level, and those that a verbosity hides, are told from the text alone. They are the lines on the error
stream, unless a path or a reason holds a line break.
-/

set_option autoImplicit false

namespace Mov8086

/-- What the lines of a level begin with. -/
def Level.mark : Level → String
  | warn => "WARN "
  | info => "INFO "
  | debug => "DEBUG "
  | trace => "TRACE "

def Level.marks (level : Level) (line : String) : Bool :=
  level.mark.toList.isPrefixOf line.toList

/-- Whether a line is above the level that a verbosity shows. -/
def hides (verbosity : UInt8) (line : String) : Bool :=
  decide (verbosity.toNat < 1) && Level.info.marks line ||
    decide (verbosity.toNat < 2) && Level.debug.marks line

namespace Level

private theorem isPrefixOf_mark (level level' : Level) (text : List Char) :
    level.mark.toList.isPrefixOf (level'.mark.toList ++ text) = decide (level' = level) := by
  cases level <;> cases level' <;> rfl

/-- The line of a notice begins with the mark of its level and with no other. -/
theorem marks_line (level : Level) (notice : Notice) :
    level.marks notice.line = decide (notice.level = level) := by
  have mark : notice.level.label ++ " " = notice.level.mark := by
    cases notice.level <;> rfl
  have split : notice.line.toList =
      notice.level.mark.toList ++ (notice.target ++ (": " ++ notice.message)).toList := by
    rw [← mark, ← String.toList_append, ← String.append_assoc, ← String.append_assoc]
    rfl
  rw [marks, split, isPrefixOf_mark]

/-- The line that says why a run fails has no level. -/
theorem marks_error (level : Level) (text : String) : level.marks ("error: " ++ text) = false := by
  have split : ("error: " ++ text).toList = "error: ".toList ++ text.toList := String.toList_append
  rw [marks, split]
  cases level <;> rfl

theorem rank_ofVerbosity (verbosity : UInt8) :
    (ofVerbosity verbosity).rank = min verbosity.toNat 3 := by
  rw [ofVerbosity]
  rcases verbosity.toNat with _ | _ | _ | more
  · rfl
  · rfl
  · rfl
  · exact (Nat.min_eq_right (Nat.le_add_left 3 more)).symm

theorem shows_ofVerbosity_iff {verbosity : UInt8} {level : Level} :
    (ofVerbosity verbosity).shows level = true ↔ level.rank ≤ min verbosity.toNat 3 := by
  rw [shows, decide_eq_true_eq, rank_ofVerbosity]

/-- A verbosity shows the notices whose lines it does not hide. -/
theorem shows_eq (verbosity : UInt8) (notice : Notice) :
    (ofVerbosity verbosity).shows notice.level = !hides verbosity notice.line := by
  rw [hides, marks_line, marks_line, Bool.eq_iff_iff, shows_ofVerbosity_iff]
  cases notice <;> grind [Notice.level, rank]

example : hides 1 "DEBUG sim86_decoder::decode: decoded" ∧ ¬hides 1 "WARN sim86_dis: skipped" := by
  decide

end Level

/-- A line that is hidden at a verbosity is hidden at every lower one. -/
theorem hides_of_le {low high : UInt8} (below : low ≤ high) {line : String}
    (hidden : hides high line = true) : hides low line = true := by
  have order : low.toNat ≤ high.toNat := below
  simp only [hides, Bool.or_eq_true, Bool.and_eq_true, decide_eq_true_eq] at hidden ⊢
  rcases hidden with ⟨bound, marked⟩ | ⟨bound, marked⟩
  · exact .inl ⟨by omega, marked⟩
  · exact .inr ⟨by omega, marked⟩

namespace Notice

/-- The lines of the notices of one level. -/
def linesAt (level : Level) (notices : List Notice) : List String :=
  (notices.filter fun notice => decide (notice.level = level)).map line

theorem linesAt_append (level : Level) (notices later : List Notice) :
    linesAt level (notices ++ later) = linesAt level notices ++ linesAt level later := by
  rw [linesAt, List.filter_append, List.map_append]
  rfl

theorem linesAt_cycles_warn (events : List Event) :
    linesAt .warn (events.map .cycle) = [] := by
  rw [linesAt, List.map_eq_nil_iff, List.filter_eq_nil_iff]
  intro notice member
  obtain ⟨event, -, rfl⟩ := List.mem_map.mp member
  exact Bool.false_ne_true

theorem linesAt_cycles_debug (events : List Event) :
    linesAt .debug (events.map .cycle) = events.map Event.line := by
  have all : (events.map cycle).filter (fun notice => decide (notice.level = .debug)) =
      events.map cycle := by
    rw [List.filter_eq_self]
    intro notice member
    obtain ⟨event, -, rfl⟩ := List.mem_map.mp member
    rfl
  rw [linesAt, all, List.map_map]
  rfl

end Notice

namespace Command

namespace Run

theorem stderr_ofReport (threshold : Level) (report : Report) :
    (ofReport threshold report).stderr =
      logLines threshold report.notices ++
        report.failure.toList.map fun failure => "error: " ++ failure.message := by
  rcases failed : report.failure with _ | failure
  · rw [ofReport, failed]
    exact (List.append_nil _).symm
  · rw [ofReport, failed]
    rfl

theorem status_ofReport (threshold threshold' : Level) (report : Report) :
    (ofReport threshold report).status = (ofReport threshold' report).status := by
  unfold ofReport
  split <;> rfl

theorem logLines_ofVerbosity (verbosity : UInt8) (notices : List Notice) :
    logLines (.ofVerbosity verbosity) notices =
      (notices.map Notice.line).filter fun line => !hides verbosity line := by
  rw [logLines, List.filter_map]
  congr 2
  funext notice
  exact Level.shows_eq verbosity notice

theorem logLines_filter {low high : UInt8} (below : low ≤ high) (notices : List Notice) :
    logLines (.ofVerbosity low) notices =
      (logLines (.ofVerbosity high) notices).filter fun line => !hides low line := by
  rw [logLines_ofVerbosity, logLines_ofVerbosity, List.filter_filter]
  congr 1
  funext line
  rcases hidden : hides high line with _ | _
  · rw [Bool.not_false, Bool.and_true]
  · rw [hides_of_le below hidden]
    rfl

/-- The lines of a level that is shown, whatever else is. -/
theorem filter_logLines {threshold level : Level} (shown : threshold.shows level = true)
    (notices : List Notice) :
    (logLines threshold notices).filter level.marks = Notice.linesAt level notices := by
  rw [logLines, List.filter_map, List.filter_filter, Notice.linesAt]
  congr 2
  funext notice
  rw [Function.comp_apply, Level.marks_line]
  by_cases same : notice.level = level <;> simp_all

theorem stderr_filter {low high : UInt8} (below : low ≤ high) (report : Report) :
    (ofReport (.ofVerbosity low) report).stderr =
      (ofReport (.ofVerbosity high) report).stderr.filter fun line => !hides low line := by
  have kept : ∀ failure : Failure, hides low ("error: " ++ failure.message) = false := by
    intro failure
    rw [hides, Level.marks_error, Level.marks_error, Bool.and_false, Bool.and_false, Bool.or_false]
  rw [stderr_ofReport, stderr_ofReport, List.filter_append, ← logLines_filter below]
  cases report.failure <;> simp [kept]

theorem stderr_marks {threshold level : Level} (shown : threshold.shows level = true)
    (report : Report) :
    (ofReport threshold report).stderr.filter level.marks =
      Notice.linesAt level report.notices := by
  rw [stderr_ofReport, List.filter_append, filter_logLines shown]
  cases report.failure <;> simp [Level.marks_error]

end Run

/-- Neither the path nor the reason of a failure to read it holds a line break. -/
def Files.Unbroken (files : Files) (path : String) : Prop :=
  Mov8086.Unbroken path ∧
    ∀ cause, files.read path = .error cause → Mov8086.Unbroken cause.reason

namespace Run

/-- The lines of text on the error stream. -/
def errorLines (run : Run) : List String :=
  textLines (linesText run.stderr)

/-- Without a line break in the path or the reason, the records of a run are lines of text. -/
theorem errorLines_ofReport {files : Files} {options : Options}
    (unbroken : files.Unbroken options.binary) (threshold : Level) :
    (ofReport threshold (.ofLoaded options (files.read options.binary))).errorLines =
      (ofReport threshold (.ofLoaded options (files.read options.binary))).stderr := by
  obtain ⟨path, reason⟩ := unbroken
  apply textLines_linesText
  rw [stderr_ofReport]
  intro record member
  rcases List.mem_append.mp member with logged | said
  · obtain ⟨notice, shown, rfl⟩ := List.mem_map.mp logged
    apply Notice.unbroken_line
    intro size other same
    rwa [Report.binary_of_mem (List.mem_filter.mp shown).1 same]
  · obtain ⟨failure, failed, rfl⟩ := List.mem_map.mp said
    have message : Unbroken failure.message := by
      apply Failure.unbroken_message
      rintro other cause rfl
      obtain ⟨rfl, unread⟩ := Report.read_of_failure (Option.mem_toList.mp failed)
      exact ⟨path, reason cause unread⟩
    exact unbroken_append.mpr ⟨by decide, message⟩

end Run

end Command

end Mov8086
