import Mov8086.Cycle

/-!
Simulations between sources. When two sources answer every pull alike, every reading, and with it
every decode cycle, ends in the same outcome on both of them, reports the same events and leaves
sources that are related again.
-/

set_option autoImplicit false

namespace Mov8086

variable {σ τ α β : Type} [ByteSource σ] [ByteSource τ]

/-- A relation under which two sources answer a pull alike and stay related behind it. -/
structure ByteSource.Simulation (related : σ → τ → Prop) : Prop where
  answer {left : σ} {right : τ} : related left right →
    (ByteSource.pull left).1 = (ByteSource.pull right).1
  behind {left : σ} {right : τ} : related left right →
    related (ByteSource.pull left).2 (ByteSource.pull right).2

namespace Reading

omit [ByteSource σ] [ByteSource τ]

/-- Two readings agree when on related sources they answer alike and leave related sources. -/
def Agree (related : σ → τ → Prop) (first : Reading σ α) (second : Reading τ α) : Prop :=
  ∀ left right, related left right →
    (first.on left).1 = (second.on right).1 ∧ related (first.on left).2 (second.on right).2

variable {related : σ → τ → Prop}

theorem agree_pure (value : α) : Agree related (pure value) (pure value) :=
  fun _ _ start => ⟨rfl, start⟩

theorem agree_ofExcept (outcome : Except DecodeError α) :
    Agree related (ofExcept outcome) (ofExcept outcome) := by
  intro left right start
  simp only [on_ofExcept]
  exact ⟨trivial, start⟩

theorem Agree.bind {first : Reading σ α} {second : Reading τ α} {next : α → Reading σ β}
    {next' : α → Reading τ β} (here : Agree related first second)
    (later : ∀ value, Agree related (next value) (next' value)) :
    Agree related (first >>= next) (second >>= next') := by
  intro left right start
  obtain ⟨answer, behind⟩ := here left right start
  rw [on_bind, on_bind]
  rcases ran : first.on left with ⟨outcome, rest⟩
  rcases ran' : second.on right with ⟨outcome', rest'⟩
  simp only [ran, ran'] at answer behind
  subst answer
  cases outcome with
  | error error => exact ⟨rfl, behind⟩
  | ok value => exact later value rest rest' behind

variable [ByteSource σ] [ByteSource τ]

theorem agree_byteOr (simulation : ByteSource.Simulation related) (missing : DecodeError) :
    Agree related (byteOr missing) (byteOr missing) := by
  intro left right start
  have answer := simulation.answer start
  have behind := simulation.behind start
  rw [on_byteOr, on_byteOr]
  rcases pulled : ByteSource.pull left with ⟨found, rest⟩
  rcases pulled' : ByteSource.pull right with ⟨found', rest'⟩
  simp only [pulled, pulled'] at answer behind
  subst answer
  cases found <;> exact ⟨rfl, behind⟩

theorem agree_word (simulation : ByteSource.Simulation related) :
    Agree related word word :=
  (agree_byteOr simulation _).bind fun _ => (agree_byteOr simulation _).bind fun _ => agree_pure _

theorem agree_displacement (simulation : ByteSource.Simulation related) (size : Nat) :
    Agree related (displacement size) (displacement size) := by
  match size with
  | 0 => exact agree_pure _
  | 1 => exact (agree_byteOr simulation _).bind fun _ => agree_pure _
  | _ + 2 => exact (agree_word simulation).bind fun _ => agree_pure _

theorem agree_immediate (simulation : ByteSource.Simulation related) (width : Width) :
    Agree related (immediate width) (immediate width) := by
  cases width
  · exact (agree_byteOr simulation _).bind fun _ => agree_pure _
  · exact agree_word simulation

end Reading

namespace Logged

/-- Logged sources are related when their sources are and the same events were reported. -/
def Related (related : σ → τ → Prop) (left : Logged σ) (right : Logged τ) : Prop :=
  related left.source right.source ∧ left.events = right.events

variable {related : σ → τ → Prop}

theorem simulation (simulation : ByteSource.Simulation related) :
    ByteSource.Simulation (Related related) where
  answer start := simulation.answer start.1
  behind start := ⟨simulation.behind start.1, start.2⟩

omit [ByteSource σ] [ByteSource τ] in
theorem agree_report (event : Event) :
    Reading.Agree (Related related) (report event) (report event) :=
  fun _ _ start => ⟨rfl, start.1, congrArg (· ++ [event]) start.2⟩

/-- The log does not show in what a source answers. -/
theorem simulation_source (events : List Event) :
    ByteSource.Simulation fun (logged : Logged σ) (source : σ) => logged = ⟨source, events⟩ where
  answer := by rintro _ source rfl; rfl
  behind := by rintro _ source rfl; rfl

end Logged

namespace Phase

variable {related : σ → τ → Prop}

theorem agree_step (simulation : ByteSource.Simulation related) (phase : Phase) :
    Reading.Agree (Logged.Related related) (step phase) (step phase) := by
  have logged := Logged.simulation simulation
  cases phase with
  | opCode =>
    exact (Reading.agree_byteOr logged _).bind fun _ => (Reading.agree_ofExcept _).bind fun _ =>
      (Logged.agree_report _).bind fun _ => Reading.agree_pure _
  | immediate width =>
    exact (Reading.agree_immediate logged width).bind fun _ => Reading.agree_pure _
  | modRm =>
    exact (Reading.agree_byteOr logged _).bind fun _ => (Reading.agree_ofExcept _).bind fun _ =>
      Reading.agree_pure _
  | displacement =>
    simp only [step]
    split
    · exact Reading.agree_pure _
    · exact (Reading.agree_displacement logged _).bind fun _ => Reading.agree_pure _
  | complete => exact Reading.agree_pure _

/-- Related sources carry a cycle through the same phases to the same end. -/
theorem agree_run (simulation : ByteSource.Simulation related) (phase : Phase)
    (left : Logged σ) (right : Logged τ) (start : Logged.Related related left right) :
    (run phase left).1 = (run phase right).1 ∧
      Logged.Related related (run phase left).2 (run phase right).2 := by
  -- The induction follows the phases of the left run; each step keeps the relation.
  fun_induction run phase left generalizing right with
  | case1 phase left record finished =>
    obtain rfl : phase = complete record := by cases phase <;> simp_all [record?]
    rw [run_complete]
    exact ⟨rfl, start⟩
  | case2 phase left pending error after stepped =>
    obtain ⟨answer, behind⟩ := agree_step simulation phase left right start
    rw [run_pending pending right]
    rcases stepped' : (step phase).on right with ⟨outcome, after'⟩
    simp only [stepped, stepped'] at answer behind
    subst answer
    exact ⟨rfl, behind⟩
  | case3 phase left pending next after stepped ih =>
    obtain ⟨answer, behind⟩ := agree_step simulation phase left right start
    rw [run_pending pending right]
    rcases stepped' : (step phase).on right with ⟨outcome, after'⟩
    simp only [stepped, stepped'] at answer behind
    subst answer
    exact ih after' behind

end Phase

namespace Cycle

variable {related : σ → τ → Prop}

/-- Related sources give a cycle the same outcome and the same events. -/
theorem agree_record (simulation : ByteSource.Simulation related) {left : σ} {right : τ}
    (start : related left right) :
    (record left).outcome = (record right).outcome ∧ (record left).events = (record right).events ∧
      related (record left).rest (record right).rest := by
  obtain ⟨outcome, behind, events⟩ :=
    Phase.agree_run simulation .opCode ⟨left, []⟩ ⟨right, []⟩ ⟨start, rfl⟩
  exact ⟨outcome, events, behind⟩

theorem agree_instruction (simulation : ByteSource.Simulation related) {left : σ} {right : τ}
    (start : related left right) :
    (instruction left).outcome = (instruction right).outcome ∧
      (instruction left).events = (instruction right).events ∧
      related (instruction left).rest (instruction right).rest := by
  obtain ⟨outcome, events, behind⟩ := agree_record simulation start
  rcases ended : (record right).outcome with error | r
  · rw [instruction_of_error ended, instruction_of_error (outcome.trans ended), events]
    exact ⟨rfl, rfl, behind⟩
  · rw [instruction_of_ok ended, instruction_of_ok (outcome.trans ended), events]
    cases r.instruction <;> exact ⟨rfl, rfl, behind⟩

end Cycle

end Mov8086
