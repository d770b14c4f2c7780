import Mov8086.Event
import Mov8086.Reading

/-!
Decode cycles. A cycle passes through phases, each of which names what is awaited next; every
step lowers the number of phases to come, so a cycle ends after at most four of them. A cycle that
fails gives nothing back of what it has read.
-/

set_option autoImplicit false

namespace Mov8086

/-- A source with the events that were reported over it. -/
structure Logged (σ : Type) where
  source : σ
  events : List Event

namespace Logged

variable {σ : Type} [ByteSource σ]

instance : ByteSource (Logged σ) where
  pull logged := ((ByteSource.pull logged.source).1,
    ⟨(ByteSource.pull logged.source).2, logged.events⟩)
  size logged := ByteSource.size logged.source
  size_pull_le logged := ByteSource.size_pull_le logged.source
  size_pull_lt logged := ByteSource.size_pull_lt logged.source

omit [ByteSource σ] in
def report (event : Event) : Reading (Logged σ) Unit :=
  ExceptT.mk fun logged => (.ok (), ⟨logged.source, logged.events ++ [event]⟩)

end Logged

/-- What a decode cycle awaits. -/
inductive Phase where
  | opCode
  | immediate (width : Width) (reg : UInt8)
  | modRm (toRegister : Bool) (width : Width)
  | displacement (toRegister : Bool) (width : Width) (reg : UInt8) (modRm : ModRm)
  | complete (record : Record)
deriving DecidableEq, Repr

namespace Phase

variable {σ : Type} [ByteSource σ]

def ofOpCode : OpCode → Phase
  | .immediate width reg => immediate width reg
  | .registerOrMemory toRegister width => modRm toRegister width

def step : Phase → Reading (Logged σ) Phase
  | opCode => do
    let byte ← Reading.byteOr .endOfInput
    let code ← Reading.ofExcept (OpCode.ofByte byte)
    Logged.report (.classified byte code)
    return ofOpCode code
  | immediate width reg => do
    let value ← Reading.immediate width
    return complete ⟨width, reg, .immediate value⟩
  | modRm toRegister width => do
    let byte ← Reading.byte
    let code ← Reading.ofExcept ((ModRm.ofByte byte).mapError .fault)
    return displacement toRegister width (BitField.register.extract byte) code
  | displacement toRegister width reg code =>
    if code.displacementSize = 0 then
      return complete ⟨width, reg, .registerOrMemory toRegister code none⟩
    else do
      let value ← Reading.displacement code.displacementSize
      return complete ⟨width, reg, .registerOrMemory toRegister code (some value)⟩
  | complete record => return complete record

/-- The greatest number of steps from the phase to a complete record. -/
def remaining : Phase → Nat
  | opCode => 3
  | immediate .. => 1
  | modRm .. => 2
  | displacement .. => 1
  | complete _ => 0

theorem remaining_step_lt {phase next : Phase} {before after : Logged σ}
    (h : (step phase).on before = (.ok next, after)) (pending : phase.remaining ≠ 0) :
    next.remaining < phase.remaining := by
  cases phase with
  | opCode =>
    obtain ⟨_, _, _, h⟩ := Reading.on_bind_eq_ok_iff.mp h
    obtain ⟨code, _, _, h⟩ := Reading.on_bind_eq_ok_iff.mp h
    obtain ⟨_, _, _, h⟩ := Reading.on_bind_eq_ok_iff.mp h
    cases h
    cases code <;> simp [ofOpCode, remaining]
  | immediate =>
    obtain ⟨_, _, _, h⟩ := Reading.on_bind_eq_ok_iff.mp h
    cases h
    simp [remaining]
  | modRm =>
    obtain ⟨_, _, _, h⟩ := Reading.on_bind_eq_ok_iff.mp h
    obtain ⟨_, _, _, h⟩ := Reading.on_bind_eq_ok_iff.mp h
    cases h
    simp [remaining]
  | displacement =>
    simp only [step] at h
    split at h
    · cases h
      simp [remaining]
    · obtain ⟨_, _, _, h⟩ := Reading.on_bind_eq_ok_iff.mp h
      cases h
      simp [remaining]
  | complete => exact absurd rfl pending

def record? : Phase → Option Record
  | complete record => some record
  | _ => none

theorem remaining_ne_zero {phase : Phase} (h : phase.record? = none) : phase.remaining ≠ 0 := by
  cases phase <;> simp_all [record?, remaining]

/-- Steps from the phase to a complete record. -/
def run (phase : Phase) (logged : Logged σ) : Except DecodeError Record × Logged σ :=
  match _ : phase.record? with
  | some record => (.ok record, logged)
  | none =>
    match _ : (step phase).on logged with
    | (.error error, after) => (.error error, after)
    | (.ok next, after) => run next after
termination_by phase.remaining
decreasing_by exact remaining_step_lt ‹_› (remaining_ne_zero ‹_›)

theorem run_complete (record : Record) (logged : Logged σ) :
    run (complete record) logged = (.ok record, logged) := by
  rw [run]
  rfl

theorem run_pending {phase : Phase} (pending : phase.record? = none) (logged : Logged σ) :
    run phase logged =
      match (step phase).on logged with
      | (.error error, after) => (.error error, after)
      | (.ok next, after) => run next after := by
  rw [run]
  split
  · simp_all
  · split <;> simp_all

theorem shrinks_step (phase : Phase) : Reading.Shrinks (step phase : Reading (Logged σ) Phase) := by
  cases phase with
  | opCode =>
    exact (Reading.shrinks_byteOr _).bind fun _ => (Reading.shrinks_ofExcept _).bind fun _ =>
      Reading.Shrinks.bind (fun _ => Nat.le_refl _) fun _ => Reading.shrinks_pure _
  | immediate => exact (Reading.shrinks_immediate _).bind fun _ => Reading.shrinks_pure _
  | modRm =>
    exact (Reading.shrinks_byteOr _).bind fun _ => (Reading.shrinks_ofExcept _).bind fun _ =>
      Reading.shrinks_pure _
  | displacement =>
    simp only [step]
    split
    · exact Reading.shrinks_pure _
    · exact (Reading.shrinks_displacement _).bind fun _ => Reading.shrinks_pure _
  | complete => exact Reading.shrinks_pure _

theorem size_run_le (phase : Phase) (logged : Logged σ) :
    ByteSource.size (run phase logged).2 ≤ ByteSource.size logged := by
  fun_induction run phase logged with
  | case1 => exact Nat.le_refl _
  | case2 phase logged _ error after h =>
    have bound := shrinks_step phase logged
    rwa [h] at bound
  | case3 phase logged _ next after h ih =>
    have bound := shrinks_step phase logged
    rw [h] at bound
    exact Nat.le_trans ih bound

/-- A cycle that finds a first byte leaves less than it was given. -/
theorem size_run_opCode_lt {logged : Logged σ}
    (found : (run opCode logged).1 ≠ .error .endOfInput) :
    ByteSource.size (run opCode logged).2 < ByteSource.size logged := by
  have bound : ((step opCode).on logged).1 ≠ .error .endOfInput →
      ByteSource.size ((step opCode).on logged).2 < ByteSource.size logged :=
    Reading.size_byteOr_bind_lt fun _ => (Reading.shrinks_ofExcept _).bind fun _ =>
      Reading.Shrinks.bind (fun _ => Nat.le_refl _) fun _ => Reading.shrinks_pure _
  rw [run_pending rfl] at found ⊢
  rcases stepped : (step opCode).on logged with ⟨error | next, after⟩
  · simp only [stepped] at found bound ⊢
    exact bound (by simpa using found)
  · simp only [stepped] at found bound ⊢
    exact Nat.lt_of_le_of_lt (size_run_le next after) (bound (by simp))

end Phase

structure Cycle (σ α : Type) where
  outcome : Except DecodeError α
  events : List Event
  rest : σ

namespace Cycle

variable {σ : Type} [ByteSource σ]

/-- Runs one cycle up to the record. -/
def record (source : σ) : Cycle σ Record :=
  let (outcome, after) := Phase.opCode.run ⟨source, []⟩
  ⟨outcome, after.events, after.source⟩

/-- What a cycle that ends in an error reports of it. -/
def failureEvents : DecodeError → List Event
  | .endOfInput => []
  | .fault _ => []
  | error => [.failed error]

/-- Runs one cycle up to the instruction. -/
def instruction (source : σ) : Cycle σ Instruction :=
  let ⟨outcome, events, rest⟩ := record source
  match outcome with
  | .error error => ⟨.error error, events ++ failureEvents error, rest⟩
  | .ok record =>
    match record.instruction with
    | .error cause => ⟨.error (.fault cause), events, rest⟩
    | .ok instruction => ⟨.ok instruction, events ++ [.decoded record instruction], rest⟩

theorem instruction_of_error {source : σ} {error : DecodeError}
    (failed : (record source).outcome = .error error) :
    instruction source =
      ⟨.error error, (record source).events ++ failureEvents error, (record source).rest⟩ := by
  rcases ran : record source with ⟨outcome, events, rest⟩
  rw [ran] at failed
  subst failed
  rw [instruction, ran]

theorem instruction_of_ok {source : σ} {r : Record} (complete : (record source).outcome = .ok r) :
    instruction source =
      match r.instruction with
      | .error cause => ⟨.error (.fault cause), (record source).events, (record source).rest⟩
      | .ok i => ⟨.ok i, (record source).events ++ [.decoded r i], (record source).rest⟩ := by
  rcases ran : record source with ⟨outcome, events, rest⟩
  rw [ran] at complete
  subst complete
  rw [instruction, ran]

theorem rest_instruction (source : σ) : (instruction source).rest = (record source).rest := by
  rcases outcome : (record source).outcome with error | r
  · rw [instruction_of_error outcome]
  · rw [instruction_of_ok outcome]
    split <;> rfl

theorem size_rest_lt {source : σ} (h : (instruction source).outcome ≠ .error .endOfInput) :
    ByteSource.size (instruction source).rest < ByteSource.size source := by
  have bound := @Phase.size_run_opCode_lt σ _ ⟨source, []⟩
  unfold instruction record at h ⊢
  rcases ran : Phase.opCode.run ⟨source, []⟩ with ⟨error | record, after⟩
  · simp_all
    exact bound
  · simp only [ran] at bound ⊢
    split <;> exact bound (by simp)

end Cycle

end Mov8086
