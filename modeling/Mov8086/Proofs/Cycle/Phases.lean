import Mov8086.Proofs.Reading
import Mov8086.Proofs.Record

/-!
The phases of a cycle over a stream. Each phase takes a fixed count of bytes and passes on what
they say, or ends the cycle where they are missing.
-/

set_option autoImplicit false

namespace Mov8086

open ByteStream

/-- A reading does to a logged source what it does to the source, and reports nothing. -/
theorem Logged.on_eq {σ α : Type} [ByteSource σ] {first : Reading (Logged σ) α}
    {second : Reading σ α} (source : σ) (events : List Event)
    (agree : Reading.Agree (fun logged source => logged = ⟨source, events⟩) first second) :
    first.on ⟨source, events⟩ = ((second.on source).1, ⟨(second.on source).2, events⟩) := by
  obtain ⟨answer, behind⟩ := agree ⟨source, events⟩ source rfl
  exact Prod.ext answer behind

namespace Phase

/-- The phase that awaits the data of a record with the given leading bytes. -/
def ofLead (r : Record) : Phase :=
  match r.form with
  | .immediate _ => immediate r.width r.reg
  | .registerOrMemory toRegister m _ => displacement toRegister r.width r.reg m

/-- From the phase on, a cycle takes `size` bytes and completes the record built from them; where
one is missing it ends truncated behind the gap. -/
structure Completes (phase : Phase) (size : Nat) (build : List UInt8 → Record) : Prop where
  found {data : List UInt8} (rest : ByteStream) (events : List Event) : data.length = size →
    run phase ⟨ofBytes data ++ rest, events⟩ = (.ok (build data), ⟨rest, events⟩)
  missing {data : List UInt8} {tail rest : ByteStream} (events : List Event) : data.length < size →
    tail.pull = (none, rest) →
      run phase ⟨ofBytes data ++ tail, events⟩ = (.error .truncated, ⟨rest, events⟩)

private theorem completes_of_needs {α : Type} {phase : Phase} {size : Nat} (finish : α → Record)
    {value : List UInt8 → α} {reading : Reading (Logged ByteStream) α}
    {plain : Reading ByteStream α} (pending : phase.record? = none)
    (steps : step phase = reading >>= fun result => pure (complete (finish result)))
    (agree : ∀ events, Reading.Agree (fun logged source => logged = ⟨source, events⟩) reading plain)
    (needs : plain.Needs size value) : Completes phase size fun data => finish (value data) where
  found {data} rest events length := by
    have read := Logged.on_eq (ofBytes data ++ rest) events (agree events)
    rw [needs.found rest length] at read
    rw [run_pending pending, steps, Reading.on_bind, read]
    exact run_complete _ _
  missing {data tail rest} events short none := by
    have read := Logged.on_eq (ofBytes data ++ tail) events (agree events)
    rw [needs.missing short none] at read
    rw [run_pending pending, steps, Reading.on_bind, read]

private theorem completes_immediate (width : Width) (reg : UInt8) :
    Completes (immediate width reg) width.bytes fun data =>
      ⟨width, reg, .immediate (UInt16.ofNat (LittleEndian.toNat data))⟩ :=
  completes_of_needs (fun value => ⟨width, reg, .immediate value⟩) rfl rfl
    (fun events => Reading.agree_immediate (Logged.simulation_source events) width)
    (Reading.needs_immediate width)

private theorem completes_displacement (toRegister : Bool) (width : Width) (reg : UInt8)
    (m : ModRm) : Completes (displacement toRegister width reg m) m.displacementSize fun data =>
      ⟨width, reg, .registerOrMemory toRegister m (Record.displacementOf data)⟩ := by
  by_cases nothing : m.displacementSize = 0
  · refine ⟨?_, fun _ short => absurd short (by omega)⟩
    intro data rest events length
    obtain rfl := List.length_eq_zero_iff.mp (length.trans nothing)
    rw [run_pending rfl, step, if_pos nothing]
    exact run_complete _ _
  · have needs := Reading.needs_displacement nothing
    rw [Nat.min_eq_left (Record.displacementSize_le m)] at needs
    have completes : Completes (displacement toRegister width reg m) m.displacementSize fun data =>
        ⟨width, reg, .registerOrMemory toRegister m
          (some (Int16.ofInt (LittleEndian.toInt data)))⟩ :=
      completes_of_needs (fun value => ⟨width, reg, .registerOrMemory toRegister m (some value)⟩)
        rfl (by rw [step, if_neg nothing])
        (fun events => Reading.agree_displacement (Logged.simulation_source events) _) needs
    refine ⟨?_, completes.missing⟩
    intro data rest events length
    rw [completes.found rest events length]
    cases data with
    | nil => exact absurd length.symm nothing
    | cons low high => rfl

/-- Behind the leading bytes of a record a cycle takes its data and nothing more. -/
theorem completes_ofLead (r : Record) : Completes (ofLead r) r.dataSize r.withData := by
  obtain ⟨width, reg, ⟨toRegister, m, d⟩ | value⟩ := r
  · exact completes_displacement toRegister width reg m
  · exact completes_immediate width reg

/-! ### The leading bytes -/

theorem run_opCode_none {tail rest : ByteStream} (none : tail.pull = (none, rest))
    (events : List Event) :
    run opCode ⟨tail, events⟩ = (.error .endOfInput, ⟨rest, events⟩) := by
  have read := Logged.on_eq tail events
    (Reading.agree_byteOr (Logged.simulation_source events) .endOfInput)
  rw [Reading.on_byteOr_none _ none] at read
  rw [run_pending rfl, step, Reading.on_bind, read]

theorem run_opCode_byte (value : UInt8) (rest : ByteStream) (events : List Event) :
    run opCode ⟨.byte value :: rest, events⟩ =
      match OpCode.ofByte value with
      | .error error => (.error error, ⟨rest, events⟩)
      | .ok code => run (ofOpCode code) ⟨rest, events ++ [.classified value code]⟩ := by
  have read := Logged.on_eq (Slot.byte value :: rest) events
    (Reading.agree_byteOr (Logged.simulation_source events) .endOfInput)
  rw [Reading.on_byteOr_byte] at read
  rw [run_pending rfl, step, Reading.on_bind, read]
  simp only [Reading.on_bind, Reading.on_ofExcept]
  rcases OpCode.ofByte value with error | code <;> rfl

theorem run_modRm_none (toRegister : Bool) (width : Width) {tail rest : ByteStream}
    (none : tail.pull = (none, rest)) (events : List Event) :
    run (modRm toRegister width) ⟨tail, events⟩ = (.error .truncated, ⟨rest, events⟩) := by
  have read := Logged.on_eq tail events
    (Reading.agree_byteOr (Logged.simulation_source events) .truncated)
  rw [Reading.on_byteOr_none _ none] at read
  rw [run_pending rfl, step, Reading.on_bind, Reading.byte, read]

theorem run_modRm_byte (toRegister : Bool) (width : Width) {reg : UInt8} {m : ModRm}
    (regSmall : reg ≤ 7) (rmSmall : m.rm ≤ 7) (rest : ByteStream) (events : List Event) :
    run (modRm toRegister width) ⟨.byte (m.byte reg) :: rest, events⟩ =
      run (displacement toRegister width reg m) ⟨rest, events⟩ := by
  have read := Logged.on_eq (Slot.byte (m.byte reg) :: rest) events
    (Reading.agree_byteOr (Logged.simulation_source events) .truncated)
  rw [Reading.on_byteOr_byte] at read
  rw [run_pending rfl, step, Reading.on_bind, Reading.byte, read]
  simp only [Reading.on_bind, Reading.on_ofExcept, ModRm.ofByte_byte regSmall rmSmall,
    ModRm.register_byte regSmall rmSmall]
  rfl

/-- The leading bytes of a record bring a cycle to the phase that awaits its data. -/
theorem run_lead {r : Record} (fit : r.CodesFit) (rest : ByteStream) (events : List Event) :
    run opCode ⟨ofBytes r.lead ++ rest, events⟩ =
      run (ofLead r) ⟨rest, events ++ [.classified r.opCode.byte r.opCode]⟩ := by
  have known := OpCode.ofByte_byte (Record.opCode_fits fit)
  obtain ⟨width, reg, ⟨toRegister, m, d⟩ | value⟩ := r
  · have first := run_opCode_byte (OpCode.registerOrMemory toRegister width).byte
      (.byte (m.byte reg) :: rest) events
    simp only [Record.opCode] at known
    rw [known] at first
    exact first.trans (run_modRm_byte toRegister width fit.1 fit.2 rest _)
  · have first := run_opCode_byte (OpCode.immediate width reg).byte rest events
    simp only [Record.opCode] at known
    rw [known] at first
    exact first

end Phase

end Mov8086
