import Mov8086.Proofs.Cycle.Instruction
import Mov8086.Proofs.Log
import Mov8086.Trace

/-!
The log of calls as a transcript. A call reports what its first byte says and, behind that, the
record or the error that it came to, each from its own end of the cycle; that the two agree is read
off the bytes that the call took. The log of many calls is what each of them logs, in order. What a
line says is what the reader of logs takes from it.
-/

set_option autoImplicit false

namespace Mov8086

open ByteStream

/-- What an op code says holds of the record: its width, and its register code or its direction. -/
inductive OpCode.Agrees : OpCode → Record → Prop where
  | immediate (width : Width) (reg : UInt8) (value : UInt16) :
      Agrees (.immediate width reg) ⟨width, reg, .immediate value⟩
  | registerOrMemory (toRegister : Bool) (width : Width) (reg : UInt8) (m : ModRm)
      (displacement : Option Int16) :
      Agrees (.registerOrMemory toRegister width)
        ⟨width, reg, .registerOrMemory toRegister m displacement⟩

namespace Record

theorem agrees_opCode (r : Record) : r.opCode.Agrees r := by
  obtain ⟨width, reg, ⟨toRegister, m, displacement⟩ | value⟩ := r
  · exact .registerOrMemory toRegister width reg m displacement
  · exact .immediate width reg value

theorem family_opCode (r : Record) : r.opCode.family = r.family := by
  obtain ⟨width, reg, _ | _⟩ := r <;> rfl

/-- The bytes of a record begin with its op code. -/
theorem exists_encode_cons (r : Record) : ∃ later, r.encode = r.opCode.byte :: later := by
  obtain ⟨width, reg, _ | _⟩ := r <;> exact ⟨_, rfl⟩

theorem encode_ne_nil (r : Record) : r.encode ≠ [] := by
  obtain ⟨later, encoded⟩ := r.exists_encode_cons
  exact encoded ▸ List.cons_ne_nil _ _

end Record

/-- The line of a log that shows the event. -/
def Event.line (event : Event) : String :=
  (Notice.cycle event).line

/-! ### One call -/

/-- The value is the first byte that a call over the stream takes, and the op code is what it says. -/
structure Opens (stream : ByteStream) (value : UInt8) (code : OpCode) : Prop where
  taken : ∃ later, stream = (.byte value :: later) ++ (Cycle.instruction stream).rest
  classified : OpCode.ofByte value = .ok code

/-- What a call over the stream logs, by what it answers. A record is shown with the family that its
first byte was found to belong to. -/
inductive Logs (stream : ByteStream) : Except DecodeError Instruction → List String → Prop where
  | decoded {value : UInt8} {code : OpCode} {r : Record} {i : Instruction} {first second : String}
      (opens : Opens stream value code) (complete : (Cycle.record stream).outcome = .ok r)
      (agrees : code.Agrees r) (known : r.instruction = .ok i)
      (classified : LogLine.ofLine? first = some (.classified value code))
      (decoded : LogLine.ofLine? second = some (.decoded r code.family i.text)) :
      Logs stream (.ok i) [first, second]
  | truncated {value : UInt8} {code : OpCode} {first second : String}
      (opens : Opens stream value code)
      (classified : LogLine.ofLine? first = some (.classified value code))
      (failed : LogLine.ofLine? second = some (.failed .truncated)) :
      Logs stream (.error .truncated) [first, second]
  | unrecognized {value : UInt8} {line : String}
      (taken : stream = .byte value :: (Cycle.instruction stream).rest)
      (unknown : OpCode.ofByte value = .error (.unrecognized value))
      (failed : LogLine.ofLine? line = some (.failed (.unrecognized value))) :
      Logs stream (.error (.unrecognized value)) [line]
  | ended : Logs stream (.error .endOfInput) []

namespace Cycle

/-- A record whose bytes the stream begins with, wholly or in part, opens it with its op code. -/
theorem opens_of_record {r : Record} (wf : r.WellFormed) {front : List UInt8}
    (held : front <+: r.encode) (begun : front ≠ []) {stream : ByteStream} (later : ByteStream)
    (split : stream = (ofBytes front ++ later) ++ (instruction stream).rest) :
    Opens stream r.opCode.byte r.opCode := by
  obtain ⟨value, front, rfl⟩ := List.exists_cons_of_ne_nil begun
  obtain ⟨behind, encoded⟩ := r.exists_encode_cons
  rw [encoded] at held
  obtain ⟨rfl, -⟩ := List.cons_prefix_cons.mp held
  exact ⟨⟨ofBytes front ++ later, split⟩, OpCode.ofByte_byte (Record.opCode_fits wf.codesFit)⟩

theorem logs_of_complete {r : Record} (wf : r.WellFormed) (rest : ByteStream) :
    Logs (ofBytes r.encode ++ rest) (instruction (ofBytes r.encode ++ rest)).outcome
      ((instruction (ofBytes r.encode ++ rest)).events.map Event.line) := by
  obtain ⟨i, known⟩ := Record.exists_instruction wf.codesFit
  have ran := instruction_of_encode wf known rest
  have opens : Opens (ofBytes r.encode ++ rest) r.opCode.byte r.opCode := by
    apply opens_of_record wf (List.prefix_refl _) r.encode_ne_nil []
    rw [ran, List.append_nil]
  have complete : (record (ofBytes r.encode ++ rest)).outcome = .ok r := by rw [record_encode wf]
  have decoded : LogLine.ofLine? (Event.line (.decoded r i)) =
      some (.decoded r r.opCode.family i.text) := by
    rw [Record.family_opCode]
    exact LogLine.ofLine?_line nofun
  rw [ran, List.map_cons, List.map_singleton]
  exact .decoded opens complete r.agrees_opCode known (LogLine.ofLine?_line nofun) decoded

theorem logs_of_truncated {r : Record} (wf : r.WellFormed) {front behind : List UInt8}
    (split : r.encode = front ++ behind) (begun : front ≠ []) (unfinished : behind ≠ [])
    {tail rest : ByteStream} (missing : tail.pull = (none, rest)) :
    Logs (ofBytes front ++ tail) (instruction (ofBytes front ++ tail)).outcome
      ((instruction (ofBytes front ++ tail)).events.map Event.line) := by
  have broken := record_truncated wf split begun unfinished missing
  have failed : (record (ofBytes front ++ tail)).outcome = .error .truncated := by rw [broken]
  have ran : instruction (ofBytes front ++ tail) =
      ⟨.error .truncated, [.classified r.opCode.byte r.opCode, .failed .truncated], rest⟩ := by
    rw [instruction_of_error failed, broken]
    rfl
  have opens : Opens (ofBytes front ++ tail) r.opCode.byte r.opCode := by
    -- The call takes the bytes and, if there is one, the gap behind them.
    obtain ⟨gap, rfl⟩ : ∃ gap, tail = gap ++ rest := by
      rcases pull_eq_none_iff.mp missing with rfl | ⟨rfl, rfl⟩
      · exact ⟨[.gap], rfl⟩
      · exact ⟨[], rfl⟩
    apply opens_of_record wf ⟨behind, split.symm⟩ begun gap
    rw [ran, List.append_assoc]
  rw [ran, List.map_cons, List.map_singleton]
  exact .truncated opens (LogLine.ofLine?_line nofun) (LogLine.ofLine?_line nofun)

/-- Every call logs what it answers, and nothing else. -/
theorem logs_instruction (stream : ByteStream) :
    Logs stream (instruction stream).outcome ((instruction stream).events.map Event.line) := by
  have turn := turn_record stream
  revert turn
  generalize record stream = cycle
  intro turn
  cases turn with
  | complete wf rest => exact logs_of_complete wf rest
  | truncated wf split begun unfinished missing =>
    exact logs_of_truncated wf split begun unfinished missing
  | @unrecognized value unknown rest =>
    have ran := instruction_of_unknown unknown rest
    rw [ran, List.map_singleton]
    exact .unrecognized (by rw [ran]) (OpCode.ofByte_eq_error_iff.mpr ⟨unknown, rfl⟩)
      (LogLine.ofLine?_line nofun)
  | ended missing =>
    rw [instruction_of_missing missing]
    exact .ended

end Cycle

/-! ### Calls up to the first error -/

namespace Trace

theorem ofStream_of_error {stream : ByteStream} {error : DecodeError}
    (failed : (Cycle.instruction stream).outcome = .error error) :
    ofStream stream = ⟨[.error error], (Cycle.instruction stream).events⟩ := by
  rcases ran : Cycle.instruction stream with ⟨outcome, events, rest⟩
  rw [ran] at failed
  subst failed
  rw [ofStream]
  split <;> simp_all

theorem ofStream_of_ok {stream : ByteStream} {i : Instruction}
    (found : (Cycle.instruction stream).outcome = .ok i) :
    ofStream stream =
      let later := ofStream (Cycle.instruction stream).rest
      ⟨.ok i :: later.results, (Cycle.instruction stream).events ++ later.events⟩ := by
  rcases ran : Cycle.instruction stream with ⟨outcome, events, rest⟩
  rw [ran] at found
  subst found
  rw [ofStream]
  split <;> simp_all

/-- The log of the calls. -/
def lines (trace : Trace) : List String :=
  trace.events.map Event.line

end Trace

/-- Calls on what each of them leaves of the stream, up to the first error, and what they log. -/
inductive Transcript :
    ByteStream → List (Except DecodeError Instruction) → List String → Prop where
  | failed {stream : ByteStream} {error : DecodeError} {lines : List String}
      (answered : (Cycle.instruction stream).outcome = .error error)
      (logs : Logs stream (.error error) lines) : Transcript stream [.error error] lines
  | found {stream : ByteStream} {i : Instruction} {lines later : List String}
      {answers : List (Except DecodeError Instruction)}
      (answered : (Cycle.instruction stream).outcome = .ok i) (logs : Logs stream (.ok i) lines)
      (onward : Transcript (Cycle.instruction stream).rest answers later) :
      Transcript stream (.ok i :: answers) (lines ++ later)

/-- The log of the calls over a stream up to the first error says what each of them was given and
came to, in order, and nothing else. -/
theorem log_is_transcript (stream : ByteStream) :
    Transcript stream (Trace.ofStream stream).results (Trace.ofStream stream).lines := by
  -- One case for each way a call can end: the recursion of the trace itself.
  induction stream using Trace.ofStream.induct with
  | case1 stream error events rest ran =>
    have logs := Cycle.logs_instruction stream
    have answered : (Cycle.instruction stream).outcome = .error error := by rw [ran]
    rw [answered] at logs
    rw [Trace.ofStream_of_error answered]
    exact .failed answered logs
  | case2 stream i events rest ran ih =>
    have logs := Cycle.logs_instruction stream
    have answered : (Cycle.instruction stream).outcome = .ok i := by rw [ran]
    have left : (Cycle.instruction stream).rest = rest := by rw [ran]
    rw [answered] at logs
    rw [Trace.ofStream_of_ok answered, Trace.lines, List.map_append, left]
    exact .found answered logs (left ▸ ih)

end Mov8086
