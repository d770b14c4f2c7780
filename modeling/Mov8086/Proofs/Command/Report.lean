import Mov8086.Command.Run
import Mov8086.Proofs.Disassembly

/-!
Reports on data. A report has one line for each word that the disassembly passes. So a report that
fails has the lines of the data in front of the offset that it fails at, on which it succeeds, and it
fails with the error of one decode of the data behind.
-/

set_option autoImplicit false

namespace Mov8086

open ByteStream

/-- The error ends a disassembly and makes it fail. -/
def DecodeError.Fatal (keepGoing : Bool) : DecodeError → Prop
  | .endOfInput => False
  | .truncated => True
  | .unrecognized _ => keepGoing = false
  | .fault _ => True

/-- A disassembly is stuck where the next decode fails with a fatal error. -/
theorem stuck_iff {keepGoing : Bool} {rest : List UInt8} {error : DecodeError} :
    Stuck keepGoing rest error ↔
      (Decoder.ofStream (ofBytes rest)).attempt.1.outcome = .error error ∧
        error.Fatal keepGoing := by
  rw [Decoder.failed_iff]
  change _ ↔ (Cycle.record (ofBytes rest)).outcome = _ ∧ _
  constructor
  · intro stuck
    cases stuck with
    | broken broken =>
      refine ⟨Cycle.truncated_iff.mpr ?_, trivial⟩
      rwa [pullRun_ofBytes]
    | unknown later stopping unknown =>
      refine ⟨Cycle.unrecognized_iff.mpr ⟨?_, unknown⟩, stopping⟩
      rw [pullRun_ofBytes, List.head?_cons]
  · rintro ⟨failed, fatal⟩
    cases error with
    | endOfInput => exact fatal.elim
    | truncated =>
      have broken := Cycle.truncated_iff.mp failed
      rw [pullRun_ofBytes] at broken
      exact .broken broken
    | unrecognized value =>
      obtain ⟨first, unknown⟩ := Cycle.unrecognized_iff.mp failed
      rw [pullRun_ofBytes] at first
      obtain ⟨later, rfl⟩ := List.head?_eq_some_iff.mp first
      exact .unknown later fatal unknown
    | fault cause => exact absurd failed (Cycle.outcome_ne_fault _ cause)

theorem Stuck.ne_nil {keepGoing : Bool} {rest : List UInt8} {error : DecodeError}
    (stuck : Stuck keepGoing rest error) : rest ≠ [] := by
  cases stuck with
  | broken broken => exact broken.1
  | unknown => exact List.cons_ne_nil _ _

theorem Stuck.ne_fault {keepGoing : Bool} {rest : List UInt8} {error : DecodeError}
    (stuck : Stuck keepGoing rest error) (cause : Fault) : error ≠ .fault cause := by
  cases stuck <;> exact nofun

namespace Course

variable {keepGoing : Bool} {data rest : List UInt8} {words : List (List UInt8)}
  (course : Course keepGoing data words rest)
include course

/-- The words that are passed are passed whatever stands behind them, up to where it is stuck. -/
theorem replace_rest {rest' : List UInt8}
    (ends : rest' = [] ∨ ∃ error, Stuck keepGoing rest' error) :
    Course keepGoing (words.flatten ++ rest') words rest' :=
  ⟨rfl, course.word, ends⟩

/-- The disassembly fails exactly where the course is stuck. -/
theorem stop_eq_some_iff {stop : Stop} :
    (Disassembly.ofData keepGoing data).stop = some stop ↔
      stop.offset = words.flatten.length ∧ Stuck keepGoing rest stop.cause := by
  constructor
  · intro stopped
    rcases course.rest with nothing | ⟨error, stuck⟩
    · rw [course.stop_of_nil nothing] at stopped
      cases stopped
    · rw [course.stop_of_stuck stuck] at stopped
      cases stopped
      exact ⟨rfl, stuck⟩
  · rintro ⟨offset, stuck⟩
    rw [course.stop_of_stuck stuck, ← offset]

end Course

namespace Command

open Disassembly

namespace Report

variable {options : Options} {data rest : List UInt8} {words : List (List UInt8)}
  (course : Course options.keepGoing data words rest)
include course

/-- The lines of a report: the header, unless it is left out, and one for each word. -/
theorem lines_of_course :
    (ofLoaded options (.ok data)).lines =
      (if options.noHeader then [] else [header]) ++
        (wordEntries 0 words).map (·.line options.listing) := by
  rw [← course.entries_eq]
  rfl

/-- What is left behind the words does not change the lines. -/
theorem lines_replace_rest {rest' : List UInt8}
    (ends : rest' = [] ∨ ∃ error, Stuck options.keepGoing rest' error) :
    (ofLoaded options (.ok (words.flatten ++ rest'))).lines =
      (ofLoaded options (.ok data)).lines := by
  rw [lines_of_course (course.replace_rest ends), lines_of_course course]

theorem failure_eq_none_iff : (ofLoaded options (.ok data)).failure = none ↔ rest = [] := by
  change (ofData options.keepGoing data).stop.map Failure.decode = none ↔ _
  rw [Option.map_eq_none_iff]
  exact ⟨course.rest_eq_nil_of_stop, course.stop_of_nil⟩

theorem failure_eq_decode_iff {stop : Stop} :
    (ofLoaded options (.ok data)).failure = some (.decode stop) ↔
      stop.offset = words.flatten.length ∧ Stuck options.keepGoing rest stop.cause := by
  rw [← course.stop_eq_some_iff]
  change (ofData options.keepGoing data).stop.map Failure.decode = some (.decode stop) ↔ _
  rw [Option.map_eq_some_iff]
  constructor
  · rintro ⟨_, stopped, ⟨⟩⟩
    exact stopped
  · exact fun stopped => ⟨stop, stopped, rfl⟩

end Report

/-- A report that fails has the lines of the report on the data in front of the offset that it fails
at, which does not fail, and its error is that of one decode of the data behind. The other way
round, data that a report does not fail on may be followed by any that a decode fails on with a
fatal error: the report on both has the same lines and fails with that error, where the first data
end. -/
theorem failure_keeps_front (options : Options) (data : List UInt8) :
    let report := Report.ofLoaded options (.ok data)
    (∀ stop, report.failure = some (.decode stop) →
      let front := Report.ofLoaded options (.ok (data.take stop.offset))
      let behind := Decoder.ofStream (ofBytes (data.drop stop.offset))
      stop.offset < data.length ∧ front.failure = none ∧ front.lines = report.lines ∧
        behind.attempt.1.outcome = .error stop.cause) ∧
    (report.failure = none → ∀ (tail : List UInt8) (error : DecodeError),
      (Decoder.ofStream (ofBytes tail)).attempt.1.outcome = .error error →
        error.Fatal options.keepGoing →
          let longer := Report.ofLoaded options (.ok (data ++ tail))
          longer.failure = some (.decode ⟨data.length, error⟩) ∧ longer.lines = report.lines) := by
  intro report
  obtain ⟨words, rest, course⟩ := Course.exists_course options.keepGoing data
  constructor
  · intro stop failed front behind
    obtain ⟨offset, stuck⟩ := (Report.failure_eq_decode_iff course).mp failed
    have taken : data.take stop.offset = words.flatten ++ [] := by
      rw [course.eq, offset, List.take_left, List.append_nil]
    have left : data.drop stop.offset = rest := by rw [course.eq, offset, List.drop_left]
    have some := List.length_pos_iff.mpr stuck.ne_nil
    simp only [front, behind, taken, left]
    refine ⟨?_, ?_, Report.lines_replace_rest course (.inl rfl), (stuck_iff.mp stuck).1⟩
    · rw [course.eq, offset, List.length_append]
      omega
    · exact (Report.failure_eq_none_iff (course.replace_rest (.inl rfl))).mpr rfl
  · intro succeeded tail error failed fatal longer
    have stuck := stuck_iff.mpr ⟨failed, fatal⟩
    -- Nothing is left behind the words, so the tail stands right behind them.
    obtain rfl : data = words.flatten := by
      rw [course.eq, (Report.failure_eq_none_iff course).mp succeeded, List.append_nil]
    have further := course.replace_rest (.inr ⟨error, stuck⟩)
    exact ⟨(Report.failure_eq_decode_iff further).mpr ⟨rfl, stuck⟩,
      Report.lines_replace_rest course (.inr ⟨error, stuck⟩)⟩

/-- A move with a byte behind it that begins none, in a listing that does not keep going. -/
theorem failure_keeps_front_unknown :
    let options : Options :=
      { binary := "mov.bin", listing := true, keepGoing := false, noHeader := false, verbose := 0 }
    let report := Report.ofLoaded options (.ok [0xB1, 7])
    let longer := Report.ofLoaded options (.ok [0xB1, 7, 0x90, 0x88])
    report.failure = none ∧ longer.failure = some (.decode ⟨2, .unrecognized 0x90⟩) ∧
      longer.lines = report.lines := by
  intro options report longer
  have move : Passable false [0xB1, 7] := .inl ⟨⟨.byte, 1, .immediate 7⟩, by decide, by decide⟩
  have stuck : Stuck false [0x90, 0x88] (.unrecognized 0x90) := .unknown [0x88] rfl (by decide)
  have course : Course options.keepGoing [0xB1, 7, 0x90, 0x88] [[0xB1, 7]] [0x90, 0x88] :=
    .cons move (.nil (.inr ⟨_, stuck⟩))
  have stopped : longer.failure = some (.decode ⟨2, .unrecognized 0x90⟩) :=
    (Report.failure_eq_decode_iff course).mpr ⟨rfl, stuck⟩
  obtain ⟨-, succeeded, -, failed⟩ :=
    (failure_keeps_front options [0xB1, 7, 0x90, 0x88]).1 _ stopped
  obtain ⟨failed', lines⟩ := (failure_keeps_front options [0xB1, 7]).2 succeeded _ _ failed rfl
  exact ⟨succeeded, failed', lines⟩

end Command

end Mov8086
