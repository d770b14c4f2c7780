import Mov8086.Proofs.Layout

/-!
Data that arrive in two parts. Appending data changes no attempt over the first part but a last one
that found an instruction that breaks off; from where that one began, or from the end, the attempts
are those over what is left with the data behind it.
-/

set_option autoImplicit false

namespace Mov8086

open ByteStream

namespace Decoder

/-- The attempts over data without gaps, up to the end of input. -/
def attemptsOver (data : List UInt8) : List Attempt :=
  (ofStream (ofBytes data)).attempts.1

/-- The last attempt over the data, if it found an instruction that breaks off. -/
def brokenEnd? (data : List UInt8) : Option Attempt :=
  (attemptsOver data).getLast?.filter (·.outcome = .error .truncated)

/-- The attempts over the data, without a last one that found an instruction that breaks off. -/
def settled (data : List UInt8) : List Attempt :=
  match brokenEnd? data with
  | some _ => (attemptsOver data).dropLast
  | none => attemptsOver data

/-- Where the instruction that breaks off begins, if there is one, and else the end of the data. -/
def resumption (data : List UInt8) : Nat :=
  match brokenEnd? data with
  | some attempt => attempt.offset
  | none => data.length

/-- Attempts that begin further on are those from the start, moved. -/
theorem attempts_at (stream : ByteStream) (position : Nat) :
    (attempts ⟨stream, position⟩).1 =
      (ofStream stream).attempts.1.map (Attempt.shift position) := by
  have moved := attempts_shift position (ofStream stream)
  exact congrArg Prod.fst moved

section Laid

variable {data tail : List UInt8} {words : List (List UInt8)} (layout : Layout data words tail)
include layout

theorem attemptsOver_append_eq (later : List UInt8) :
    attemptsOver (data ++ later) =
      wordAttempts 0 words ++
        (attemptsOver (tail ++ later)).map (Attempt.shift words.flatten.length) := by
  have parts : ofBytes (data ++ later) = ofBytes words.flatten ++ ofBytes (tail ++ later) := by
    rw [layout.eq, List.append_assoc, ofBytes_append]
  have ran := attempts_words layout.word (ofBytes (tail ++ later)) 0
  rw [Nat.zero_add, attempts_at] at ran
  rw [attemptsOver, parts]
  exact congrArg Prod.fst ran

theorem attemptsOver_eq :
    attemptsOver data = wordAttempts 0 words ++ (attempts ⟨ofBytes tail, words.flatten.length⟩).1 := by
  have whole := attemptsOver_append_eq layout []
  rw [List.append_nil, List.append_nil] at whole
  rw [whole, attempts_at]
  rfl

private theorem brokenEnd?_of_nil (nothing : tail = []) :
    attemptsOver data = wordAttempts 0 words ∧ brokenEnd? data = none := by
  have all : attemptsOver data = wordAttempts 0 words := by
    rw [attemptsOver_eq layout, nothing, ofBytes_nil, attempts_nil, List.append_nil]
  refine ⟨all, ?_⟩
  rw [brokenEnd?, all, Option.filter_eq_none_iff]
  intro attempt last
  have member := List.mem_of_getLast? last
  have outcome := outcome_ne_of_mem_wordAttempts layout.word member
  rwa [decide_eq_true_eq]

private theorem brokenEnd?_of_broken (broken : Cycle.Broken tail) :
    ∃ attempt, attemptsOver data = wordAttempts 0 words ++ [attempt] ∧
      attempt.offset = words.flatten.length ∧ attempt.outcome = .error .truncated ∧
        brokenEnd? data = some attempt := by
  obtain ⟨events, ran⟩ := attempts_broken broken words.flatten.length
  have all := attemptsOver_eq layout
  rw [ran] at all
  refine ⟨_, all, rfl, rfl, ?_⟩
  rw [brokenEnd?, all, List.getLast?_concat]
  rfl

theorem settled_eq : settled data = wordAttempts 0 words := by
  rcases layout.tail with nothing | broken
  · obtain ⟨all, none⟩ := brokenEnd?_of_nil layout nothing
    rw [settled, none]
    exact all
  · obtain ⟨attempt, all, -, -, found⟩ := brokenEnd?_of_broken layout broken
    rw [settled, found]
    dsimp only
    rw [all, List.dropLast_concat]

theorem resumption_eq : resumption data = words.flatten.length := by
  rcases layout.tail with nothing | broken
  · obtain ⟨-, none⟩ := brokenEnd?_of_nil layout nothing
    rw [resumption, none]
    dsimp only
    rw [layout.eq, nothing, List.append_nil]
  · obtain ⟨attempt, -, offset, -, found⟩ := brokenEnd?_of_broken layout broken
    rw [resumption, found]
    exact offset

theorem drop_resumption : data.drop (resumption data) = tail := by
  rw [resumption_eq layout, layout.eq, List.drop_left]

/-- Data over which no attempt finds an instruction that breaks off are words alone. -/
theorem tail_eq_nil_of_whole
    (whole : ∀ attempt ∈ attemptsOver data, attempt.outcome ≠ .error .truncated) : tail = [] := by
  rcases layout.tail with nothing | broken
  · exact nothing
  · obtain ⟨attempt, all, -, outcome, -⟩ := brokenEnd?_of_broken layout broken
    refine absurd outcome (whole attempt ?_)
    rw [all]
    exact List.mem_append_right _ List.mem_cons_self

end Laid

/-- Data that are appended change no attempt but a last one that found an instruction that breaks
off. The attempts over both parts are the others, which found none, and from where that one began,
or else from the end of the first part, the attempts over what is left of it and the second. Over
a first part without an instruction that breaks off they are the attempts over both, one after the
other. -/
theorem attemptsOver_append (front later : List UInt8) :
    attemptsOver (front ++ later) =
        settled front ++
          (attemptsOver (front.drop (resumption front) ++ later)).map
            (Attempt.shift (resumption front)) ∧
      (∀ attempt ∈ settled front, attempt.outcome ≠ .error .truncated) ∧
      settled front <+: attemptsOver (front ++ later) ∧
      ((∀ attempt ∈ attemptsOver front, attempt.outcome ≠ .error .truncated) →
        attemptsOver (front ++ later) =
          attemptsOver front ++ (attemptsOver later).map (Attempt.shift front.length)) := by
  obtain ⟨words, tail, layout⟩ := Layout.exists_layout front
  have both := attemptsOver_append_eq layout later
  rw [settled_eq layout, drop_resumption layout, resumption_eq layout]
  refine ⟨both, ?_, ?_, ?_⟩
  · intro attempt member
    exact outcome_ne_of_mem_wordAttempts layout.word member
  · rw [both]
    exact List.prefix_append _ _
  · intro whole
    have nothing := tail_eq_nil_of_whole layout whole
    obtain ⟨all, -⟩ := brokenEnd?_of_nil layout nothing
    have length : front.length = words.flatten.length := by
      rw [layout.eq, nothing, List.append_nil]
    rw [both, all, length, nothing, List.nil_append]

/-- A move and a byte that begins none, with an op code behind them that breaks off. -/
theorem attemptsOver_append_opCode :
    (∀ attempt ∈ attemptsOver [0xB1, 7, 0x90], attempt.outcome ≠ .error .truncated) ∧
      attemptsOver ([0xB1, 7, 0x90] ++ [0x88]) =
        attemptsOver [0xB1, 7, 0x90] ++ (attemptsOver [0x88]).map (Attempt.shift 3) := by
  have layout : Layout [0xB1, 7, 0x90] [[0xB1, 7], [0x90]] [] := by
    have move : IsWord [0xB1, 7] := .inl ⟨⟨.byte, 1, .immediate 7⟩, by decide, by decide⟩
    have unknown : IsWord [0x90] := .inr ⟨0x90, by decide, rfl⟩
    exact Layout.cons move (Layout.cons unknown (Layout.nil (.inl rfl)))
  have whole : ∀ attempt ∈ attemptsOver [0xB1, 7, 0x90], attempt.outcome ≠ .error .truncated := by
    rw [(brokenEnd?_of_nil layout rfl).1]
    intro attempt member
    exact outcome_ne_of_mem_wordAttempts layout.word member
  exact ⟨whole, (attemptsOver_append [0xB1, 7, 0x90] [0x88]).2.2.2 whole⟩

end Decoder

end Mov8086
