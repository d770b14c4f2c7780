import Mov8086.Proofs.Cycle.Instruction
import Mov8086.Proofs.Decoder.Attempts

/-!
Data laid out as words. A word is what one attempt passes: the bytes of a record, or a byte that no
op code is packed into. Every list of bytes is laid out in one way only as words and, behind them,
bytes that break off within a record. A decoder makes one attempt for each word, the same whatever
follows, and one more that stops where the bytes break off.
-/

set_option autoImplicit false

namespace Mov8086

open ByteStream

/-- The bytes of a record, or one byte that no op code is packed into. -/
def IsWord (word : List UInt8) : Prop :=
  (∃ r : Record, r.WellFormed ∧ word = r.encode) ∨ ∃ value, OpCode.Unknown value ∧ word = [value]

/-- The data are words laid end to end, and a tail that is empty or breaks off within a record. -/
structure Layout (data : List UInt8) (words : List (List UInt8)) (tail : List UInt8) : Prop where
  eq : data = words.flatten ++ tail
  word : ∀ word ∈ words, IsWord word
  tail : tail = [] ∨ Cycle.Broken tail

theorem IsWord.ne_nil {word : List UInt8} (isWord : IsWord word) : word ≠ [] := by
  obtain ⟨r, -, rfl⟩ | ⟨value, -, rfl⟩ := isWord
  · have some := (Record.length_encode r).1
    exact List.ne_nil_of_length_pos (by omega)
  · exact List.cons_ne_nil _ _

/-- What a cycle does on a word does not depend on what follows, and it takes the word. -/
theorem IsWord.exists_instruction {word : List UInt8} (isWord : IsWord word) :
    ∃ outcome events,
      (∀ rest : ByteStream,
        Cycle.instruction (ofBytes word ++ rest) = ⟨outcome, events, rest⟩) ∧
      ((∃ (r : Record) (i : Instruction), word = r.encode ∧ r.WellFormed ∧
          r.instruction = .ok i ∧ outcome = .ok i) ∨
        ∃ value, word = [value] ∧ OpCode.Unknown value ∧
          outcome = .error (.unrecognized value)) := by
  obtain ⟨r, wf, rfl⟩ | ⟨value, unknown, rfl⟩ := isWord
  · obtain ⟨i, known⟩ := Record.exists_instruction wf.codesFit
    exact ⟨_, _, Cycle.instruction_of_encode wf known, .inl ⟨r, i, rfl, wf, known, rfl⟩⟩
  · exact ⟨_, _, Cycle.instruction_of_unknown unknown, .inr ⟨value, rfl, unknown, rfl⟩⟩

/-- An op code alone breaks off. -/
theorem Cycle.broken_opCode {value : UInt8} (known : ¬OpCode.Unknown value) : Broken [value] := by
  have run : (ofBytes [value]).pullRun.1 = [value] := by rw [pullRun_ofBytes]
  by_contra unbroken
  rw [← run] at unbroken
  obtain ⟨r, complete⟩ : ∃ r, (record (ofBytes [value])).outcome = .ok r := by
    refine exists_record ?_ ?_ unbroken
    · rw [run]
      exact List.cons_ne_nil _ _
    · rw [run]
      rintro _ ⟨rfl⟩
      exact known
  have wf := (eq_encode_append_of_ok complete).1
  have short := ((prefix_run_iff wf).mpr complete).length_le
  rw [run, List.length_singleton] at short
  have least := (Record.length_encode r).1
  omega

namespace Decoder

theorem attempt_of_cycle (taken : ByteStream) {rest : ByteStream}
    {outcome : Except DecodeError Instruction} {events : List Event}
    (ran : Cycle.instruction (taken ++ rest) = ⟨outcome, events, rest⟩) (position : Nat) :
    attempt ⟨taken ++ rest, position⟩ =
      (⟨position, outcome.map (⟨position, bytes taken, ·⟩), events⟩,
        ⟨rest, position + (bytes taken).length⟩) := by
  have left : (Cycle.record (taken ++ rest)).rest = rest := by
    rw [← Cycle.rest_instruction, ran]
  have front : Decoder.taken ⟨taken ++ rest, position⟩ = taken := taken_eq rfl left
  rw [attempt_eq, front, ran]

/-! ### Words -/

section Word

variable {word : List UInt8} (isWord : IsWord word)
include isWord

/-- An attempt at a word is the one over the word alone, and goes on behind it. -/
theorem attempt_word (rest : ByteStream) (position : Nat) :
    attempt ⟨ofBytes word ++ rest, position⟩ =
      ((attempt ⟨ofBytes word, position⟩).1, ⟨rest, position + word.length⟩) := by
  obtain ⟨outcome, events, ran, -⟩ := isWord.exists_instruction
  have alone := attempt_of_cycle (ofBytes word) (ran []) position
  rw [List.append_nil] at alone
  rw [attempt_of_cycle _ (ran rest), alone, bytes_ofBytes]

/-- An attempt at a word finds the instruction that its record stands for, or a byte that begins
none. -/
theorem outcome_word (position : Nat) :
    (∃ (r : Record) (i : Instruction), word = r.encode ∧ r.WellFormed ∧ r.instruction = .ok i ∧
      (attempt ⟨ofBytes word, position⟩).1.outcome = .ok ⟨position, word, i⟩) ∨
    ∃ value, word = [value] ∧ OpCode.Unknown value ∧
      (attempt ⟨ofBytes word, position⟩).1.outcome = .error (.unrecognized value) := by
  obtain ⟨outcome, events, ran, kind⟩ := isWord.exists_instruction
  have alone := attempt_of_cycle (ofBytes word) (ran []) position
  rw [List.append_nil, bytes_ofBytes] at alone
  rw [alone]
  obtain ⟨r, i, encoded, wf, known, rfl⟩ | ⟨value, single, unknown, rfl⟩ := kind
  · exact .inl ⟨r, i, encoded, wf, known, rfl⟩
  · exact .inr ⟨value, single, unknown, rfl⟩

theorem outcome_word_ne (position : Nat) :
    (attempt ⟨ofBytes word, position⟩).1.outcome ≠ .error .endOfInput ∧
      (attempt ⟨ofBytes word, position⟩).1.outcome ≠ .error .truncated := by
  obtain ⟨_, _, -, -, -, outcome⟩ | ⟨_, -, -, outcome⟩ := outcome_word isWord position
  · rw [outcome]
    exact ⟨nofun, nofun⟩
  · rw [outcome]
    exact ⟨nofun, nofun⟩

end Word

/-- The attempts at words laid end to end from a position, one for each. -/
def wordAttempts : Nat → List (List UInt8) → List Attempt
  | _, [] => []
  | position, word :: words =>
    (attempt ⟨ofBytes word, position⟩).1 :: wordAttempts (position + word.length) words

theorem wordAttempts_append (position : Nat) (front behind : List (List UInt8)) :
    wordAttempts position (front ++ behind) =
      wordAttempts position front ++ wordAttempts (position + front.flatten.length) behind := by
  induction front generalizing position with
  | nil => rfl
  | cons word front ih =>
    rw [List.cons_append, wordAttempts, ih, wordAttempts, List.flatten_cons, List.length_append,
      Nat.add_assoc, List.cons_append]

section Words

variable {words : List (List UInt8)} (isWord : ∀ word ∈ words, IsWord word)
include isWord

theorem attempts_words (rest : ByteStream) (position : Nat) :
    attempts ⟨ofBytes words.flatten ++ rest, position⟩ =
      (wordAttempts position words ++ (attempts ⟨rest, position + words.flatten.length⟩).1,
        (attempts ⟨rest, position + words.flatten.length⟩).2) := by
  induction words generalizing position with
  | nil => rfl
  | cons word words ih =>
    obtain ⟨first, later⟩ := List.forall_mem_cons.mp isWord
    have step := attempt_word first (ofBytes words.flatten ++ rest) position
    have found := (outcome_word_ne first position).1
    rw [List.flatten_cons, ofBytes_append, List.append_assoc, attempts_cons step found, ih later,
      List.length_append, Nat.add_assoc]
    rfl

theorem after_words (rest : ByteStream) (position : Nat) :
    after ⟨ofBytes words.flatten ++ rest, position⟩ words.length =
      ⟨rest, position + words.flatten.length⟩ := by
  induction words generalizing position with
  | nil => rfl
  | cons word words ih =>
    obtain ⟨first, later⟩ := List.forall_mem_cons.mp isWord
    have step := attempt_word first (ofBytes words.flatten ++ rest) position
    rw [List.flatten_cons, ofBytes_append, List.append_assoc, List.length_cons, ← after_attempt,
      step, ih later, List.length_append, Nat.add_assoc]

/-- A call within the words is an attempt at one of them, whatever stands behind the words. -/
theorem reply_words {call : Nat} (within : call < words.length) (rest : ByteStream)
    (position : Nat) :
    reply ⟨ofBytes words.flatten ++ rest, position⟩ call =
      ((attempt ⟨ofBytes words[call], position + (words.take call).flatten.length⟩).1,
        position + (words.take call).flatten.length + words[call].length) := by
  let later := ofBytes (words.drop (call + 1)).flatten ++ rest
  have parts : ofBytes words.flatten ++ rest =
      ofBytes (words.take call).flatten ++ (ofBytes words[call] ++ later) := by
    conv_lhs => rw [← List.take_append_drop call words, List.drop_eq_getElem_cons within]
    simp only [later, List.flatten_append, List.flatten_cons, ofBytes_append, List.append_assoc]
  have taken : ∀ word ∈ words.take call, IsWord word := fun word member =>
    isWord word (List.mem_of_mem_take member)
  have front := after_words taken (ofBytes words[call] ++ later) position
  rw [List.length_take_of_le (Nat.le_of_lt within), ← parts] at front
  rw [reply, after_succ, front, attempt_word (isWord _ (List.getElem_mem within))]

omit isWord in
theorem mem_wordAttempts {position : Nat} {attempt : Attempt}
    (member : attempt ∈ wordAttempts position words) :
    ∃ word ∈ words, ∃ offset, attempt = (Decoder.attempt ⟨ofBytes word, offset⟩).1 := by
  induction words generalizing position with
  | nil => cases member
  | cons word words ih =>
    rcases List.mem_cons.mp member with rfl | later
    · exact ⟨word, List.mem_cons_self, position, rfl⟩
    · obtain ⟨word', held, offset, same⟩ := ih later
      exact ⟨word', List.mem_cons_of_mem _ held, offset, same⟩

theorem outcome_ne_of_mem_wordAttempts {position : Nat} {attempt : Attempt}
    (member : attempt ∈ wordAttempts position words) : attempt.outcome ≠ .error .truncated := by
  obtain ⟨word, held, offset, rfl⟩ := mem_wordAttempts member
  exact (outcome_word_ne (isWord word held) offset).2

end Words

/-! ### Tails -/

section Tail

variable {tail : List UInt8} {behind rest : ByteStream} (missing : behind.pull = (none, rest))
include missing

theorem attempt_missing (position : Nat) :
    attempt ⟨behind, position⟩ = (⟨position, .error .endOfInput, []⟩, ⟨rest, position⟩) := by
  have ran := Cycle.instruction_of_missing missing
  rcases pull_eq_none_iff.mp missing with rfl | ⟨rfl, rfl⟩
  · exact attempt_of_cycle [.gap] ran position
  · exact attempt_of_cycle [] ran position

theorem attempt_broken (broken : Cycle.Broken tail) (position : Nat) :
    ∃ events, attempt ⟨ofBytes tail, position⟩ =
        (⟨position, .error .truncated, events⟩, ⟨[], position + tail.length⟩) ∧
      attempt ⟨ofBytes tail ++ behind, position⟩ =
        (⟨position, .error .truncated, events⟩, ⟨rest, position + tail.length⟩) := by
  obtain ⟨events, ran⟩ := Cycle.exists_instruction_of_broken broken
  have alone := attempt_of_cycle (ofBytes tail) (ran [] [] pull_nil) position
  refine ⟨events, ?_, ?_⟩
  · rwa [List.append_nil, bytes_ofBytes] at alone
  · -- The bytes that the attempt takes stand in front of the gap, which it takes as well.
    have gapped := ran behind rest missing
    rcases pull_eq_none_iff.mp missing with rfl | ⟨rfl, rfl⟩
    · rw [List.append_cons] at gapped ⊢
      have here := attempt_of_cycle _ gapped position
      rwa [bytes_append, bytes_gap_cons, bytes_nil, List.append_nil, bytes_ofBytes] at here
    · have here := attempt_of_cycle _ gapped position
      rwa [bytes_ofBytes] at here

end Tail

theorem attempts_nil (position : Nat) :
    attempts ⟨[], position⟩ = ([], ⟨[], position⟩) := by
  have stop := attempt_missing pull_nil position
  have ended : (attempt ⟨[], position⟩).1.outcome = .error .endOfInput := by rw [stop]
  rw [attempts_of_end ended, stop]

/-- Bytes that break off are passed by one attempt. -/
theorem attempts_broken {tail : List UInt8} (broken : Cycle.Broken tail) (position : Nat) :
    ∃ events, attempts ⟨ofBytes tail, position⟩ =
      ([⟨position, .error .truncated, events⟩], ⟨[], position + tail.length⟩) := by
  obtain ⟨events, alone, -⟩ := attempt_broken pull_nil broken position
  refine ⟨events, ?_⟩
  rw [attempts_cons alone nofun, attempts_nil]

/-! ### The one layout of data -/

/-- A tail is no beginning of data that start with a word. -/
private theorem tail_ne_word_append {word tail later : List UInt8}
    (ends : tail = [] ∨ Cycle.Broken tail) (isWord : IsWord word) : tail ≠ word ++ later := by
  rintro rfl
  obtain ⟨notEnd, notBroken⟩ := outcome_word_ne isWord 0
  rcases ends with nothing | broken
  · exact isWord.ne_nil (List.append_eq_nil_iff.mp nothing).1
  · obtain ⟨events, alone, -⟩ := attempt_broken pull_nil broken 0
    rw [ofBytes_append, attempt_word isWord] at alone
    rw [(Prod.mk.inj alone).1] at notBroken
    exact notBroken rfl

/-- Words are told apart from what follows them. -/
private theorem word_append_inj {word word' later later' : List UInt8} (isWord : IsWord word)
    (isWord' : IsWord word') (same : word ++ later = word' ++ later') :
    word = word' ∧ later = later' := by
  have step := attempt_word isWord (ofBytes later) 0
  have step' := attempt_word isWord' (ofBytes later') 0
  rw [← ofBytes_append, same, ofBytes_append, step'] at step
  obtain rfl : later' = later := ofBytes_inj.mp (congrArg (·.2.source) step)
  exact ⟨List.append_cancel_right same, rfl⟩

end Decoder

namespace Layout

theorem nil {tail : List UInt8} (ends : tail = [] ∨ Cycle.Broken tail) : Layout tail [] tail :=
  ⟨rfl, List.forall_mem_nil _, ends⟩

theorem cons {word later tail : List UInt8} {words : List (List UInt8)} (isWord : IsWord word)
    (layout : Layout later words tail) : Layout (word ++ later) (word :: words) tail where
  eq := by rw [layout.eq, List.flatten_cons, List.append_assoc]
  word := List.forall_mem_cons.mpr ⟨isWord, layout.word⟩
  tail := layout.tail

private theorem exists_append_of_ofBytes {data word : List UInt8} {rest : ByteStream}
    (split : ofBytes data = ofBytes word ++ rest) : ∃ later, data = word ++ later := by
  obtain ⟨front, later, rfl, same, -⟩ := List.map_eq_append_iff.mp split
  obtain rfl : front = word := ofBytes_inj.mp same
  exact ⟨later, rfl⟩

/-- Every list of bytes has a layout. -/
theorem exists_layout (data : List UInt8) : ∃ words tail, Layout data words tail := by
  have step (word : List UInt8) (isWord : IsWord word)
      (split : ofBytes data = ofBytes word ++ (Cycle.record (ofBytes data)).rest) :
      ∃ later, data = word ++ later ∧ later.length < data.length := by
    obtain ⟨later, parts⟩ := exists_append_of_ofBytes split
    have some := List.length_pos_iff.mpr isWord.ne_nil
    have length := congrArg List.length parts
    rw [List.length_append] at length
    exact ⟨later, parts, by omega⟩
  rcases outcome : (Cycle.record (ofBytes data)).outcome with error | r
  · cases error with
    | endOfInput => exact ⟨[], data, nil (.inl (Cycle.endOfInput_ofBytes_iff.mp outcome))⟩
    | truncated =>
      have broken := Cycle.truncated_iff.mp outcome
      rw [pullRun_ofBytes] at broken
      exact ⟨[], data, nil (.inr broken)⟩
    | unrecognized value =>
      have isWord : IsWord [value] := .inr ⟨value, (Cycle.unrecognized_iff.mp outcome).2, rfl⟩
      obtain ⟨later, parts, shorter⟩ := step [value] isWord (Cycle.eq_of_unrecognized outcome)
      obtain ⟨words, tail, layout⟩ := exists_layout later
      exact ⟨[value] :: words, tail, parts ▸ cons isWord layout⟩
    | fault cause => exact absurd outcome (Cycle.outcome_ne_fault _ cause)
  · obtain ⟨wf, split⟩ := Cycle.eq_encode_append_of_ok outcome
    have isWord : IsWord r.encode := .inl ⟨r, wf, rfl⟩
    obtain ⟨later, parts, shorter⟩ := step r.encode isWord split
    obtain ⟨words, tail, layout⟩ := exists_layout later
    exact ⟨r.encode :: words, tail, parts ▸ cons isWord layout⟩
termination_by data.length

/-- No list of bytes has two layouts. -/
theorem unique {data tail tail' : List UInt8} {words words' : List (List UInt8)}
    (layout : Layout data words tail) (layout' : Layout data words' tail') :
    words = words' ∧ tail = tail' := by
  induction words generalizing data words' with
  | nil =>
    obtain rfl : data = tail := layout.eq
    cases words' with
    | nil => exact ⟨rfl, layout'.eq⟩
    | cons word' words' =>
      have same := layout'.eq
      rw [List.flatten_cons, List.append_assoc] at same
      exact absurd same
        (Decoder.tail_ne_word_append layout.tail (layout'.word word' List.mem_cons_self))
  | cons word words ih =>
    obtain ⟨isWord, later⟩ := List.forall_mem_cons.mp layout.word
    have same := layout.eq
    rw [List.flatten_cons, List.append_assoc] at same
    cases words' with
    | nil =>
      obtain rfl : data = tail' := layout'.eq
      exact absurd same (Decoder.tail_ne_word_append layout'.tail isWord)
    | cons word' words' =>
      obtain ⟨isWord', later'⟩ := List.forall_mem_cons.mp layout'.word
      have same' := layout'.eq
      rw [List.flatten_cons, List.append_assoc] at same'
      obtain ⟨rfl, behind⟩ := Decoder.word_append_inj isWord isWord' (same.symm.trans same')
      obtain ⟨rfl, rfl⟩ := ih ⟨rfl, later, layout.tail⟩ ⟨behind, later', layout'.tail⟩
      exact ⟨rfl, rfl⟩

end Layout

/-- The data end inside an instruction: behind some words, bytes are left that break off. -/
def EndsInside (data : List UInt8) : Prop :=
  ∃ words tail, Layout data words tail ∧ Cycle.Broken tail

theorem Layout.endsInside_iff {data tail : List UInt8} {words : List (List UInt8)}
    (layout : Layout data words tail) : EndsInside data ↔ Cycle.Broken tail := by
  constructor
  · rintro ⟨words', tail', layout', broken⟩
    rwa [(layout.unique layout').2]
  · exact fun broken => ⟨words, tail, layout, broken⟩

end Mov8086
