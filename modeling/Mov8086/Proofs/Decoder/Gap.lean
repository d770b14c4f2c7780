import Mov8086.Proofs.Layout

/-!
Gaps between streams. Behind a gap a decoder goes on as a new one does, moved by the bytes in front
of the gap: the call that meets the gap ends what was begun, and nothing of it is kept.
-/

set_option autoImplicit false

namespace Mov8086

open ByteStream

namespace Decoder

/-- The call behind the words finds the end of input, or bytes that break off, and takes a gap that
follows. -/
private theorem attempt_tail {tail : List UInt8} (ends : tail = [] ∨ Cycle.Broken tail)
    (behind : ByteStream) (position : Nat) :
    (attempt ⟨ofBytes tail, position⟩).1.outcome =
        (if tail = [] then .error .endOfInput else .error .truncated) ∧
      (attempt ⟨ofBytes tail, position⟩).2.position = position + tail.length ∧
      attempt ⟨ofBytes tail ++ .gap :: behind, position⟩ =
        ((attempt ⟨ofBytes tail, position⟩).1, ⟨behind, position + tail.length⟩) := by
  rcases ends with rfl | broken
  · have alone := attempt_missing pull_nil position
    have gapped := attempt_missing (pull_gap behind) position
    rw [ofBytes_nil, alone, List.nil_append, gapped]
    exact ⟨rfl, rfl, rfl⟩
  · obtain ⟨events, alone, gapped⟩ := attempt_broken (pull_gap behind) broken position
    rw [alone, gapped, if_neg broken.1]
    exact ⟨rfl, rfl, rfl⟩

section Laid

variable {data tail : List UInt8} {words : List (List UInt8)} (layout : Layout data words tail)
include layout

private theorem ofStream_laid (behind : ByteStream) :
    ofStream (ofBytes data ++ behind) =
      ⟨ofBytes words.flatten ++ (ofBytes tail ++ behind), 0⟩ := by
  rw [layout.eq, ofBytes_append, List.append_assoc]
  rfl

private theorem ofStream_data :
    ofStream (ofBytes data) = ⟨ofBytes words.flatten ++ ofBytes tail, 0⟩ := by
  rw [layout.eq, ofBytes_append]
  rfl

/-- The calls up to the first that finds no word are those over the data alone. -/
private theorem reply_gap (behind : ByteStream) {call : Nat} (within : call ≤ words.length) :
    (ofStream (ofBytes data ++ .gap :: behind)).reply call = (ofStream (ofBytes data)).reply call := by
  rw [ofStream_laid layout, ofStream_data layout]
  rcases Nat.lt_or_eq_of_le within with among | rfl
  · rw [reply_words layout.word among, reply_words layout.word among]
  · obtain ⟨-, position, gapped⟩ := attempt_tail layout.tail behind (0 + words.flatten.length)
    rw [reply, reply, after_succ, after_succ, after_words layout.word, after_words layout.word, gapped,
      position]

private theorem after_gap (behind : ByteStream) :
    (ofStream (ofBytes data ++ .gap :: behind)).after (words.length + 1) =
      (ofStream behind).shift data.length := by
  obtain ⟨-, -, gapped⟩ := attempt_tail layout.tail behind (0 + words.flatten.length)
  rw [ofStream_laid layout, after_succ, after_words layout.word, gapped, layout.eq, List.length_append,
    Nat.zero_add]
  rfl

/-- Over the data alone the calls pass the words, and the next one finds bytes that break off or
the end of input. -/
private theorem outcome_calls :
    (∀ call < words.length, ((ofStream (ofBytes data)).reply call).1.outcome ≠ .error .endOfInput ∧
      ((ofStream (ofBytes data)).reply call).1.outcome ≠ .error .truncated) ∧
    ((ofStream (ofBytes data)).reply words.length).1.outcome =
      (if tail = [] then .error .endOfInput else .error .truncated) := by
  rw [ofStream_data layout]
  constructor
  · intro call among
    rw [reply_words layout.word among]
    exact outcome_word_ne (layout.word _ (List.getElem_mem among)) _
  · rw [reply, after_words layout.word]
    exact (attempt_tail layout.tail [] _).1

end Laid

/-- A gap separates two streams. Over data without gaps the calls come to a first one that finds
bytes that break off, if the data end inside an instruction, and else the end of input. With a gap
and a stream behind the data, the calls up to that one answer as over the data alone, and those
behind it as the calls of a new decoder over the stream, moved by the length of the data. -/
theorem gap_separates (data : List UInt8) (behind : ByteStream) :
    ∃ last : Nat,
      (∀ call < last, ((ofStream (ofBytes data)).reply call).1.outcome ≠ .error .endOfInput ∧
        ((ofStream (ofBytes data)).reply call).1.outcome ≠ .error .truncated) ∧
      (EndsInside data →
        ((ofStream (ofBytes data)).reply last).1.outcome = .error .truncated) ∧
      (¬EndsInside data →
        ((ofStream (ofBytes data)).reply last).1.outcome = .error .endOfInput) ∧
      (∀ call ≤ last,
        (ofStream (ofBytes data ++ .gap :: behind)).reply call =
          (ofStream (ofBytes data)).reply call) ∧
      ∀ call,
        (ofStream (ofBytes data ++ .gap :: behind)).reply (last + 1 + call) =
          (((ofStream behind).reply call).1.shift data.length,
            data.length + ((ofStream behind).reply call).2) := by
  obtain ⟨words, tail, layout⟩ := Layout.exists_layout data
  obtain ⟨passing, stop⟩ := outcome_calls layout
  refine ⟨words.length, passing, ?_, ?_, fun _ => reply_gap layout behind, ?_⟩
  · intro inside
    have broken := layout.endsInside_iff.mp inside
    rw [stop, if_neg broken.1]
  · intro outside
    have nothing := layout.tail.resolve_right (mt layout.endsInside_iff.mpr outside)
    rw [stop, if_pos nothing]
  · intro call
    rw [← reply_after, after_gap layout behind, reply_shift]

/-- Behind a move and an op code that breaks off there is a gap, and then a move of its own. -/
theorem gap_separates_opCode :
    EndsInside [0xB1, 7, 0x88] ∧
      ∃ last, ((ofStream (ofBytes [0xB1, 7, 0x88])).reply last).1.outcome = .error .truncated ∧
        (ofStream (ofBytes [0xB1, 7, 0x88] ++ .gap :: ofBytes [0xB1, 9])).reply last =
          (ofStream (ofBytes [0xB1, 7, 0x88])).reply last ∧
        ((ofStream (ofBytes [0xB1, 7, 0x88] ++ .gap :: ofBytes [0xB1, 9])).reply
          (last + 1)).1.outcome = .ok ⟨3, [0xB1, 9], ⟨.register .clCx .byte, .immediate 9⟩⟩ := by
  have inside : EndsInside [0xB1, 7, 0x88] := by
    have move : IsWord [0xB1, 7] := .inl ⟨⟨.byte, 1, .immediate 7⟩, by decide, by decide⟩
    have broken : Cycle.Broken [0x88] := Cycle.broken_opCode (by decide)
    exact ⟨[[0xB1, 7]], [0x88], Layout.cons move (Layout.nil (.inr broken)), broken⟩
  let i : Instruction := ⟨.register .clCx .byte, .immediate 9⟩
  have fresh : ((ofStream (ofBytes [0xB1, 9])).reply 0).1.outcome = .ok ⟨0, [0xB1, 9], i⟩ := by
    let r : Record := ⟨.byte, 1, .immediate 9⟩
    have wf : r.WellFormed := by decide
    have known : r.instruction = .ok i := rfl
    have encoded : r.encode = [0xB1, 9] := by decide
    have ran := attempt_of_cycle _ (Cycle.instruction_of_encode wf known []) 0
    rw [encoded, List.append_nil, bytes_ofBytes] at ran
    rw [reply, after, ofStream, ran]
    rfl
  obtain ⟨last, -, broken, -, same, behind⟩ :=
    gap_separates [0xB1, 7, 0x88] (ofBytes [0xB1, 9])
  refine ⟨inside, last, broken inside, same last (Nat.le_refl last), ?_⟩
  rw [← Nat.add_zero (last + 1), behind 0]
  exact congrArg (Except.map (Item.shift 3)) fresh

end Decoder

end Mov8086
