import Mov8086.Proofs.Decoder.Uses
import Mov8086.Proofs.Script

/-!
Scripts of uses. However a decoder is used, it makes one sequence of calls, of which each use takes
the next block.
-/

set_option autoImplicit false

namespace Mov8086

namespace Decoder

/-- The uses take one block of calls after another, from the first call up to the last, and each is
answered with the decoder behind its block. -/
inductive Follows (decoder : Decoder) : Nat → List Use → List (Answer × Decoder) → Nat → Prop where
  | nil (first : Nat) : Follows decoder first [] [] first
  | cons {first size last : Nat} {use : Use} {uses : List Use} {answer : Answer}
      {steps : List (Answer × Decoder)} (takes : use.Takes (decoder.block first size) answer)
      (later : Follows decoder (first + size) uses steps last) :
      Follows decoder first (use :: uses) ((answer, decoder.after (first + size)) :: steps) last

/-- A script runs through the calls in order, and leaves the decoder behind those that it took. -/
theorem exists_follows (decoder : Decoder) (uses : List Use) (first : Nat) :
    ∃ last, Follows decoder first uses (script perform uses (decoder.after first)) last ∧
      scriptEnd perform uses (decoder.after first) = decoder.after last := by
  induction uses generalizing first with
  | nil => exact ⟨first, .nil first, rfl⟩
  | cons use uses ih =>
    obtain ⟨size, takes, left⟩ := exists_takes use (decoder.after first)
    rw [block_after] at takes
    rw [after_add] at left
    obtain ⟨last, follows, behind⟩ := ih (first + size)
    refine ⟨last, ?_, ?_⟩
    · simp only [script, left]
      exact .cons takes follows
    · simp only [scriptEnd, left]
      exact behind

private theorem size_eq_of_le {decoder : Decoder} {use : Use} {first size size' : Nat}
    {answer answer' : Answer} (takes : use.Takes (decoder.block first size) answer)
    (takes' : use.Takes (decoder.block first size') answer') (le : size ≤ size') :
    answer = answer' ∧ size = size' := by
  obtain ⟨more, rfl⟩ := Nat.exists_eq_add_of_le le
  rw [block_add] at takes'
  obtain ⟨same, nothing⟩ := takes.unique takes'
  have length := congrArg List.length nothing
  rw [length_block] at length
  exact ⟨same, by rw [length, List.length_nil, Nat.add_zero]⟩

/-- No other calls make up the block of a use. -/
theorem Use.Takes.size_eq {decoder : Decoder} {use : Use} {first size size' : Nat}
    {answer answer' : Answer} (takes : use.Takes (decoder.block first size) answer)
    (takes' : use.Takes (decoder.block first size') answer') : answer = answer' ∧ size = size' := by
  rcases Nat.le_total size size' with le | le
  · exact size_eq_of_le takes takes' le
  · obtain ⟨same, size⟩ := size_eq_of_le takes' takes le
    exact ⟨same.symm, size.symm⟩

theorem Follows.unique {decoder : Decoder} {first last last' : Nat} {uses : List Use}
    {steps steps' : List (Answer × Decoder)} (follows : Follows decoder first uses steps last)
    (follows' : Follows decoder first uses steps' last') : steps = steps' ∧ last = last' := by
  induction follows generalizing steps' with
  | nil first =>
    cases follows'
    exact ⟨rfl, rfl⟩
  | cons takes later ih =>
    cases follows' with
    | cons takes' later' =>
      obtain ⟨rfl, rfl⟩ := takes.size_eq takes'
      obtain ⟨rfl, rfl⟩ := ih later'
      exact ⟨rfl, rfl⟩

/-- Each use has a block of calls of its own, which it answers to and leaves the decoder behind. -/
theorem Follows.exists_block {decoder : Decoder} {first last : Nat} {uses : List Use}
    {steps : List (Answer × Decoder)} (follows : Follows decoder first uses steps last) :
    ∀ done ∈ steps, ∃ (use : Use) (start size : Nat),
      use.Takes (decoder.block start size) done.1 ∧ done.2 = decoder.after (start + size) := by
  induction follows with
  | nil first => exact List.forall_mem_nil _
  | cons takes later ih => exact List.forall_mem_cons.mpr ⟨⟨_, _, _, takes, rfl⟩, ih⟩

/-- Every script of uses of a new decoder runs through the calls of that decoder in order, none left
out or repeated: each use takes the next block of them and is answered with the decoder behind it,
so the position is the one behind the last of these calls. There is one way only to cut the calls
into such blocks, and a block settles the answer of its use. So scripts that have run the same
number of calls are answered alike from there on. -/
theorem script_follows_calls (stream : ByteStream) :
    let fresh := ofStream stream
    (∀ uses, ∃ calls, Follows fresh 0 uses (script perform uses fresh) calls ∧
      ∀ steps calls', Follows fresh 0 uses steps calls' →
        steps = script perform uses fresh ∧ calls' = calls) ∧
    (∀ (use : Use) (taken : List (Except DecodeError Item)) (answer answer' : Answer),
      use.Takes taken answer → use.Takes taken answer' → answer = answer') ∧
    ∀ uses uses' steps steps' calls, Follows fresh 0 uses steps calls →
      Follows fresh 0 uses' steps' calls → ∀ later,
        (script perform (uses ++ later) fresh).drop uses.length =
          (script perform (uses' ++ later) fresh).drop uses'.length := by
  intro fresh
  refine ⟨?_, ?_, ?_⟩
  · intro uses
    obtain ⟨calls, follows, -⟩ := exists_follows fresh uses 0
    exact ⟨calls, follows, fun _ _ follows' => follows'.unique follows⟩
  · intro use taken answer answer' takes takes'
    rw [← List.append_nil taken] at takes'
    exact (takes.unique takes').1
  · intro uses uses' steps steps' calls follows follows' later
    have left {uses : List Use} {steps : List (Answer × Decoder)}
        (follows : Follows fresh 0 uses steps calls) :
        scriptEnd perform uses fresh = fresh.after calls := by
      obtain ⟨last, ran, behind⟩ := exists_follows fresh uses 0
      obtain ⟨-, rfl⟩ := ran.unique follows
      exact behind
    rw [drop_script_append, drop_script_append, left follows, left follows']

/-- A move, an unknown byte, a gap and another move, reached by a count and by a search. -/
theorem script_follows_calls_gap :
    let stream : ByteStream :=
      ByteStream.ofBytes [0xB1, 7, 0x90] ++ .gap :: ByteStream.ofBytes [0xB1, 9]
    ∃ calls, Follows (ofStream stream) 0 [.count] (script perform [.count] (ofStream stream)) calls ∧
      (∀ answer, Use.count.Takes ((ofStream stream).block 0 3) answer → answer = .number 2) ∧
      (script perform ([.count] ++ [.attempt]) (ofStream stream)).drop 1 =
        (script perform ([.nth 4] ++ [.attempt]) (ofStream stream)).drop 1 := by
  intro stream
  let move : Item := ⟨0, [0xB1, 7], ⟨.register .clCx .byte, .immediate 7⟩⟩
  have outcomes : (ofStream stream).block 0 3 =
      [.ok move, .error (.unrecognized 0x90)] ++ [.error .endOfInput] := by
    decide +kernel
  have drained : Drained [.ok move, .error (.unrecognized 0x90)] ((ofStream stream).block 0 3) :=
    ⟨by decide, outcomes⟩
  obtain ⟨calls, follows, alone⟩ := (script_follows_calls stream).1 [.count]
  obtain ⟨-, rfl⟩ := alone _ _ (.cons (.count drained) (.nil 3))
  have searched : Follows (ofStream stream) 0 [.nth 4] _ 3 :=
    .cons (.nth (.short drained (by decide))) (.nil 3)
  refine ⟨3, follows, ?_, (script_follows_calls stream).2.2 _ _ _ _ 3 follows searched [.attempt]⟩
  exact fun answer takes => (script_follows_calls stream).2.1 _ _ _ _ takes (.count drained)

end Decoder

end Mov8086
