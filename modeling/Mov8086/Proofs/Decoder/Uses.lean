import Mov8086.Decoder.Script
import Mov8086.Proofs.Decoder.Attempts

/-!
Uses of a decoder. Each use takes the outcomes of the next calls, up to where it has what it asks for
or finds the end of input, and answers from these outcomes alone. They settle how many it takes.
-/

set_option autoImplicit false

namespace Mov8086

namespace Decoder

/-! ### What a use takes -/

/-- Outcomes up to the end of input: those found, and those taken to find them. -/
structure Drained (found taken : List (Except DecodeError Item)) : Prop where
  going : .error .endOfInput ∉ found
  eq : taken = found ++ [.error .endOfInput]

/-- So many outcomes, or fewer where the end of input comes first: those found, and those taken to
find them. -/
inductive Drawn : Nat → List (Except DecodeError Item) → List (Except DecodeError Item) → Prop where
  | full {found : List (Except DecodeError Item)} (going : .error .endOfInput ∉ found) :
      Drawn found.length found found
  | short {n : Nat} {found taken : List (Except DecodeError Item)} (drained : Drained found taken)
      (fewer : found.length < n) : Drawn n found taken

/-- The outcomes that a use takes, and its answer to them. -/
inductive Use.Takes : Use → List (Except DecodeError Item) → Answer → Prop where
  | attempt (outcome : Except DecodeError Item) : Takes .attempt [outcome] (.outcome outcome)
  | next {found taken : List (Except DecodeError Item)} (drawn : Drawn 1 found taken) :
      Takes .next taken (.found found.head?)
  | nth {n : Nat} {found taken : List (Except DecodeError Item)}
      (drawn : Drawn (n + 1) found taken) : Takes (.nth n) taken (.found found[n]?)
  | take {n : Nat} {found taken : List (Except DecodeError Item)} (drawn : Drawn n found taken) :
      Takes (.take n) taken (.outcomes found)
  | last {found taken : List (Except DecodeError Item)} (drained : Drained found taken) :
      Takes .last taken (.found found.getLast?)
  | count {found taken : List (Except DecodeError Item)} (drained : Drained found taken) :
      Takes .count taken (.number found.length)
  | all {found taken : List (Except DecodeError Item)} (drained : Drained found taken) :
      Takes .all taken (.outcomes found)
  | collect (items : List Item) :
      Takes .collect (items.map .ok ++ [.error .endOfInput]) (.items (.ok items))
  | collect_failed (items : List Item) {error : DecodeError} (failed : error ≠ .endOfInput) :
      Takes .collect (items.map .ok ++ [.error error]) (.items (.error error))
  | position : Takes .position [] .nothing

section Unique

variable {found found' taken more : List (Except DecodeError Item)}

private theorem append_end_inj (going : .error .endOfInput ∉ found)
    (going' : .error .endOfInput ∉ found')
    (same : found ++ .error .endOfInput :: more = found' ++ [.error .endOfInput]) :
    found = found' ∧ more = [] := by
  induction found generalizing found' with
  | nil =>
    cases found' with
    | nil => exact ⟨rfl, (List.cons.inj same).2⟩
    | cons outcome found' =>
      obtain ⟨rfl, -⟩ := List.cons.inj same
      exact absurd List.mem_cons_self going'
  | cons outcome found ih =>
    cases found' with
    | nil =>
      obtain ⟨rfl, -⟩ := List.cons.inj same
      exact absurd List.mem_cons_self going
    | cons outcome' found' =>
      obtain ⟨rfl, behind⟩ := List.cons.inj same
      obtain ⟨rfl, rfl⟩ := ih (List.not_mem_of_not_mem_cons going)
        (List.not_mem_of_not_mem_cons going') behind
      exact ⟨rfl, rfl⟩

/-- The first end of input is found in one place only. -/
theorem Drained.unique (drained : Drained found taken) (drained' : Drained found' (taken ++ more)) :
    found = found' ∧ more = [] := by
  have same := drained'.eq
  rw [drained.eq, List.append_assoc] at same
  exact append_end_inj drained.going drained'.going same

theorem Drawn.unique {n : Nat} (drawn : Drawn n found taken)
    (drawn' : Drawn n found' (taken ++ more)) : found = found' ∧ more = [] := by
  cases drawn with
  | full going =>
    generalize whole : found ++ more = taken' at drawn'
    generalize size : found.length = n at drawn'
    cases drawn' with
    | full going' =>
      have length := congrArg List.length whole
      rw [List.length_append, size] at length
      obtain rfl := List.length_eq_zero_iff.mp (Nat.add_eq_left.mp length)
      exact ⟨by rw [← whole, List.append_nil], rfl⟩
    | short drained' fewer =>
      -- The end of input would stand among those that were found.
      have within : found'.length < found.length := by omega
      have reached := congrArg (·[found'.length]?) (whole.trans drained'.eq)
      simp only [List.getElem?_append_left within, List.getElem?_concat_length] at reached
      exact absurd (List.mem_of_getElem? reached) going
  | short drained fewer =>
    generalize whole : taken ++ more = taken' at drawn'
    cases drawn' with
    | full going' =>
      rw [← whole, drained.eq] at going'
      exact absurd (by simp) going'
    | short drained' fewer' => exact drained.unique (whole ▸ drained')

private theorem collected_inj {items items' : List Item} {error error' : DecodeError}
    (same : items.map .ok ++ .error error :: more = items'.map .ok ++ [.error error']) :
    items = items' ∧ error = error' ∧ more = [] := by
  induction items generalizing items' with
  | nil =>
    cases items' with
    | nil =>
      obtain ⟨⟨⟩, rest⟩ := List.cons.inj same
      exact ⟨rfl, rfl, rest⟩
    | cons item' items' => cases (List.cons.inj same).1
  | cons item items ih =>
    cases items' with
    | nil => cases (List.cons.inj same).1
    | cons item' items' =>
      obtain ⟨⟨⟩, behind⟩ := List.cons.inj same
      obtain ⟨rfl, rfl, rfl⟩ := ih behind
      exact ⟨rfl, rfl, rfl⟩

/-- What a use takes settles its answer, and further outcomes do not make it take more. -/
theorem Use.Takes.unique {use : Use} {answer answer' : Answer} (takes : use.Takes taken answer)
    (takes' : use.Takes (taken ++ more) answer') : answer = answer' ∧ more = [] := by
  generalize whole : taken ++ more = taken' at takes'
  cases takes with
  | attempt outcome =>
    cases takes' with
    | attempt outcome' =>
      obtain ⟨rfl, rest⟩ := List.cons.inj whole
      exact ⟨rfl, rest⟩
  | next drawn =>
    cases takes' with
    | next drawn' =>
      obtain ⟨rfl, rest⟩ := drawn.unique (whole ▸ drawn')
      exact ⟨rfl, rest⟩
  | nth drawn =>
    cases takes' with
    | nth drawn' =>
      obtain ⟨rfl, rest⟩ := drawn.unique (whole ▸ drawn')
      exact ⟨rfl, rest⟩
  | take drawn =>
    cases takes' with
    | take drawn' =>
      obtain ⟨rfl, rest⟩ := drawn.unique (whole ▸ drawn')
      exact ⟨rfl, rest⟩
  | last drained =>
    cases takes' with
    | last drained' =>
      obtain ⟨rfl, rest⟩ := drained.unique (whole ▸ drained')
      exact ⟨rfl, rest⟩
  | count drained =>
    cases takes' with
    | count drained' =>
      obtain ⟨rfl, rest⟩ := drained.unique (whole ▸ drained')
      exact ⟨rfl, rest⟩
  | all drained =>
    cases takes' with
    | all drained' =>
      obtain ⟨rfl, rest⟩ := drained.unique (whole ▸ drained')
      exact ⟨rfl, rest⟩
  | collect items =>
    rw [List.append_assoc] at whole
    cases takes' with
    | collect items' =>
      obtain ⟨rfl, -, rest⟩ := collected_inj whole
      exact ⟨rfl, rest⟩
    | collect_failed items' failed => exact absurd (collected_inj whole).2.1.symm failed
  | collect_failed items failed =>
    rw [List.append_assoc] at whole
    cases takes' with
    | collect items' => exact absurd (collected_inj whole).2.1 failed
    | collect_failed items' failed' =>
      obtain ⟨-, rfl, rest⟩ := collected_inj whole
      exact ⟨rfl, rest⟩
  | position =>
    cases takes' with
    | position => exact ⟨rfl, whole⟩

end Unique

/-! ### Blocks of calls -/

/-- The outcomes of so many calls from the first one on, the calls counted from zero. -/
def block (decoder : Decoder) (first size : Nat) : List (Except DecodeError Item) :=
  (List.range size).map fun call => (decoder.after (first + call)).attempt.1.outcome

theorem block_zero (decoder : Decoder) (first : Nat) : decoder.block first 0 = [] := rfl

theorem block_succ (decoder : Decoder) (size : Nat) :
    decoder.block 0 (size + 1) = decoder.attempt.1.outcome :: decoder.attempt.2.block 0 size := by
  simp only [block, List.range_succ_eq_map, List.map_cons, List.map_map]
  congr 1
  apply List.map_congr_left
  intro call _
  rw [after_attempt, Nat.zero_add, Function.comp_apply, Nat.zero_add]

theorem block_after (decoder : Decoder) (calls size : Nat) :
    (decoder.after calls).block 0 size = decoder.block calls size := by
  apply List.map_congr_left
  intro call _
  rw [after_add, Nat.zero_add]

theorem block_add (decoder : Decoder) (first size more : Nat) :
    decoder.block first (size + more) =
      decoder.block first size ++ decoder.block (first + size) more := by
  simp only [block, List.range_add, List.map_append, List.map_map]
  congr 1
  apply List.map_congr_left
  intro call _
  rw [Function.comp_apply, Nat.add_assoc]

theorem length_block (decoder : Decoder) (first size : Nat) :
    (decoder.block first size).length = size := by
  simp [block]

/-! ### Each use -/

theorem Drained.nil : Drained [] [.error .endOfInput] :=
  ⟨List.not_mem_nil, rfl⟩

theorem Drained.cons {outcome : Except DecodeError Item}
    {found taken : List (Except DecodeError Item)} (going : outcome ≠ .error .endOfInput)
    (drained : Drained found taken) : Drained (outcome :: found) (outcome :: taken) where
  going := List.not_mem_cons_of_ne_of_not_mem going.symm drained.going
  eq := by rw [drained.eq, List.cons_append]

theorem Drawn.cons {n : Nat} {outcome : Except DecodeError Item}
    {found taken : List (Except DecodeError Item)} (going : outcome ≠ .error .endOfInput)
    (drawn : Drawn n found taken) : Drawn (n + 1) (outcome :: found) (outcome :: taken) := by
  cases drawn with
  | full later => exact .full (List.not_mem_cons_of_ne_of_not_mem going.symm later)
  | short drained fewer => exact .short (drained.cons going) (Nat.succ_lt_succ fewer)

theorem Drawn.nil (n : Nat) : Drawn (n + 1) [] [.error .endOfInput] :=
  .short .nil (Nat.succ_pos n)

theorem Drawn.single {outcome : Except DecodeError Item} (going : outcome ≠ .error .endOfInput) :
    Drawn 1 [outcome] [outcome] :=
  .full (List.not_mem_cons_of_ne_of_not_mem going.symm List.not_mem_nil)

/-- What folds over all attempts up to the end of input folds over the list of them. -/
theorem scan_yield {β : Type} (visit : β → Attempt → β) (decoder : Decoder) (value : β) :
    decoder.scan (fun value attempt => .yield (visit value attempt)) value =
      (decoder.attempts.1.foldl visit value, decoder.attempts.2) := by
  induction decoder using attempt_induction generalizing value with
  | ended decoder stop =>
    rw [scan_of_end _ stop, attempts_of_end stop]
    rfl
  | found decoder going ih =>
    rw [scan_of_found _ going, attempts_of_found going]
    exact ih (visit value decoder.attempt.1)

theorem exists_drained (decoder : Decoder) :
    ∃ size, Drained (decoder.attempts.1.map (·.outcome)) (decoder.block 0 size) ∧
      decoder.attempts.2 = decoder.after size := by
  induction decoder using attempt_induction with
  | ended decoder stop =>
    refine ⟨1, ?_, ?_⟩
    · rw [attempts_of_end stop, block_succ, block_zero, stop]
      exact .nil
    · rw [attempts_of_end stop]
      rfl
  | found decoder going ih =>
    obtain ⟨size, drained, left⟩ := ih
    refine ⟨size + 1, ?_, ?_⟩
    · rw [attempts_of_found going, block_succ]
      exact drained.cons going
    · rw [attempts_of_found going, ← after_attempt]
      exact left

theorem exists_drawn_nth (n : Nat) (decoder : Decoder) :
    ∃ found size, Drawn (n + 1) found (decoder.block 0 size) ∧
      decoder.nth n = (found[n]?, decoder.after size) := by
  induction decoder using attempt_induction generalizing n with
  | ended decoder stop =>
    refine ⟨[], 1, ?_, ?_⟩
    · rw [block_succ, block_zero, stop]
      exact .nil n
    · rw [nth, scan_of_end _ stop]
      rfl
  | found decoder going ih =>
    cases n with
    | zero =>
      refine ⟨[decoder.attempt.1.outcome], 1, .single going, ?_⟩
      rw [nth, scan_of_found _ going]
      rfl
    | succ n =>
      obtain ⟨found, size, drawn, same⟩ := ih n
      refine ⟨decoder.attempt.1.outcome :: found, size + 1, ?_, ?_⟩
      · rw [block_succ]
        exact drawn.cons going
      · rw [nth, scan_of_found _ going, List.getElem?_cons_succ, ← after_attempt]
        exact same

private theorem exists_drawn_scan (n : Nat) (decoder : Decoder)
    (visited : List (Except DecodeError Item)) :
    ∃ found size, Drawn (n + 1) found (decoder.block 0 size) ∧
      (decoder.scan take.visit (n, visited)).1.2 = found.reverse ++ visited ∧
      (decoder.scan take.visit (n, visited)).2 = decoder.after size := by
  induction decoder using attempt_induction generalizing n visited with
  | ended decoder stop =>
    refine ⟨[], 1, ?_, ?_, ?_⟩
    · rw [block_succ, block_zero, stop]
      exact .nil n
    · rw [scan_of_end _ stop]
      rfl
    · rw [scan_of_end _ stop]
      rfl
  | found decoder going ih =>
    cases n with
    | zero =>
      refine ⟨[decoder.attempt.1.outcome], 1, .single going, ?_, ?_⟩
      · rw [scan_of_found _ going]
        rfl
      · rw [scan_of_found _ going]
        rfl
    | succ n =>
      obtain ⟨found, size, drawn, held, left⟩ := ih n (decoder.attempt.1.outcome :: visited)
      refine ⟨decoder.attempt.1.outcome :: found, size + 1, ?_, ?_, ?_⟩
      · rw [block_succ]
        exact drawn.cons going
      · rw [scan_of_found _ going, List.reverse_cons, List.append_assoc]
        exact held
      · rw [scan_of_found _ going, ← after_attempt]
        exact left

theorem exists_drawn_take (n : Nat) (decoder : Decoder) :
    ∃ found size, Drawn n found (decoder.block 0 size) ∧
      decoder.take n = (found, decoder.after size) := by
  cases n with
  | zero => exact ⟨[], 0, .full List.not_mem_nil, rfl⟩
  | succ n =>
    obtain ⟨found, size, drawn, held, left⟩ := exists_drawn_scan n decoder []
    refine ⟨found, size, drawn, ?_⟩
    rw [List.append_nil] at held
    exact Prod.ext ((congrArg List.reverse held).trans (List.reverse_reverse found)) left

private theorem exists_takes_scan_collect (decoder : Decoder) (items : List Item) :
    ∃ (found : List Item) (error : DecodeError) (size : Nat),
      decoder.block 0 size = found.map .ok ++ [.error error] ∧
      (decoder.scan collect.visit (.ok items)).1 =
        (if error = .endOfInput then .ok (found.reverse ++ items) else .error error) ∧
      (decoder.scan collect.visit (.ok items)).2 = decoder.after size := by
  induction decoder using attempt_induction generalizing items with
  | ended decoder stop =>
    refine ⟨[], .endOfInput, 1, ?_, ?_, ?_⟩
    · rw [block_succ, block_zero, stop]
      rfl
    · rw [scan_of_end _ stop]
      rfl
    · rw [scan_of_end _ stop]
      rfl
  | found decoder going ih =>
    rw [scan_of_found _ going, collect.visit]
    rcases outcome : decoder.attempt.1.outcome with error | item
    · have failed : error ≠ .endOfInput := by
        rintro rfl
        exact going outcome
      refine ⟨[], error, 1, ?_, (if_neg failed).symm, rfl⟩
      rw [block_succ, block_zero, outcome]
      rfl
    · obtain ⟨found, error, size, split, held, left⟩ := ih (item :: items)
      refine ⟨item :: found, error, size + 1, ?_, ?_, ?_⟩
      · rw [block_succ, outcome, split]
        rfl
      · rw [List.reverse_cons, List.append_assoc]
        exact held
      · rw [← after_attempt]
        exact left

theorem exists_takes_collect (decoder : Decoder) :
    ∃ size, Use.collect.Takes (decoder.block 0 size) (.items decoder.collect.1) ∧
      decoder.collect.2 = decoder.after size := by
  obtain ⟨found, error, size, split, held, left⟩ := exists_takes_scan_collect decoder []
  have answer : decoder.collect.1 =
      if error = .endOfInput then .ok found else .error error := by
    rw [List.append_nil] at held
    change (decoder.scan collect.visit (.ok [])).1.map List.reverse = _
    rw [held]
    split
    · exact congrArg Except.ok (List.reverse_reverse found)
    · rfl
  refine ⟨size, ?_, left⟩
  rw [split, answer]
  split
  · next ended =>
    rw [ended]
    exact .collect found
  · next failed => exact .collect_failed found failed

private theorem foldl_last {α β : Type} (f : α → β) (list : List α) (start : Option β) :
    list.foldl (fun _ value => some (f value)) start = (list.map f).getLast?.or start := by
  induction list generalizing start with
  | nil => rfl
  | cons value list ih =>
    rw [List.foldl_cons, ih, List.map_cons, List.getLast?_cons]
    cases (list.map f).getLast? <;> rfl

/-- Each use takes the outcomes of the next calls and leaves the decoder behind them. -/
theorem exists_takes (use : Use) (decoder : Decoder) :
    ∃ size, use.Takes (decoder.block 0 size) (perform use decoder).1 ∧
      (perform use decoder).2 = decoder.after size := by
  cases use with
  | attempt => exact ⟨1, .attempt _, rfl⟩
  | next =>
    refine ⟨1, ?_, rfl⟩
    by_cases stop : decoder.attempt.1.outcome = .error .endOfInput
    · have isEnd := Attempt.isEnd_eq_true_iff.mpr stop
      have takes : Use.next.Takes _ _ := .next (.nil 0)
      simpa [perform, next, isEnd, block_succ, block_zero, stop] using takes
    · have isEnd := mt Attempt.isEnd_eq_true_iff.mp stop
      have takes : Use.next.Takes _ _ := .next (.single stop)
      simpa [perform, next, isEnd, block_succ, block_zero] using takes
  | nth n =>
    obtain ⟨found, size, drawn, same⟩ := exists_drawn_nth n decoder
    simp only [perform, same]
    exact ⟨size, .nth drawn, rfl⟩
  | last =>
    obtain ⟨size, drained, left⟩ := exists_drained decoder
    refine ⟨size, ?_, ?_⟩
    · simp only [perform, last, scan_yield, foldl_last, Option.or_none]
      exact .last drained
    · simp only [perform, last, scan_yield]
      exact left
  | count =>
    obtain ⟨size, drained, left⟩ := exists_drained decoder
    refine ⟨size, ?_, ?_⟩
    · have takes : Use.count.Takes _ _ := .count drained
      simpa [perform, count, scan_yield] using takes
    · simp only [perform, count, scan_yield]
      exact left
  | take n =>
    obtain ⟨found, size, drawn, same⟩ := exists_drawn_take n decoder
    simp only [perform, same]
    exact ⟨size, .take drawn, rfl⟩
  | all =>
    obtain ⟨size, drained, left⟩ := exists_drained decoder
    exact ⟨size, .all drained, left⟩
  | collect => exact exists_takes_collect decoder
  | position => exact ⟨0, .position, rfl⟩

end Decoder

end Mov8086
