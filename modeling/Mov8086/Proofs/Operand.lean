import Mov8086.Instruction.Grammar
import Mov8086.Instruction.Reader
import Mov8086.Proofs.Numeral

/-!
The text of operands. An operand has one text in the grammar, the one that it is written as, and the
reader takes that text, and no other, back to the operand.
-/

set_option autoImplicit false

namespace Mov8086.Operand

open Numeral (decimal)

/-! ### Displacements -/

/-- A displacement is zero, or has a sign and a magnitude. -/
theorem displacement_cases (d : Int16) :
    d = 0 ∨ (∃ n : Nat, 1 ≤ n ∧ n ≤ 32767 ∧ d = Int16.ofInt n) ∨
      ∃ n : Nat, 1 ≤ n ∧ n ≤ 32768 ∧ d = Int16.ofInt (-n) := by
  have least := d.le_toInt
  have greatest := d.toInt_lt
  have same : d = Int16.ofInt d.toInt := (Int16.ofInt_toInt d).symm
  rcases Int.lt_trichotomy d.toInt 0 with negative | zero | positive
  · right; right
    refine ⟨d.toInt.natAbs, by omega, by omega, ?_⟩
    rwa [show -(d.toInt.natAbs : Int) = d.toInt by omega]
  · left
    rw [same, zero]
    rfl
  · right; left
    refine ⟨d.toInt.natAbs, by omega, by omega, ?_⟩
    rwa [show (d.toInt.natAbs : Int) = d.toInt by omega]

theorem displacementText_zero : displacementText 0 = "" := rfl

theorem displacementText_pos {n : Nat} (least : 1 ≤ n) (greatest : n ≤ 32767) :
    displacementText (Int16.ofInt n) = " + " ++ decimal n := by
  have value : (Int16.ofInt n).toInt = n := Int16.toInt_ofInt_of_le (by omega) (by omega)
  rw [displacementText, value, if_neg (by omega), if_neg (by omega), Int.natAbs_natCast]

theorem displacementText_neg {n : Nat} (least : 1 ≤ n) (greatest : n ≤ 32768) :
    displacementText (Int16.ofInt (-n)) = " - " ++ decimal n := by
  have value : (Int16.ofInt (-n)).toInt = -n := Int16.toInt_ofInt_of_le (by omega) (by omega)
  rw [displacementText, value, if_neg (by omega), if_pos (by omega), Int.natAbs_neg,
    Int.natAbs_natCast]

/-! ### The grammar -/

theorem decimal_of_isDecimal {digits : String} {n : Nat}
    (numeral : Numeral.IsDecimal digits.toList n) : digits = decimal n := by
  rw [decimal, ← numeral.eq_toDigits, String.ofList_toList]

theorem isDecimal_decimal (n : Nat) : Numeral.IsDecimal (decimal n).toList n := by
  rw [decimal, String.toList_ofList]
  exact Numeral.isDecimal_toDigits n

private theorem toNat_ofNat {n : Nat} (greatest : n ≤ 65535) : (UInt16.ofNat n).toNat = n :=
  UInt16.toNat_ofNat_of_lt' (Nat.lt_succ_of_le greatest)

theorem Written.eq_text {line : String} {o : Operand} (written : o.Written line) :
    line = o.text := by
  cases written with
  | register r width => rfl
  | immediate numeral greatest =>
    rw [text, toNat_ofNat greatest, ← decimal_of_isDecimal numeral]
  | direct numeral greatest =>
    rw [text, toNat_ofNat greatest, ← decimal_of_isDecimal numeral]
  | sum base =>
    rw [text, displacementText_zero, String.append_empty]
  | plus base numeral least greatest =>
    rw [text, displacementText_pos least greatest, ← decimal_of_isDecimal numeral,
      ← String.append_assoc]
  | minus base numeral least greatest =>
    rw [text, displacementText_neg least greatest, ← decimal_of_isDecimal numeral,
      ← String.append_assoc]

theorem written_text (o : Operand) : o.Written o.text := by
  cases o with
  | direct address =>
    have written := Written.direct (isDecimal_decimal address.toNat)
      (Nat.le_of_lt_succ address.toNat_lt)
    rwa [UInt16.ofNat_toNat] at written
  | indirect base displacement =>
    rcases displacement_cases displacement with
      rfl | ⟨n, least, greatest, rfl⟩ | ⟨n, least, greatest, rfl⟩
    · rw [text, displacementText_zero, String.append_empty]
      exact .sum base
    · rw [text, displacementText_pos least greatest, ← String.append_assoc]
      exact .plus base (isDecimal_decimal n) least greatest
    · rw [text, displacementText_neg least greatest, ← String.append_assoc]
      exact .minus base (isDecimal_decimal n) least greatest
  | register r width => exact .register r width
  | immediate value =>
    have written := Written.immediate (isDecimal_decimal value.toNat)
      (Nat.le_of_lt_succ value.toNat_lt)
    rwa [UInt16.ofNat_toNat] at written

/-! ### Reading the parts of an operand -/

theorem boundedDecimal?_eq_some_iff {least greatest n : Nat} {digits : List Char} :
    boundedDecimal? least greatest digits = some n ↔
      digits = (decimal n).toList ∧ least ≤ n ∧ n ≤ greatest := by
  rw [boundedDecimal?, Option.filter_eq_some_iff, Numeral.decimal?_eq_some_iff,
    Numeral.isDecimal_iff, decimal, String.toList_ofList, decide_eq_true_eq]

theorem readDisplacement?_text (d : Int16) :
    readDisplacement? (displacementText d).toList = some d := by
  rcases displacement_cases d with rfl | ⟨n, least, greatest, rfl⟩ | ⟨n, least, greatest, rfl⟩
  · rfl
  · have read : boundedDecimal? 1 32767 (decimal n).toList = some n :=
      boundedDecimal?_eq_some_iff.mpr ⟨rfl, least, greatest⟩
    rw [displacementText_pos least greatest, String.toList_append]
    change (boundedDecimal? 1 32767 (decimal n).toList).map _ = _
    rw [read]
    rfl
  · have read : boundedDecimal? 1 32768 (decimal n).toList = some n :=
      boundedDecimal?_eq_some_iff.mpr ⟨rfl, least, greatest⟩
    rw [displacementText_neg least greatest, String.toList_append]
    change (boundedDecimal? 1 32768 (decimal n).toList).map _ = _
    rw [read]
    rfl

theorem readDisplacement?_eq_some_iff {text : List Char} {d : Int16} :
    readDisplacement? text = some d ↔ text = (displacementText d).toList := by
  constructor
  · intro read
    unfold readDisplacement? at read
    split at read
    · obtain rfl : 0 = d := Option.some.inj read
      rfl
    · obtain ⟨n, number, rfl⟩ := Option.map_eq_some_iff.mp read
      obtain ⟨rfl, least, greatest⟩ := boundedDecimal?_eq_some_iff.mp number
      rw [displacementText_pos least greatest, String.toList_append]
      rfl
    · obtain ⟨n, number, rfl⟩ := Option.map_eq_some_iff.mp read
      obtain ⟨rfl, least, greatest⟩ := boundedDecimal?_eq_some_iff.mp number
      rw [displacementText_neg least greatest, String.toList_append]
      rfl
    · cases read
  · rintro rfl
    exact readDisplacement?_text d

theorem displacementText_inj {d d' : Int16}
    (same : (displacementText d).toList = (displacementText d').toList) : d = d' := by
  have read := readDisplacement?_text d
  rw [same, readDisplacement?_text] at read
  exact (Option.some.inj read).symm

/-- Behind a plus sign stands a digit, never the name of a register. -/
private theorem displacementText_ne {d : Int16} {c : Char} (letter : c.isDigit = false)
    (rest : List Char) : (displacementText d).toList ≠ ' ' :: '+' :: ' ' :: c :: rest := by
  intro held
  have read := readDisplacement?_text d
  rw [held] at read
  obtain ⟨n, number, -⟩ := Option.map_eq_some_iff.mp read
  obtain ⟨digits, -, -⟩ := boundedDecimal?_eq_some_iff.mp number
  have digit := (isDecimal_decimal n).isDigit c (digits ▸ List.mem_cons_self)
  rw [letter] at digit
  cases digit

/-- A sum of registers is told apart from the displacement behind it. -/
theorem base_eq_of_append {b b' : AddressBase} {d d' : Int16}
    (same : b.expression.toList ++ (displacementText d).toList =
      b'.expression.toList ++ (displacementText d').toList) : b = b' := by
  have noSi (d : Int16) (rest) : (displacementText d).toList ≠ ' ' :: '+' :: ' ' :: 's' :: rest :=
    displacementText_ne rfl rest
  have noDi (d : Int16) (rest) : (displacementText d).toList ≠ ' ' :: '+' :: ' ' :: 'd' :: rest :=
    displacementText_ne rfl rest
  -- Two sums differ in a letter, or one goes on with a register where the other has a displacement.
  cases b <;> cases b' <;>
    simp [AddressBase.expression, noSi, noDi, fun d rest => (noSi d rest).symm,
      fun d rest => (noDi d rest).symm] at same ⊢

/-- The text between the brackets of an indirect operand. -/
def sumText (b : AddressBase) (d : Int16) : List Char :=
  b.expression.toList ++ (displacementText d).toList

theorem sumText_inj {b b' : AddressBase} {d d' : Int16} (same : sumText b d = sumText b' d') :
    b = b' ∧ d = d' := by
  obtain rfl := base_eq_of_append same
  exact ⟨rfl, displacementText_inj (List.append_cancel_left same)⟩

private theorem readSum_eq_some_iff {b : AddressBase} {text : List Char} {o : Operand} :
    ((b.expression.toList.isPrefixOf? text).bind fun rest =>
        (readDisplacement? rest).map (indirect b)) = some o ↔
      ∃ d, o = indirect b d ∧ text = sumText b d := by
  constructor
  · intro read
    obtain ⟨rest, front, behind⟩ := Option.bind_eq_some_iff.mp read
    obtain ⟨d, displaced, rfl⟩ := Option.map_eq_some_iff.mp behind
    obtain rfl := readDisplacement?_eq_some_iff.mp displaced
    exact ⟨d, rfl, (List.isPrefixOf?_eq_some_iff_append_eq.mp front).symm⟩
  · rintro ⟨d, rfl, rfl⟩
    have front := List.isPrefixOf?_eq_some_iff_append_eq.mpr (Eq.refl (sumText b d))
    rw [front, Option.bind_some, readDisplacement?_text, Option.map_some]

theorem readIndirect?_eq_some_iff {text : List Char} {o : Operand} :
    readIndirect? text = some o ↔ ∃ b d, o = indirect b d ∧ text = sumText b d := by
  constructor
  · intro read
    obtain ⟨b, -, here⟩ := List.exists_of_findSome?_eq_some read
    obtain ⟨d, same, held⟩ := readSum_eq_some_iff.mp here
    exact ⟨b, d, same, held⟩
  · rintro ⟨b, d, rfl, rfl⟩
    have listed : b ∈ AddressBase.all := by cases b <;> decide
    have here := readSum_eq_some_iff.mpr ⟨d, Eq.refl (indirect b d), Eq.refl (sumText b d)⟩
    have some : (readIndirect? (sumText b d)).isSome = true := by
      rw [readIndirect?, List.findSome?_isSome_iff]
      exact ⟨b, listed, Option.isSome_of_eq_some here⟩
    obtain ⟨o, read⟩ := Option.isSome_iff_exists.mp some
    -- Whichever sum is read first, it is the one that the text was written from.
    obtain ⟨b', -, first⟩ := List.exists_of_findSome?_eq_some read
    obtain ⟨d', rfl, held⟩ := readSum_eq_some_iff.mp first
    obtain ⟨rfl, rfl⟩ := sumText_inj held
    exact read

private theorem readRegister?_name (r : Register) (width : Width) :
    readRegister? (r.name width).toList = some (register r width) := by
  cases r <;> cases width <;> rfl

theorem readRegister?_eq_some_iff {text : List Char} {o : Operand} :
    readRegister? text = some o ↔
      ∃ r width, o = register r width ∧ text = (Register.name r width).toList := by
  constructor
  · intro read
    obtain ⟨width, -, here⟩ := List.exists_of_findSome?_eq_some read
    obtain ⟨r, found, rfl⟩ := Option.map_eq_some_iff.mp here
    have named := List.find?_some found
    exact ⟨r, width, rfl, (of_decide_eq_true named).symm⟩
  · rintro ⟨r, width, rfl, rfl⟩
    exact readRegister?_name r width

/-! ### Reading an operand -/

/-- A name begins with a letter. -/
private theorem exists_name_cons (r : Register) (width : Width) :
    ∃ c rest, (r.name width).toList = c :: rest ∧ c ≠ '[' ∧ c.isDigit = false := by
  cases r <;> cases width <;> exact ⟨_, _, rfl, by decide, rfl⟩

private theorem exists_decimal_cons (n : Nat) :
    ∃ c rest, (decimal n).toList = c :: rest ∧ c ≠ '[' ∧ c.isDigit = true := by
  have numeral := isDecimal_decimal n
  obtain ⟨c, rest, split⟩ := List.exists_cons_of_ne_nil numeral.nonempty
  have digit := numeral.isDigit c (split ▸ List.mem_cons_self)
  refine ⟨c, rest, split, ?_, digit⟩
  rintro rfl
  cases digit

private theorem exists_expression_cons (b : AddressBase) :
    ∃ c rest, b.expression.toList = c :: rest ∧ c.isDigit = false := by
  cases b <;> exact ⟨_, _, rfl, rfl⟩

theorem readMemory?_eq_some_iff {text : List Char} {o : Operand} :
    readMemory? text = some o ↔
      (∃ address : UInt16, o = direct address ∧ text = (decimal address.toNat).toList) ∨
        ∃ b d, o = indirect b d ∧ text = sumText b d := by
  rw [← readIndirect?_eq_some_iff, readMemory?]
  rcases number : boundedDecimal? 0 65535 text with _ | n
  · refine ⟨.inr, ?_⟩
    rintro (⟨address, -, rfl⟩ | read)
    · have bound := Nat.le_of_lt_succ address.toNat_lt
      have known := boundedDecimal?_eq_some_iff.mpr ⟨rfl, Nat.zero_le address.toNat, bound⟩
      cases number.symm.trans known
    · exact read
  · obtain ⟨rfl, -, greatest⟩ := boundedDecimal?_eq_some_iff.mp number
    constructor
    · intro read
      obtain rfl := Option.some.inj read
      exact .inl ⟨UInt16.ofNat n, rfl, by rw [toNat_ofNat greatest]⟩
    · rintro (⟨address, rfl, same⟩ | read)
      · have known := isDecimal_decimal address.toNat
        rw [← same] at known
        have value := known.value.symm.trans (isDecimal_decimal n).value
        rw [← value]
        exact congrArg (some ∘ direct) UInt16.ofNat_toNat
      · obtain ⟨b, d, -, held⟩ := readIndirect?_eq_some_iff.mp read
        obtain ⟨c, rest, split, -, digit⟩ := exists_decimal_cons n
        obtain ⟨c', rest', split', letter⟩ := exists_expression_cons b
        rw [sumText, split, split'] at held
        rw [(List.cons.inj held).1, letter] at digit
        cases digit

private theorem read?_of_ne {c : Char} {rest : List Char} (bare : c ≠ '[') :
    read? (c :: rest) =
      match readRegister? (c :: rest) with
      | some operand => some operand
      | none => (boundedDecimal? 0 65535 (c :: rest)).map fun value =>
        immediate (UInt16.ofNat value) := by
  unfold read?
  split
  next text same => exact absurd (List.cons.inj same).1 bare
  next => rfl

private theorem text_toList_memory (inner : String) :
    ("[" ++ inner ++ "]").toList = '[' :: (inner.toList ++ [']']) := by
  rw [String.toList_append, String.toList_append]
  rfl

theorem text_direct_toList (address : UInt16) :
    (direct address).text.toList = '[' :: ((decimal address.toNat).toList ++ [']']) :=
  text_toList_memory _

theorem text_indirect_toList (b : AddressBase) (d : Int16) :
    (indirect b d).text.toList = '[' :: (sumText b d ++ [']']) := by
  have inner : (indirect b d).text = "[" ++ (b.expression ++ displacementText d) ++ "]" := by
    simp only [text, String.append_assoc]
  rw [inner, text_toList_memory, String.toList_append, sumText]

private theorem read?_memory (text : List Char) :
    read? ('[' :: (text ++ [']'])) = readMemory? text := by
  rw [read?, List.getLast?_concat, if_pos rfl, List.dropLast_concat]

theorem read?_text (o : Operand) : read? o.text.toList = some o := by
  cases o with
  | direct address =>
    rw [text_direct_toList, read?_memory]
    exact readMemory?_eq_some_iff.mpr (.inl ⟨address, rfl, rfl⟩)
  | indirect b d =>
    rw [text_indirect_toList, read?_memory]
    exact readMemory?_eq_some_iff.mpr (.inr ⟨b, d, rfl, rfl⟩)
  | register r width =>
    obtain ⟨c, rest, split, bare, -⟩ := exists_name_cons r width
    have known := readRegister?_name r width
    rw [text, split, read?_of_ne bare, ← split, known]
  | immediate value =>
    obtain ⟨c, rest, split, bare, digit⟩ := exists_decimal_cons value.toNat
    have number := boundedDecimal?_eq_some_iff.mpr
      ⟨Eq.refl (decimal value.toNat).toList, Nat.zero_le _, Nat.le_of_lt_succ value.toNat_lt⟩
    have unnamed : readRegister? (c :: rest) = none := by
      apply Option.eq_none_iff_forall_ne_some.mpr
      intro o named
      obtain ⟨r, width, -, same⟩ := readRegister?_eq_some_iff.mp named
      obtain ⟨c', rest', split', -, letter⟩ := exists_name_cons r width
      rw [split'] at same
      rw [(List.cons.inj same).1, letter] at digit
      cases digit
    rw [text, split, read?_of_ne bare, unnamed, ← split, number]
    exact congrArg (some ∘ immediate) UInt16.ofNat_toNat

/-- The reader of operands accepts the texts of operands, and no others. -/
theorem read?_eq_some_iff {text : List Char} {o : Operand} :
    read? text = some o ↔ text = o.text.toList := by
  constructor
  · intro read
    unfold read? at read
    split at read
    · next inner =>
      split at read
      · next closed =>
        obtain ⟨front, rfl⟩ := List.getLast?_eq_some_iff.mp closed
        rw [List.dropLast_concat] at read
        rcases readMemory?_eq_some_iff.mp read with ⟨address, rfl, rfl⟩ | ⟨b, d, rfl, rfl⟩
        · rw [text_direct_toList]
        · rw [text_indirect_toList]
      · cases read
    · next bare =>
      split at read
      · next named =>
        obtain rfl := Option.some.inj read
        obtain ⟨r, width, rfl, rfl⟩ := readRegister?_eq_some_iff.mp named
        rfl
      · obtain ⟨n, number, rfl⟩ := Option.map_eq_some_iff.mp read
        obtain ⟨rfl, -, greatest⟩ := boundedDecimal?_eq_some_iff.mp number
        rw [Operand.text, toNat_ofNat greatest]
  · rintro rfl
    exact read?_text o

/-! ### Characters -/

/-- Neither a comma nor a line break stands in the text of an operand. -/
theorem separator_not_mem_text {c : Char} (separator : c = ',' ∨ c = '\n') (o : Operand) :
    c ∉ o.text.toList := by
  have ofDecimal (n : Nat) : c ∉ (decimal n).toList := by
    intro member
    have digit := (isDecimal_decimal n).isDigit _ member
    rcases separator with rfl | rfl <;> cases digit
  have ofMemory {inner : List Char} (free : c ∉ inner) : c ∉ '[' :: (inner ++ [']']) := by
    rcases separator with rfl | rfl <;> simpa using free
  cases o with
  | direct address =>
    rw [text_direct_toList]
    exact ofMemory (ofDecimal address.toNat)
  | indirect b d =>
    have name : c ∉ b.expression.toList := by
      rcases separator with rfl | rfl <;> cases b <;> decide
    have signs : c ∉ " + ".toList ∧ c ∉ " - ".toList := by
      rcases separator with rfl | rfl <;> decide
    have displaced : c ∉ (displacementText d).toList := by
      rcases displacement_cases d with rfl | ⟨n, least, greatest, rfl⟩ | ⟨n, least, greatest, rfl⟩
      · exact List.not_mem_nil
      · rw [displacementText_pos least greatest, String.toList_append, List.mem_append, not_or]
        exact ⟨signs.1, ofDecimal n⟩
      · rw [displacementText_neg least greatest, String.toList_append, List.mem_append, not_or]
        exact ⟨signs.2, ofDecimal n⟩
    rw [text_indirect_toList]
    apply ofMemory
    rw [sumText, List.mem_append, not_or]
    exact ⟨name, displaced⟩
  | register r width =>
    rcases separator with rfl | rfl <;> cases r <;> cases width <;> decide
  | immediate value => exact ofDecimal value.toNat

theorem comma_not_mem_text (o : Operand) : ',' ∉ o.text.toList :=
  separator_not_mem_text (.inl rfl) o

end Mov8086.Operand
