import Mathlib.Data.List.Basic
import Mathlib.Data.List.Induction
import Mathlib.Data.List.TakeDrop
import Mathlib.Tactic.ByContra
import Mathlib.Tactic.IntervalCases
import Mov8086.Numeral

/-!
Numerals read back. The decimal text of a number is the one row of digits without a leading zero
that stands for it, and the reader accepts such rows and no others; hexadecimal digits are read back
whatever zeros stand in front of them. A field of a line ends at the first separator.
-/

set_option autoImplicit false

namespace Mov8086

/-- A field that holds no separator is what stands in front of the first one. -/
theorem span_separator {separator : Char} {field : List Char} (free : separator ∉ field)
    (behind : List Char) :
    (field ++ separator :: behind).span (· ≠ separator) = (field, separator :: behind) := by
  have all : ∀ c ∈ field, decide (c ≠ separator) = true := by
    intro c member
    rw [decide_eq_true_eq]
    rintro rfl
    exact free member
  rw [List.span_eq_takeWhile_dropWhile, List.takeWhile_append_of_pos all,
    List.dropWhile_append_of_pos all]
  simp

namespace Numeral

/-! ### Decimal -/

private theorem isDigit_iff {c : Char} : c.isDigit = true ↔ '0' ≤ c ∧ c ≤ '9' := by
  rw [Char.isDigit, Bool.and_eq_true, decide_eq_true_eq, decide_eq_true_eq]
  rfl

private theorem digitChar_of_isDigit {c : Char} (isDigit : c.isDigit = true) :
    c.toNat - '0'.toNat < 10 ∧ Nat.digitChar (c.toNat - '0'.toNat) = c := by
  obtain ⟨least, greatest⟩ := isDigit_iff.mp isDigit
  have lower : 48 ≤ c.toNat := least
  have upper : c.toNat ≤ 57 := greatest
  have place : c = Char.ofNat c.toNat := (Char.ofNat_toNat c).symm
  refine ⟨by change c.toNat - 48 < 10; omega, ?_⟩
  generalize c.toNat = n at lower upper place
  subst place
  interval_cases n <;> rfl

/-- The digits of a number other than zero begin with one that is not zero. -/
theorem exists_head?_toDigits {base n : Nat} (large : 1 < base) (pos : 0 < n) :
    ∃ d, 0 < d ∧ d < base ∧ (Nat.toDigits base n).head? = some (Nat.digitChar d) := by
  induction n using Nat.strongRecOn with
  | ind n ih =>
    by_cases small : n < base
    · exact ⟨n, pos, small, by rw [Nat.toDigits_of_lt_base small, List.head?_cons]⟩
    · have fewer := Nat.div_lt_self pos large
      have some := Nat.div_pos (Nat.le_of_not_lt small) (Nat.lt_of_succ_lt large)
      rw [Nat.toDigits_of_base_le large (Nat.le_of_not_lt small),
        List.head?_append_of_ne_nil _ Nat.toDigits_ne_nil]
      exact ih (n / base) fewer some

theorem head?_toDigits_ne_zero {n : Nat} (pos : 0 < n) :
    (Nat.toDigits 10 n).head? ≠ some '0' := by
  obtain ⟨d, positive, small, head⟩ := exists_head?_toDigits (show 1 < 10 by decide) pos
  rw [head]
  interval_cases d <;> decide

theorem isDecimal_toDigits (n : Nat) : IsDecimal (Nat.toDigits 10 n) n where
  nonempty := Nat.toDigits_ne_nil
  isDigit _ member := Nat.isDigit_of_mem_toDigits (by decide) (by decide) member
  unpadded leading := by
    rcases Nat.eq_zero_or_pos n with rfl | pos
    · exact Nat.toDigits_zero 10
    · exact absurd leading (head?_toDigits_ne_zero pos)
  value := Nat.ofDigitChars_ten_toDigits

private theorem ofDigitChars_concat (front : List Char) (c : Char) :
    Nat.ofDigitChars 10 (front ++ [c]) 0 =
      10 * Nat.ofDigitChars 10 front 0 + (c.toNat - '0'.toNat) := by
  rw [Nat.ofDigitChars_append, Nat.ofDigitChars_cons, Nat.ofDigitChars_nil]

/-- A row of digits is the text of the number that it stands for. -/
theorem IsDecimal.eq_toDigits {digits : List Char} {n : Nat} (decimal : IsDecimal digits n) :
    digits = Nat.toDigits 10 n := by
  obtain ⟨nonempty, isDigit, unpadded, rfl⟩ := decimal
  -- The last digit is split off; what is in front of it has no leading zero either.
  induction digits using List.reverseRecOn with
  | nil => exact absurd rfl nonempty
  | append_singleton front c ih =>
    have last := isDigit c (List.mem_append_right _ List.mem_cons_self)
    obtain ⟨small, digit⟩ := digitChar_of_isDigit last
    rw [ofDigitChars_concat]
    by_cases single : front = []
    · subst single
      rw [Nat.ofDigitChars_nil, Nat.mul_zero, Nat.zero_add, Nat.toDigits_of_lt_base small, digit]
      rfl
    · have leading : front.head? ≠ some '0' := by
        intro zero
        have whole := unpadded (by rw [List.head?_append_of_ne_nil _ single, zero])
        have length := congrArg List.length whole
        rw [List.length_append] at length
        exact single (List.length_eq_zero_iff.mp (by simpa using length))
      have same := ih single (fun c member => isDigit c (List.mem_append_left _ member))
        (fun zero => absurd zero leading)
      have pos : 0 < Nat.ofDigitChars 10 front 0 := by
        apply Nat.pos_of_ne_zero
        intro zero
        rw [zero, Nat.toDigits_zero] at same
        exact leading (by rw [same]; rfl)
      rw [← Nat.toDigits_append_toDigits (by decide) pos small, ← same,
        Nat.toDigits_of_lt_base small, digit]

theorem isDecimal_iff {digits : List Char} {n : Nat} :
    IsDecimal digits n ↔ digits = Nat.toDigits 10 n :=
  ⟨IsDecimal.eq_toDigits, fun same => same ▸ isDecimal_toDigits n⟩

theorem digit?_eq_some_iff {c : Char} {d : Nat} :
    digit? c = some d ↔ c.isDigit = true ∧ c.toNat - '0'.toNat = d := by
  rw [isDigit_iff, digit?]
  split <;> simp [*]

theorem appendDigits?_eq_some_iff {digits : List Char} {value n : Nat} :
    appendDigits? value digits = some n ↔
      (∀ c ∈ digits, c.isDigit = true) ∧ Nat.ofDigitChars 10 digits value = n := by
  induction digits generalizing value with
  | nil => simp [appendDigits?]
  | cons c digits ih =>
    rw [appendDigits?, Option.bind_eq_some_iff, Nat.ofDigitChars_cons, List.forall_mem_cons]
    constructor
    · rintro ⟨d, first, later⟩
      obtain ⟨isDigit, rfl⟩ := digit?_eq_some_iff.mp first
      obtain ⟨digits, value⟩ := ih.mp later
      exact ⟨⟨isDigit, digits⟩, value⟩
    · rintro ⟨⟨isDigit, digits⟩, value⟩
      exact ⟨_, digit?_eq_some_iff.mpr ⟨isDigit, rfl⟩, ih.mpr ⟨digits, value⟩⟩

theorem decimal?_eq_some_iff {digits : List Char} {n : Nat} :
    decimal? digits = some n ↔ IsDecimal digits n := by
  cases digits with
  | nil => exact ⟨nofun, fun decimal => absurd rfl decimal.nonempty⟩
  | cons c digits =>
    rw [decimal?]
    split
    · next padded =>
      refine ⟨nofun, fun decimal => ?_⟩
      have whole := decimal.unpadded (by rw [padded.1]; rfl)
      exact absurd (List.cons.inj whole).2 padded.2
    · next unpadded =>
      rw [appendDigits?_eq_some_iff]
      constructor
      · rintro ⟨isDigit, value⟩
        refine ⟨List.cons_ne_nil _ _, isDigit, fun leading => ?_, value⟩
        have zero : c = '0' := Option.some.inj leading
        have nothing : digits = [] := by
          by_contra more
          exact unpadded ⟨zero, more⟩
        rw [zero, nothing]
      · exact fun decimal => ⟨decimal.isDigit, decimal.value⟩

/-! ### Hexadecimal -/

private theorem hexNumber?_append (ten : Char) (front : List Char) (c : Char) :
    hexNumber? ten (front ++ [c]) =
      (hexNumber? ten front).bind fun value => (hexDigit? ten c).map (16 * value + ·) := by
  rw [hexNumber?, List.foldlM_append, ← hexNumber?]
  rcases hexNumber? ten front with _ | value
  · rfl
  · rcases digit : hexDigit? ten c with _ | d <;> simp [digit]

/-- Nothing but digits is read. -/
theorem isSome_of_hexNumber? {ten : Char} {digits : List Char} {n : Nat}
    (read : hexNumber? ten digits = some n) : ∀ c ∈ digits, (hexDigit? ten c).isSome = true := by
  induction digits using List.reverseRecOn generalizing n with
  | nil => exact List.forall_mem_nil _
  | append_singleton front c ih =>
    rw [hexNumber?_append] at read
    obtain ⟨value, first, last⟩ := Option.bind_eq_some_iff.mp read
    intro c' member
    rcases List.mem_append.mp member with earlier | same
    · exact ih first c' earlier
    · obtain rfl := List.mem_singleton.mp same
      obtain ⟨d, digit, -⟩ := Option.map_eq_some_iff.mp last
      rw [digit]
      rfl

theorem not_mem_of_hexNumber? {ten c : Char} {digits : List Char} {n : Nat}
    (read : hexNumber? ten digits = some n) (other : hexDigit? ten c = none) : c ∉ digits := by
  intro member
  have digit := isSome_of_hexNumber? read c member
  rw [other] at digit
  cases digit

private theorem hexDigit?_zero (ten : Char) : hexDigit? ten '0' = some 0 :=
  if_pos (by decide)

section Case

variable {ten : Char} {case : Char → Char}
  (digit : ∀ d < 16, hexDigit? ten (case (Nat.digitChar d)) = some d)
include digit

private theorem hexNumber?_replicate (zeros : Nat) :
    hexNumber? ten ((List.replicate zeros '0').map case) = some 0 := by
  have zero : hexDigit? ten (case '0') = some 0 := digit 0 (by decide)
  induction zeros with
  | zero => rfl
  | succ zeros ih =>
    rw [List.replicate_succ', List.map_append, List.map_singleton, hexNumber?_append, ih, zero]
    rfl

/-- Digits of a number with zeros in front of them are read as that number. -/
private theorem hexNumber?_padded (zeros n : Nat) :
    hexNumber? ten ((List.replicate zeros '0' ++ Nat.toDigits 16 n).map case) = some n := by
  induction n using Nat.strongRecOn with
  | ind n ih =>
    rw [Nat.toDigits_eq_if (by decide)]
    split
    · next small =>
      rw [List.map_append, List.map_singleton, hexNumber?_append,
        hexNumber?_replicate digit, Option.bind_some, digit n small]
      simp
    · next large =>
      have front := ih (n / 16) (by omega)
      rw [← List.append_assoc, List.map_append, List.map_singleton, hexNumber?_append, front,
        Option.bind_some, digit (n % 16) (by omega), Option.map_some]
      congr 1
      omega

/-- Digits that are led by zeros up to a width have no more of them. -/
private theorem isHex_map {width : Nat} (pos : 0 < width) (n : Nat) :
    IsHex ten width ((hexDigits width n).map case) n where
  least := by
    rw [hexDigits, List.length_map, List.length_leftpad]
    exact Nat.le_max_left _ _
  unpadded := by
    intro long leading
    rw [hexDigits, List.length_map, List.length_leftpad] at long
    have whole : hexDigits width n = Nat.toDigits 16 n := by
      rw [hexDigits, List.leftpad, Nat.sub_eq_zero_of_le (by omega)]
      rfl
    have positive : 0 < n := by
      rcases Nat.eq_zero_or_pos n with rfl | positive
      · rw [Nat.toDigits_zero, List.length_singleton] at long
        omega
      · exact positive
    obtain ⟨d, nonzero, small, head⟩ := exists_head?_toDigits (show 1 < 16 by decide) positive
    rw [whole, List.head?_map, head] at leading
    have read := digit d small
    rw [Option.some.inj leading, hexDigit?_zero] at read
    exact nonzero.ne (Option.some.inj read)
  value := by
    rw [hexDigits, List.leftpad]
    exact hexNumber?_padded digit _ n

end Case

theorem isHex_hexDigits {width : Nat} (pos : 0 < width) (n : Nat) :
    IsHex 'a' width (hexDigits width n) n := by
  have digit (d : Nat) (small : d < 16) : hexDigit? 'a' (id (Nat.digitChar d)) = some d := by
    interval_cases d <;> rfl
  have written := isHex_map digit pos n
  rwa [List.map_id] at written

theorem isHex_upperHexDigits {width : Nat} (pos : 0 < width) (n : Nat) :
    IsHex 'A' width (upperHexDigits width n) n :=
  isHex_map (fun d small => by interval_cases d <;> rfl) pos n

/-- A byte takes up two hexadecimal digits. -/
theorem length_hexDigits_byte (byte : UInt8) : (hexDigits 2 byte.toNat).length = 2 := by
  have short : (Nat.toDigits 16 byte.toNat).length ≤ 2 :=
    (Nat.length_toDigits_le_iff (by decide) (by decide)).mpr byte.toNat_lt
  rw [hexDigits, List.length_leftpad]
  exact Nat.max_eq_left short

theorem length_upperHexDigits_byte (byte : UInt8) :
    (upperHexDigits 2 byte.toNat).length = 2 := by
  rw [upperHexDigits, List.length_map, length_hexDigits_byte]

end Numeral

end Mov8086
