import Mov8086.Log
import Mov8086.Log.Reader
import Mov8086.Proofs.Operand
import Mov8086.Proofs.TextReader

/-!
Logs read back. The reader of logs recovers from each line all that it shows, so what two lines show
can be compared, whatever texts they were made of.
-/

set_option autoImplicit false

namespace Mov8086

namespace LogLine

open TextReader

/-! ### Fields -/

theorem not_mem_decimal {c : Char} (letter : c.isDigit = false) (n : Nat) :
    c ∉ (Numeral.decimal n).toList := by
  intro member
  have digit := (Operand.isDecimal_decimal n).isDigit c member
  rw [letter] at digit
  cases digit

theorem byte?_decimal (byte : UInt8) : byte? (Numeral.decimal byte.toNat).toList = some byte := by
  have read : Operand.boundedDecimal? 0 255 (Numeral.decimal byte.toNat).toList = some byte.toNat :=
    Operand.boundedDecimal?_eq_some_iff.mpr ⟨rfl, Nat.zero_le _, Nat.le_of_lt_succ byte.toNat_lt⟩
  rw [byte?, read, Option.map_some, UInt8.ofNat_toNat]

theorem word?_decimal (word : UInt16) : word? (Numeral.decimal word.toNat).toList = some word := by
  have read :
      Operand.boundedDecimal? 0 65535 (Numeral.decimal word.toNat).toList = some word.toNat :=
    Operand.boundedDecimal?_eq_some_iff.mpr ⟨rfl, Nat.zero_le _, Nat.le_of_lt_succ word.toNat_lt⟩
  rw [word?, read, Option.map_some, UInt16.ofNat_toNat]

theorem displacement?_signedDecimal (d : Int16) :
    displacement? (Numeral.signedDecimal d.toInt).toList = some d := by
  have least := d.le_toInt
  have greatest := d.toInt_lt
  by_cases negative : d.toInt < 0
  · have read : Operand.boundedDecimal? 1 32768 (Numeral.decimal d.toInt.natAbs).toList =
        some d.toInt.natAbs := Operand.boundedDecimal?_eq_some_iff.mpr ⟨rfl, by omega, by omega⟩
    have value : -(d.toInt.natAbs : Int) = d.toInt := by omega
    rw [Numeral.signedDecimal, if_pos negative, String.toList_append]
    change (Operand.boundedDecimal? 1 32768 (Numeral.decimal d.toInt.natAbs).toList).map _ = _
    rw [read, Option.map_some, value, Int16.ofInt_toInt]
  · have read : Operand.boundedDecimal? 0 32767 (Numeral.decimal d.toInt.natAbs).toList =
        some d.toInt.natAbs := Operand.boundedDecimal?_eq_some_iff.mpr ⟨rfl, by omega, by omega⟩
    have value : (d.toInt.natAbs : Int) = d.toInt := by omega
    have unsigned : '-' ∉ (Numeral.decimal d.toInt.natAbs).toList := not_mem_decimal rfl _
    rw [Numeral.signedDecimal, if_neg negative]
    unfold displacement?
    split
    next digits held =>
      rw [held] at unsigned
      exact absurd List.mem_cons_self unsigned
    next => rw [read, Option.map_some, value, Int16.ofInt_toInt]

theorem not_mem_signedDecimal {c : Char} (letter : c.isDigit = false) (other : c ≠ '-') (z : Int) :
    c ∉ (Numeral.signedDecimal z).toList := by
  have free := not_mem_decimal letter z.natAbs
  rw [Numeral.signedDecimal]
  split
  · rw [String.toList_append, List.mem_append, not_or]
    exact ⟨by simpa using other, free⟩
  · exact free

theorem hexByte?_hex (byte : UInt8) : hexByte? (Numeral.hex 2 byte.toNat).toList = some byte := by
  have written := Numeral.isHex_hexDigits (show 0 < 2 by decide) byte.toNat
  have read : Numeral.hex? (Numeral.hexDigits 2 byte.toNat) = some byte.toNat := written.value
  rw [hexByte?, Numeral.hex, String.toList_ofList, if_pos (Numeral.length_hexDigits_byte byte), read,
    Option.map_some, UInt8.ofNat_toNat]

theorem offset?_hex (offset : Nat) : offset? (Numeral.hex 4 offset).toList = some offset := by
  have written := Numeral.isHex_hexDigits (show 0 < 4 by decide) offset
  rw [offset?, Numeral.hex, String.toList_ofList, if_pos written.least]
  exact written.value

theorem not_mem_hex {c : Char} (other : Numeral.hexDigit? 'a' c = none) {width : Nat}
    (pos : 0 < width) (n : Nat) : c ∉ (Numeral.hex width n).toList := by
  rw [Numeral.hex, String.toList_ofList]
  exact Numeral.not_mem_of_hexNumber? (Numeral.isHex_hexDigits pos n).value other

theorem width?_label (width : Width) : width? width.label.toList = some width := by
  cases width <;> decide

theorem flag?_toString (flag : Bool) : flag? (toString flag).toList = some flag := by
  cases flag <;> decide

theorem family?_label (family : Family) : family? family.label.toList = some family := by
  cases family <;> decide

theorem mode?_label (mode : Mode) : mode? mode.label.toList = some mode := by
  cases mode <;> decide

theorem quoted?_append (text : String) : quoted? (text ++ "\"").toList = some text := by
  have closed : "\"".toList.isSuffixOf? (text.toList ++ "\"".toList) = some text.toList := by
    rw [List.isSuffixOf?, List.reverse_append,
      List.isPrefixOf?_eq_some_iff_append_eq.mpr (Eq.refl _), Option.map_some, List.reverse_reverse]
  rw [quoted?, String.toList_append, closed, Option.map_some, String.ofList_toList]

/-! ### Messages -/

theorem takes_opCode (code : OpCode) (rest : List Char) :
    opCode.Takes (Event.opCodeText code) rest code := by
  cases code with
  | immediate width reg =>
    have heading : Family.immediate.label ++ " \x7b operand_size: " =
        "ImmediateToRegister \x7b operand_size: " := by decide
    unfold Event.opCodeText
    simp only [heading, String.append_assoc]
    refine Takes.choose (Takes.upTo rfl (width?_label width) (by cases width <;> decide) ?_)
    exact (takes_upTo rfl (byte?_decimal reg) (not_mem_decimal rfl _)).pure rfl
  | registerOrMemory toRegister width =>
    have heading : Family.registerOrMemory.label ++ " \x7b reg_is_destination: " =
        "RegisterOrMemoryToRegister \x7b reg_is_destination: " := by decide
    unfold Event.opCodeText
    simp only [heading, String.append_assoc]
    refine Takes.choose_tail (fun _ => rfl) (Takes.choose ?_)
    refine Takes.upTo rfl (flag?_toString toRegister) (by cases toRegister <;> decide) ?_
    exact (takes_upTo rfl (width?_label width) (by cases width <;> decide)).pure rfl

theorem takes_modRm (m : ModRm) (rest : List Char) : modRm.Takes (Event.modRmText m) rest m := by
  unfold Event.modRmText
  simp only [String.append_assoc]
  refine (takes_exactly _ _).bind ?_
  refine Takes.upTo rfl (mode?_label m.mode) (by cases m.mode <;> decide) ?_
  exact (takes_upTo rfl (byte?_decimal m.rm) (not_mem_decimal rfl _)).pure rfl

theorem takes_displacement (d : Option Int16) (rest : List Char) :
    displacement.Takes (Event.displacementText d) rest d := by
  cases d with
  | none => exact Takes.of_append_empty (Takes.choose rfl)
  | some d =>
    unfold Event.displacementText
    simp only [String.append_assoc]
    refine Takes.choose_tail (fun _ => rfl) (Takes.choose ?_)
    have free : ')' ∉ (Numeral.signedDecimal d.toInt).toList :=
      not_mem_signedDecimal rfl (by decide) d.toInt
    exact (takes_upTo rfl (displacement?_signedDecimal d) free).pure rfl

theorem takes_form (f : Form) (rest : List Char) : form.Takes (Event.formText f) rest f := by
  cases f with
  | registerOrMemory toRegister m d =>
    unfold Event.formText
    simp only [String.append_assoc]
    refine Takes.choose ?_
    refine Takes.upTo rfl (flag?_toString toRegister) (by cases toRegister <;> decide) ?_
    refine (takes_modRm m _).bind ((takes_exactly _ _).bind ((takes_displacement d _).bind ?_))
    exact (takes_exactly _ _).pure rfl
  | immediate value =>
    unfold Event.formText
    simp only [String.append_assoc]
    refine Takes.choose_tail (fun _ => rfl) (Takes.choose ?_)
    exact (takes_upTo rfl (word?_decimal value) (not_mem_decimal rfl _)).pure rfl

theorem takes_record (r : Record) (rest : List Char) :
    record.Takes (Event.recordText r) rest r := by
  unfold Event.recordText
  simp only [String.append_assoc]
  refine (takes_exactly _ _).bind ?_
  refine Takes.upTo rfl (width?_label r.width) (by cases r.width <;> decide) ?_
  refine Takes.upTo rfl (byte?_decimal r.reg) (not_mem_decimal rfl _) ?_
  refine (takes_form r.form _).bind ?_
  exact (takes_exactly _ _).pure rfl

/-- The message of an error is read back, unless the error is a fault. -/
theorem takes_error {e : DecodeError} (sound : ∀ cause, e ≠ .fault cause) (rest : List Char) :
    error.Takes e.message rest e := by
  cases e with
  | endOfInput => exact Takes.of_append_empty (Takes.choose rfl)
  | truncated =>
    exact Takes.of_append_empty (Takes.choose_tail (fun _ => rfl) (Takes.choose rfl))
  | unrecognized value =>
    unfold DecodeError.message
    simp only [String.append_assoc]
    refine Takes.choose_tail (fun _ => rfl) (Takes.choose_tail (fun _ => rfl) (Takes.choose ?_))
    exact (takes_upTo rfl (hexByte?_hex value) (not_mem_hex rfl (by decide) _)).pure rfl
  | fault cause => exact absurd rfl (sound cause)

/-! ### Lines -/

/-- What the line of a notice shows. -/
def ofNotice : Notice → LogLine
  | .loaded size path => loaded size path
  | .skipped byte offset => skipped byte offset
  | .cycle (.classified byte code) => classified byte code
  | .cycle (.decoded r i) => decoded r r.family i.text
  | .cycle (.failed error) => failed error

theorem ofLine?_loaded (size : Nat) (path : String) :
    ofLine? (Notice.loaded size path).line = some (loaded size path) := by
  have heading : Level.info.label ++ " " ++ "sim86_dis" ++ ": " ++ "loaded " =
      "INFO sim86_dis: loaded " := by decide
  have text : (Notice.loaded size path).line =
      "INFO sim86_dis: loaded " ++ (Numeral.decimal size ++ (" bytes from " ++ path)) := by
    unfold Notice.line Notice.message
    simp only [Notice.level, Notice.target, ← heading, String.append_assoc]
  have digits : Numeral.decimal? (Numeral.decimal size).toList = some size :=
    Numeral.decimal?_eq_some_iff.mpr (Operand.isDecimal_decimal size)
  have read : some (String.ofList path.toList) = some path := by rw [String.ofList_toList]
  rw [text]
  refine Takes.whole?_eq (Takes.choose (Takes.upTo rfl digits (not_mem_decimal rfl _) ?_))
  exact (takes_toEnd read).pure rfl

theorem ofLine?_skipped (byte : UInt8) (offset : Nat) :
    ofLine? (Notice.skipped byte offset).line = some (skipped byte offset) := by
  have heading : Level.warn.label ++ " " ++ "sim86_dis" ++ ": " ++ "unrecognized op code 0x" =
      "WARN sim86_dis: unrecognized op code 0x" := by decide
  have text : (Notice.skipped byte offset).line =
      "WARN sim86_dis: unrecognized op code 0x" ++
        (Numeral.hex 2 byte.toNat ++ (" at 0x" ++ Numeral.hex 4 offset)) := by
    unfold Notice.line Notice.message
    simp only [Notice.level, Notice.target, ← heading, String.append_assoc]
  rw [text]
  refine Takes.whole?_eq (Takes.choose_tail (fun _ => rfl) (Takes.choose ?_))
  refine Takes.upTo rfl (hexByte?_hex byte) (not_mem_hex rfl (by decide) _) ?_
  exact (takes_toEnd (offset?_hex offset)).pure rfl

theorem takes_classified (byte : UInt8) (code : OpCode) :
    cycle.Takes (Event.classified byte code).message [] (classified byte code) := by
  unfold Event.message
  simp only [String.append_assoc]
  refine Takes.choose (Takes.upTo rfl (hexByte?_hex byte) (not_mem_hex rfl (by decide) _) ?_)
  exact (takes_opCode code []).pure rfl

theorem takes_decoded (r : Record) (i : Instruction) :
    cycle.Takes (Event.decoded r i).message [] (decoded r r.family i.text) := by
  unfold Event.message
  simp only [String.append_assoc]
  refine Takes.choose_tail (fun _ => rfl) (Takes.choose ?_)
  refine (takes_record r _).bind ((takes_exactly _ _).bind ?_)
  refine Takes.upTo rfl (family?_label r.family) (by cases r.family <;> decide) ?_
  exact (takes_toEnd (quoted?_append i.text)).pure rfl

theorem takes_failed {e : DecodeError} (sound : ∀ cause, e ≠ .fault cause) :
    cycle.Takes (Event.failed e).message [] (failed e) := by
  unfold Event.message
  refine Takes.choose_tail (fun _ => rfl) (Takes.choose_tail (fun _ => rfl) (Takes.choose ?_))
  exact (takes_error sound []).pure rfl

theorem ofLine?_cycle {event : Event} {read : LogLine}
    (takes : cycle.Takes event.message [] read) :
    ofLine? (Notice.cycle event).line = some read := by
  have heading : Level.debug.label ++ " " ++ "sim86_decoder::decode" ++ ": " =
      "DEBUG sim86_decoder::decode: " := by decide
  have text : (Notice.cycle event).line = "DEBUG sim86_decoder::decode: " ++ event.message := by
    rw [← heading]
    rfl
  rw [text]
  exact Takes.whole?_eq
    (Takes.choose_tail (fun _ => rfl) (Takes.choose_tail (fun _ => rfl) (Takes.choose takes)))

/-- Each line of a log is read back as what its notice shows, unless it says that a code had no
meaning. -/
theorem ofLine?_line {notice : Notice}
    (sound : ∀ cause, notice ≠ .cycle (.failed (.fault cause))) :
    ofLine? notice.line = some (ofNotice notice) := by
  cases notice with
  | loaded size path => exact ofLine?_loaded size path
  | skipped byte offset => exact ofLine?_skipped byte offset
  | cycle event =>
    apply ofLine?_cycle
    cases event with
    | classified byte code => exact takes_classified byte code
    | decoded r i => exact takes_decoded r i
    | failed e =>
      apply takes_failed
      rintro cause rfl
      exact sound cause rfl

example : ofLine? "WARN sim86_dis: unrecognized op code 0x90 at 0x0002" =
    some (skipped 0x90 2) := by
  decide

end LogLine

end Mov8086
