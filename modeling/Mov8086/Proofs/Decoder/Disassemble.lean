import Mov8086.Decoder.Iteration
import Mov8086.Proofs.Decoder.Attempt

/-!
Whole buffers. The bytes of records laid end to end are read back as these records, and what stands
behind them settles whether the buffer is disassembled or at what it fails.
-/

set_option autoImplicit false

namespace Mov8086

open ByteStream

/-- The data are the bytes of well-formed records, one after another. -/
def Record.Spell (records : List Record) (data : List UInt8) : Prop :=
  (∀ r ∈ records, r.WellFormed) ∧ data = records.flatMap Record.encode

/-- The data are the bytes of the records and, behind them, bytes that a cycle fails on. -/
def Record.SpellUpTo (records : List Record) (rest data : List UInt8) (error : DecodeError) : Prop :=
  (∃ front, Spell records front ∧ data = front ++ rest) ∧ rest ≠ [] ∧
    (Cycle.instruction (ofBytes rest)).outcome = .error error

namespace Record

theorem spell_nil {data : List UInt8} : Spell [] data ↔ data = [] :=
  ⟨fun spell => spell.2, fun empty => ⟨List.forall_mem_nil _, empty⟩⟩

theorem spell_cons {r : Record} {records : List Record} {data : List UInt8} :
    Spell (r :: records) data ↔
      r.WellFormed ∧ ∃ later, Spell records later ∧ data = r.encode ++ later := by
  constructor
  · rintro ⟨wf, rfl⟩
    obtain ⟨here, behind⟩ := List.forall_mem_cons.mp wf
    exact ⟨here, _, ⟨behind, rfl⟩, List.flatMap_cons⟩
  · rintro ⟨here, _, ⟨behind, rfl⟩, rfl⟩
    exact ⟨List.forall_mem_cons.mpr ⟨here, behind⟩, List.flatMap_cons.symm⟩

private theorem stuck_ne_encode {rest later : List UInt8} {error : DecodeError} {r : Record}
    (wf : r.WellFormed) (stuck : (Cycle.record (ofBytes rest)).outcome = .error error) :
    rest ≠ r.encode ++ later := by
  rintro rfl
  rw [ofBytes_append, Cycle.record_encode wf] at stuck
  cases stuck

/-- Data are split in one way only into records and bytes that no record can be read from. -/
theorem spell_append_inj {records records' : List Record} {front front' rest rest' : List UInt8}
    {error error' : DecodeError} (spell : Spell records front) (spell' : Spell records' front')
    (same : front ++ rest = front' ++ rest')
    (stuck : (Cycle.record (ofBytes rest)).outcome = .error error)
    (stuck' : (Cycle.record (ofBytes rest')).outcome = .error error') :
    records = records' ∧ rest = rest' := by
  induction records generalizing records' front front' with
  | nil =>
    obtain rfl := spell_nil.mp spell
    cases records' with
    | nil =>
      obtain rfl := spell_nil.mp spell'
      exact ⟨rfl, same⟩
    | cons r' records' =>
      obtain ⟨wf', later', -, rfl⟩ := spell_cons.mp spell'
      rw [List.nil_append, List.append_assoc] at same
      exact absurd same (stuck_ne_encode wf' stuck)
  | cons r records ih =>
    obtain ⟨wf, later, spelled, rfl⟩ := spell_cons.mp spell
    cases records' with
    | nil =>
      obtain rfl := spell_nil.mp spell'
      rw [List.nil_append, List.append_assoc] at same
      exact absurd same.symm (stuck_ne_encode wf stuck')
    | cons r' records' =>
      obtain ⟨wf', later', spelled', rfl⟩ := spell_cons.mp spell'
      rw [List.append_assoc, List.append_assoc] at same
      have streams := congrArg ofBytes same
      rw [ofBytes_append r.encode, ofBytes_append r'.encode] at streams
      obtain ⟨rfl, behind⟩ := Cycle.encode_append_inj wf wf' streams
      obtain ⟨rfl, rest⟩ := ih spelled spelled' (ofBytes_inj.mp behind)
      exact ⟨rfl, rest⟩

/-- Every list of bytes begins with the bytes of some records, behind which no record can be read. -/
theorem exists_spell (data : List UInt8) :
    ∃ records front rest error, Spell records front ∧ data = front ++ rest ∧
      (Cycle.record (ofBytes rest)).outcome = .error error := by
  rcases outcome : (Cycle.record (ofBytes data)).outcome with error | r
  · exact ⟨[], [], data, error, spell_nil.mpr rfl, rfl, outcome⟩
  · obtain ⟨wf, split⟩ := Cycle.eq_encode_append_of_ok outcome
    obtain ⟨held, later, parts, same, -⟩ := List.map_eq_append_iff.mp split
    obtain rfl : held = r.encode := ofBytes_inj.mp same
    have shorter : later.length < data.length := by
      have some := (length_encode r).1
      rw [parts, List.length_append]
      omega
    obtain ⟨records, front, rest, error, spell, rfl, stuck⟩ := exists_spell later
    refine ⟨r :: records, r.encode ++ front, rest, error, ?_, ?_, stuck⟩
    · exact spell_cons.mpr ⟨wf, front, spell, rfl⟩
    · rw [parts, List.append_assoc]
termination_by data.length

end Record

namespace Decoder

/-- Behind the bytes of a record an attempt goes on with the item that they stand for. -/
theorem attempt_encode {r : Record} {i : Instruction} (wf : r.WellFormed)
    (known : r.instruction = .ok i) (rest : ByteStream) (position : Nat) :
    (attempt ⟨ofBytes r.encode ++ rest, position⟩).1.outcome = .ok ⟨position, r.encode, i⟩ ∧
      (attempt ⟨ofBytes r.encode ++ rest, position⟩).2 = ⟨rest, position + r.encode.length⟩ := by
  have ran := Cycle.record_encode wf rest
  have complete : (Cycle.record (ofBytes r.encode ++ rest)).outcome = .ok r := by rw [ran]
  constructor
  · exact found_iff.mpr ⟨r, complete, known, rfl, rfl⟩
  · have taken : Decoder.taken ⟨ofBytes r.encode ++ rest, position⟩ = ofBytes r.encode :=
      taken_of_record complete
    rw [attempt_eq, Cycle.rest_instruction, ran, taken, bytes_ofBytes]

/-- Collecting takes one record and adds the item that its bytes stand for. -/
theorem scan_collect_encode {r : Record} {i : Instruction} (wf : r.WellFormed)
    (known : r.instruction = .ok i) (rest : ByteStream) (position : Nat) (items : List Item) :
    scan collect.visit ⟨ofBytes r.encode ++ rest, position⟩ (.ok items) =
      scan collect.visit ⟨rest, position + r.encode.length⟩
        (.ok (⟨position, r.encode, i⟩ :: items)) := by
  obtain ⟨outcome, behind⟩ := attempt_encode wf known rest position
  have found : (attempt ⟨ofBytes r.encode ++ rest, position⟩).1.outcome ≠ .error .endOfInput := by
    rw [outcome]
    exact nofun
  rw [scan_of_found _ found, behind, collect.visit, outcome]

/-- Collecting goes through the bytes of any number of records. -/
theorem scan_collect_spell {records : List Record} {front : List UInt8}
    (spell : Record.Spell records front) (rest : List UInt8) (position : Nat) (items : List Item) :
    ∃ found : List Item, records.map Record.instruction = found.map (.ok ·.instruction) ∧
      scan collect.visit ⟨ofBytes (front ++ rest), position⟩ (.ok items) =
        scan collect.visit ⟨ofBytes rest, position + front.length⟩
          (.ok (found.reverse ++ items)) := by
  induction records generalizing front position items with
  | nil =>
    obtain rfl := Record.spell_nil.mp spell
    exact ⟨[], rfl, rfl⟩
  | cons r records ih =>
    obtain ⟨wf, later, spelled, rfl⟩ := Record.spell_cons.mp spell
    obtain ⟨i, known⟩ := Record.exists_instruction wf.codesFit
    let item : Item := ⟨position, r.encode, i⟩
    obtain ⟨found, same, scanned⟩ := ih spelled (position + r.encode.length) (item :: items)
    refine ⟨item :: found, ?_, ?_⟩
    · rw [List.map_cons, List.map_cons, same, known]
    · have first := scan_collect_encode wf known (ofBytes (later ++ rest)) position items
      rw [← ofBytes_append, ← List.append_assoc] at first
      rw [first, scanned, List.reverse_cons, List.append_assoc, List.length_append, Nat.add_assoc]
      rfl

end Decoder

open Record Decoder

theorem disassemble_eq_scan (data : List UInt8) :
    disassemble data =
      ((scan collect.visit ⟨ofBytes data, 0⟩ (.ok [])).1.map List.reverse).map
        (·.map (·.instruction)) := rfl

/-- Bytes of records alone are disassembled to what the records stand for. -/
theorem disassemble_spell {records : List Record} {data : List UInt8} (spell : Spell records data) :
    ∃ instructions, disassemble data = .ok instructions ∧
      records.map Record.instruction = instructions.map .ok := by
  obtain ⟨found, same, scanned⟩ := scan_collect_spell spell [] 0 []
  refine ⟨found.map (·.instruction), ?_, ?_⟩
  · have ended : (attempt ⟨ofBytes [], 0 + data.length⟩).1.outcome = .error .endOfInput :=
      failed_iff.mpr (Cycle.endOfInput_ofBytes_iff.mpr rfl)
    rw [scan_of_end _ ended, List.append_nil, List.append_nil] at scanned
    rw [disassemble_eq_scan, scanned]
    simp only [Except.map, List.reverse_reverse]
  · rw [same, List.map_map]
    rfl

/-- Disassembling fails as a cycle does on what stands behind the bytes of records. -/
theorem disassemble_spellUpTo {records : List Record} {rest data : List UInt8} {error : DecodeError}
    (spell : SpellUpTo records rest data error) : disassemble data = .error error := by
  obtain ⟨⟨front, spell, rfl⟩, some, failed⟩ := spell
  have stuck := Cycle.instruction_eq_error_iff.mp failed
  obtain ⟨found, -, scanned⟩ := scan_collect_spell spell rest 0 []
  have outcome : (attempt ⟨ofBytes rest, 0 + front.length⟩).1.outcome = .error error :=
    failed_iff.mpr stuck
  have going : (attempt ⟨ofBytes rest, 0 + front.length⟩).1.outcome ≠ .error .endOfInput := by
    intro ended
    exact some (Cycle.endOfInput_ofBytes_iff.mp (failed_iff.mp ended))
  rw [scan_of_found _ going, collect.visit, outcome] at scanned
  rw [disassemble_eq_scan, scanned]
  rfl

theorem spell_or_spellUpTo (data : List UInt8) :
    (∃ records, Spell records data) ∨
      ∃ records rest error, SpellUpTo records rest data error := by
  obtain ⟨records, front, rest, error, spell, rfl, stuck⟩ := exists_spell data
  by_cases nothing : rest = []
  · left
    rw [nothing, List.append_nil]
    exact ⟨records, spell⟩
  · right
    exact ⟨records, rest, error, ⟨front, spell, rfl⟩, nothing,
      Cycle.instruction_eq_error_iff.mpr stuck⟩

theorem disassemble_eq_ok_iff {data : List UInt8} {instructions : List Instruction} :
    disassemble data = .ok instructions ↔
      ∃ records, Spell records data ∧ records.map Record.instruction = instructions.map .ok := by
  constructor
  · intro complete
    rcases spell_or_spellUpTo data with ⟨records, spell⟩ | ⟨records, rest, error, spell⟩
    · obtain ⟨instructions', outcome, same⟩ := disassemble_spell spell
      cases complete.symm.trans outcome
      exact ⟨records, spell, same⟩
    · cases complete.symm.trans (disassemble_spellUpTo spell)
  · rintro ⟨records, spell, same⟩
    obtain ⟨instructions', outcome, same'⟩ := disassemble_spell spell
    have agree : instructions = instructions' :=
      (List.map_inj_right fun _ _ => Except.ok.inj).mp (same.symm.trans same')
    rw [outcome, agree]

/-- The bytes of one record are disassembled to the one instruction that it stands for. -/
theorem disassemble_encode {r : Record} {i : Instruction} (wf : r.WellFormed)
    (known : r.instruction = .ok i) : disassemble r.encode = .ok [i] := by
  have spell : Spell [r] r.encode :=
    spell_cons.mpr ⟨wf, [], spell_nil.mpr rfl, (List.append_nil _).symm⟩
  refine disassemble_eq_ok_iff.mpr ⟨[r], spell, ?_⟩
  rw [List.map_singleton, known]
  rfl

theorem disassemble_eq_error_iff {data : List UInt8} {error : DecodeError} :
    disassemble data = .error error ↔ ∃ records rest, SpellUpTo records rest data error := by
  constructor
  · intro failed
    rcases spell_or_spellUpTo data with ⟨records, spell⟩ | ⟨records, rest, error', spell⟩
    · obtain ⟨instructions, outcome, -⟩ := disassemble_spell spell
      cases failed.symm.trans outcome
    · cases failed.symm.trans (disassemble_spellUpTo spell)
      exact ⟨records, rest, spell⟩
  · rintro ⟨records, rest, spell⟩
    exact disassemble_spellUpTo spell

/-- Disassembling succeeds exactly on the bytes of records, which are those of one list of records
only, with what these stand for. On other data it fails as a cycle does on the bytes that stand
behind such a list, and the data are split so in one way only. -/
theorem disassemble_exact (data : List UInt8) :
    (∀ instructions, disassemble data = .ok instructions ↔
      ∃ records, Spell records data ∧ records.map Record.instruction = instructions.map .ok) ∧
    (∀ records records', Spell records data → Spell records' data → records = records') ∧
    (∀ error, disassemble data = .error error ↔
      ∃ records rest, SpellUpTo records rest data error) ∧
    (∀ records records' rest rest' error error', SpellUpTo records rest data error →
      SpellUpTo records' rest' data error' → records = records' ∧ rest = rest') ∧
    ∀ error, disassemble data = .error error →
      error = .truncated ∨ ∃ value, error = .unrecognized value := by
  refine ⟨fun _ => disassemble_eq_ok_iff, ?_, fun _ => disassemble_eq_error_iff, ?_, ?_⟩
  · intro records records' spell spell'
    have stuck : (Cycle.record (ofBytes [])).outcome = .error .endOfInput :=
      Cycle.endOfInput_ofBytes_iff.mpr rfl
    exact (spell_append_inj spell spell' rfl stuck stuck).1
  · rintro records records' rest rest' error error' ⟨⟨front, spell, held⟩, -, failed⟩
      ⟨⟨front', spell', held'⟩, -, failed'⟩
    exact spell_append_inj spell spell' (held.symm.trans held')
      (Cycle.instruction_eq_error_iff.mp failed) (Cycle.instruction_eq_error_iff.mp failed')
  · intro error failed
    obtain ⟨records, rest, -, some, failed⟩ := disassemble_eq_error_iff.mp failed
    have stuck := Cycle.instruction_eq_error_iff.mp failed
    cases error with
    | endOfInput => exact absurd (Cycle.endOfInput_ofBytes_iff.mp stuck) some
    | truncated => exact .inl rfl
    | unrecognized value => exact .inr ⟨value, rfl⟩
    | fault cause => exact absurd stuck (Cycle.outcome_ne_fault _ cause)

/-- One move, and the same move with an op code behind it that breaks off. -/
theorem disassemble_exact_broken :
    disassemble [0xB1, 7] = .ok [⟨.register .clCx .byte, .immediate 7⟩] ∧
      disassemble [0xB1, 7, 0x88] = .error .truncated := by
  let r : Record := ⟨.byte, 1, .immediate 7⟩
  have spell : Spell [r] [0xB1, 7] := ⟨by decide, by decide⟩
  constructor
  · exact ((disassemble_exact [0xB1, 7]).1 _).mpr ⟨[r], spell, rfl⟩
  · have broken : Cycle.Broken [0x88] :=
      ⟨by decide, ⟨.byte, 0, .registerOrMemory false ⟨.register, 0⟩ none⟩, by decide, by decide,
        by decide⟩
    have failed : (Cycle.instruction (ofBytes [0x88])).outcome = .error .truncated :=
      Cycle.instruction_eq_error_iff.mpr (Cycle.truncated_iff.mpr broken)
    exact ((disassemble_exact [0xB1, 7, 0x88]).2.2.1 _).mpr
      ⟨[r], [0x88], ⟨[0xB1, 7], spell, rfl⟩, by decide, failed⟩

end Mov8086
