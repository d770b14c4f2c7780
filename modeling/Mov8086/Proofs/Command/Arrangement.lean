import Mathlib.Data.List.Induction
import Mov8086.Command.Options

/-!
How the arguments of a command line may be arranged. One of them can decide it while it is read, and
then nothing behind counts. Where none does, neither their order counts nor how the flags are spelled,
unless there is a `--`, behind which they are no flags.
-/

set_option autoImplicit false

namespace Mov8086.Command

/-- What is found while the arguments are read. What is missing or repeated shows at their end. -/
inductive Refusal.WhileReading : Refusal → Prop where
  | helpWanted : WhileReading .helpWanted
  | versionWanted : WhileReading .versionWanted
  | unknownArgument (shown : String) : WhileReading (.usage (.unknownArgument shown))

/-! ### Reading tokens -/

namespace Tally

theorem whileReading_of_read {tally : Tally} {token : Token} {refusal : Refusal}
    (refused : tally.read token = .error refusal) : refusal.WhileReading := by
  rcases token with flag | text | shown
  · cases flag with
    | help => cases refused; exact .helpWanted
    | version => cases refused; exact .versionWanted
    | _ => cases refused
  · obtain ⟨_ | _, _, _, _, _⟩ := tally
    · cases refused
    · cases refused
      exact .unknownArgument text
  · cases refused
    exact .unknownArgument shown

theorem whileReading_of_foldlM {tokens : List Token} {tally : Tally} {refusal : Refusal}
    (refused : tokens.foldlM read tally = .error refusal) : refusal.WhileReading := by
  induction tokens generalizing tally with
  | nil => cases refused
  | cons token tokens ih =>
    rw [List.foldlM_cons] at refused
    rcases first : tally.read token with refusal' | next
    · rw [first] at refused
      cases refused
      exact whileReading_of_read first
    · rw [first] at refused
      exact ih refused

/-- At the end of the arguments there is nothing to find but a missing file or a repeated flag. -/
theorem settle_cases (tally : Tally) :
    (∃ options, tally.settle = .ok options) ∨ tally.settle = .error (.usage .missingBinary) ∨
      ∃ flag, tally.settle = .error (.usage (.repeatedFlag flag)) := by
  obtain ⟨_ | binary, listing, keepGoing, noHeader, verbose⟩ := tally
  · exact .inr (.inl rfl)
  · simp only [settle]
    split
    · exact .inr (.inr ⟨_, rfl⟩)
    split
    · exact .inr (.inr ⟨_, rfl⟩)
    split
    · exact .inr (.inr ⟨_, rfl⟩)
    · exact .inl ⟨_, rfl⟩

theorem settle_ne_error {refusal : Refusal} (reading : refusal.WhileReading) (tally : Tally) :
    tally.settle ≠ .error refusal := by
  intro refused
  obtain ⟨_, settled⟩ | settled | ⟨_, settled⟩ := settle_cases tally
  · cases settled.symm.trans refused
  · cases settled.symm.trans refused
    cases reading
  · cases settled.symm.trans refused
    cases reading

theorem foldlM_cons_eq_ok_iff {token : Token} {tokens : List Token} {tally last : Tally} :
    (token :: tokens).foldlM read tally = .ok last ↔
      ∃ next, tally.read token = .ok next ∧ tokens.foldlM read next = .ok last := by
  rw [List.foldlM_cons]
  rcases tally.read token with refusal | next
  · constructor
    · rintro ⟨⟩
    · rintro ⟨_, ⟨⟩, _⟩
  · constructor
    · exact fun accepted => ⟨next, rfl, accepted⟩
    · rintro ⟨_, ⟨⟩, accepted⟩
      exact accepted

/-- Two tokens that are accepted one behind the other are accepted the other way round. -/
theorem read_comm {tally next last : Tally} {token token' : Token}
    (accepted : tally.read token = .ok next) (accepted' : next.read token' = .ok last) :
    ∃ next', tally.read token' = .ok next' ∧ next'.read token = .ok last := by
  obtain ⟨binary, listing, keepGoing, noHeader, verbose⟩ := tally
  rcases token with flag | text | shown
  · rcases token' with flag' | text' | shown'
    · cases flag <;> cases accepted <;> cases flag' <;> cases accepted' <;> exact ⟨_, rfl, rfl⟩
    · cases binary <;> cases flag <;> cases accepted <;> cases accepted' <;> exact ⟨_, rfl, rfl⟩
    · cases accepted'
  -- An operand is only accepted when none is there, so the second token is none.
  · rcases binary with _ | binary
    · cases accepted
      rcases token' with flag' | text' | shown'
      · cases flag' <;> cases accepted' <;> exact ⟨_, rfl, rfl⟩
      · cases accepted'
      · cases accepted'
    · cases accepted
  · cases accepted

/-- Tokens that are all accepted are accepted in any order, with the same tally. -/
theorem foldlM_perm {tokens tokens' : List Token} (perm : tokens.Perm tokens') {tally last : Tally}
    (accepted : tokens.foldlM read tally = .ok last) : tokens'.foldlM read tally = .ok last := by
  induction perm generalizing tally with
  | nil => exact accepted
  | cons token _ ih =>
    obtain ⟨next, first, later⟩ := foldlM_cons_eq_ok_iff.mp accepted
    exact foldlM_cons_eq_ok_iff.mpr ⟨next, first, ih later⟩
  | swap token token' tokens =>
    obtain ⟨next, first, behind⟩ := foldlM_cons_eq_ok_iff.mp accepted
    obtain ⟨both, second, later⟩ := foldlM_cons_eq_ok_iff.mp behind
    obtain ⟨next', first', second'⟩ := read_comm first second
    exact foldlM_cons_eq_ok_iff.mpr ⟨next', first', foldlM_cons_eq_ok_iff.mpr ⟨both, second', later⟩⟩
  | trans _ _ ih ih' => exact ih' (ih accepted)

end Tally

/-! ### Spelling flags -/

/-- Short flags that are joined behind one dash. -/
def joined (letters : List Char) : String :=
  String.ofList ('-' :: letters)

/-- The long form of a flag, with a value or without. -/
def Flag.long (flag : Flag) : Option String → String
  | none => "--" ++ flag.name
  | some value => "--" ++ flag.name ++ "=" ++ value

/-- Two ways to spell the same flags: short flags in one group or in two, and a short flag or its
long form. -/
inductive Respelled : List String → List String → Prop where
  | regrouped {letters letters' : List Char} (filled : letters ≠ []) (filled' : letters' ≠ [])
      (known : ∀ letter ∈ letters ++ letters', Flag.ofLetter? letter ≠ none) :
      Respelled [joined (letters ++ letters')] [joined letters, joined letters']
  | exchanged {letter : Char} {flag : Flag} (known : Flag.ofLetter? letter = some flag)
      (value : Option String) : Respelled [joined [letter]] [flag.long value]

/-- The same arguments but for their order and for the way that flags are spelled. -/
inductive Rearranged : List String → List String → Prop where
  | reordered {arguments arguments' : List String} (perm : arguments.Perm arguments') :
      Rearranged arguments arguments'
  | respelled {here there : List String} (same : Respelled here there)
      (front back : List String) : Rearranged (front ++ here ++ back) (front ++ there ++ back)
  | symm {arguments arguments' : List String} (same : Rearranged arguments arguments') :
      Rearranged arguments' arguments
  | trans {arguments arguments' arguments'' : List String} (same : Rearranged arguments arguments')
      (same' : Rearranged arguments' arguments'') : Rearranged arguments arguments''

namespace Token

theorem ofArguments_append (front later : List String) :
    ∃ tokens, ofArguments (front ++ later) = ofArguments front ++ tokens := by
  induction front with
  | nil => exact ⟨ofArguments later, rfl⟩
  | cons argument front ih =>
    obtain ⟨tokens, behind⟩ := ih
    rw [List.cons_append, ofArguments, ofArguments]
    split
    · exact ⟨later.map operand, List.map_append⟩
    · exact ⟨tokens, by rw [behind, List.append_assoc]⟩

theorem ofArguments_eq_flatMap {arguments : List String} (flags : "--" ∉ arguments) :
    ofArguments arguments = arguments.flatMap ofArgument := by
  induction arguments with
  | nil => rfl
  | cons argument rest ih =>
    have here : argument ≠ "--" := (List.ne_of_not_mem_cons flags).symm
    rw [ofArguments, if_neg here, ih (List.not_mem_of_not_mem_cons flags), List.flatMap_cons]

theorem ofArgument_joined {letters : List Char} (filled : letters ≠ [])
    (known : ∀ letter ∈ letters, Flag.ofLetter? letter ≠ none) :
    ofArgument (joined letters) = letters.map ofLetter := by
  obtain ⟨letter, letters, rfl⟩ := List.exists_cons_of_ne_nil filled
  have short : letter ≠ '-' := by
    rintro rfl
    exact known _ List.mem_cons_self rfl
  rw [ofArgument, joined, String.toList_ofList]
  split
  next same =>
    cases same
    exact absurd rfl short
  next same =>
    cases same
    rfl
  next other => exact absurd rfl (other letter letters)

theorem ofArgument_long (flag : Flag) (value : Option String) :
    ofArgument (flag.long value) = [.flag flag] := by
  rcases value with _ | value
  · cases flag <;> decide
  · have spelled : (flag.long (some value)).toList =
        '-' :: '-' :: (flag.name.toList ++ '=' :: value.toList) := by
      have dashes : "--".toList = ['-', '-'] := by decide
      have sign : "=".toList = ['='] := by decide
      simp only [Flag.long, String.toList_append, dashes, sign, List.append_assoc]
      rfl
    have name : ofLongName (flag.name.toList ++ '=' :: value.toList) = .flag flag := by
      cases flag <;> rfl
    rw [ofArgument, spelled]
    exact congrArg ([·]) name

end Token

theorem joined_ne {letters : List Char}
    (known : ∀ letter ∈ letters, Flag.ofLetter? letter ≠ none) : joined letters ≠ "--" := by
  intro same
  have spelled : '-' :: letters = ['-', '-'] := by
    have dashes : "--".toList = ['-', '-'] := by decide
    rw [← dashes, ← same, joined, String.toList_ofList]
  obtain rfl : letters = ['-'] := (List.cons.inj spelled).2
  exact known '-' (List.mem_singleton_self _) rfl

theorem known_singleton {letter : Char} {flag : Flag} (known : Flag.ofLetter? letter = some flag) :
    ∀ letter' ∈ [letter], Flag.ofLetter? letter' ≠ none := by
  intro letter' among
  rw [List.mem_singleton.mp among, known]
  exact Option.some_ne_none flag

theorem Flag.long_ne (flag : Flag) (value : Option String) : flag.long value ≠ "--" := by
  intro same
  have token := Token.ofArgument_long flag value
  rw [same] at token
  cases token

namespace Respelled

variable {here there : List String}

theorem tokens_eq (same : Respelled here there) :
    here.flatMap Token.ofArgument = there.flatMap Token.ofArgument := by
  cases same with
  | @regrouped letters letters' filled filled' known =>
    obtain ⟨one, other⟩ := List.forall_mem_append.mp known
    have nonempty : letters ++ letters' ≠ [] := List.append_ne_nil_of_left_ne_nil filled letters'
    simp only [List.flatMap_cons, List.flatMap_nil, List.append_nil,
      Token.ofArgument_joined nonempty known, Token.ofArgument_joined filled one,
      Token.ofArgument_joined filled' other, List.map_append]
  | @exchanged letter flag known value =>
    have short := Token.ofArgument_joined (List.cons_ne_nil letter []) (known_singleton known)
    rw [List.flatMap_singleton, List.flatMap_singleton, short, Token.ofArgument_long,
      List.map_singleton, Token.ofLetter, known]

theorem not_mem (same : Respelled here there) : "--" ∉ here ∧ "--" ∉ there := by
  cases same with
  | regrouped filled filled' known =>
    obtain ⟨one, other⟩ := List.forall_mem_append.mp known
    simp [(joined_ne known).symm, (joined_ne one).symm, (joined_ne other).symm]
  | @exchanged letter flag known value =>
    simp [(joined_ne (known_singleton known)).symm, (flag.long_ne value).symm]

end Respelled

namespace Rearranged

variable {arguments arguments' : List String}

theorem mem_iff (same : Rearranged arguments arguments') :
    "--" ∈ arguments ↔ "--" ∈ arguments' := by
  induction same with
  | reordered perm => exact perm.mem_iff
  | respelled same front back =>
    simp only [List.mem_append, same.not_mem.1, same.not_mem.2]
  | symm _ ih => exact ih.symm
  | trans _ _ ih ih' => exact ih.trans ih'

theorem perm_tokens (same : Rearranged arguments arguments') :
    (arguments.flatMap Token.ofArgument).Perm (arguments'.flatMap Token.ofArgument) := by
  induction same with
  | reordered perm => exact perm.flatMap_right _
  | respelled same front back =>
    simp only [List.flatMap_append, same.tokens_eq]
    exact .refl _
  | symm _ ih => exact ih.symm
  | trans _ _ ih ih' => exact ih.trans ih'

end Rearranged

/-! ### What decides a command line -/

namespace Options

/-- Whether the arguments can all be read. -/
def Undecided (arguments : List String) : Prop :=
  ∀ refusal : Refusal, refusal.WhileReading → ofArguments arguments ≠ .error refusal

theorem ofArguments_eq_error_iff {arguments : List String} {refusal : Refusal}
    (reading : refusal.WhileReading) :
    ofArguments arguments = .error refusal ↔
      (Token.ofArguments arguments).foldlM Tally.read .empty = .error refusal := by
  rw [ofArguments]
  rcases (Token.ofArguments arguments).foldlM Tally.read Tally.empty with refusal' | tally
  · exact ⟨fun refused => congrArg _ (Except.error.inj refused),
      fun refused => congrArg _ (Except.error.inj refused)⟩
  · exact ⟨fun refused => absurd refused (Tally.settle_ne_error reading tally),
      fun refused => nomatch refused⟩

theorem Undecided.exists_tally {arguments : List String} (undecided : Undecided arguments) :
    ∃ tally, (Token.ofArguments arguments).foldlM Tally.read .empty = .ok tally := by
  rcases read : (Token.ofArguments arguments).foldlM Tally.read Tally.empty with refusal | tally
  · have reading := Tally.whileReading_of_foldlM read
    exact absurd ((ofArguments_eq_error_iff reading).mpr read) (undecided refusal reading)
  · exact ⟨tally, rfl⟩

/-- Arguments behind those that decide do not count. -/
theorem ofArguments_append {front : List String} {refusal : Refusal}
    (reading : refusal.WhileReading) (decided : ofArguments front = .error refusal)
    (later : List String) : ofArguments (front ++ later) = .error refusal := by
  obtain ⟨tokens, split⟩ := Token.ofArguments_append front later
  rw [ofArguments_eq_error_iff reading] at decided ⊢
  rw [split, List.foldlM_append, decided]
  rfl

/-- Arguments that decide have a first one that does. -/
theorem exists_deciding {arguments : List String} {refusal : Refusal}
    (reading : refusal.WhileReading) (decided : ofArguments arguments = .error refusal) :
    ∃ front argument later, arguments = front ++ argument :: later ∧ Undecided front ∧
      ofArguments (front ++ [argument]) = .error refusal := by
  induction arguments using List.reverseRecOn with
  | nil => cases decided; cases reading
  | append_singleton front argument ih =>
    by_cases undecided : Undecided front
    · exact ⟨front, argument, [], rfl, undecided, decided⟩
    · simp only [Undecided, not_forall, not_not] at undecided
      obtain ⟨refusal', reading', decided'⟩ := undecided
      have stays := ofArguments_append reading' decided' [argument]
      obtain rfl : refusal' = refusal := Except.error.inj (stays.symm.trans decided)
      obtain ⟨front', argument', later, rfl, first⟩ := ih decided'
      exact ⟨front', argument', later ++ [argument], by simp, first⟩

/-- Arguments that can all be read ask for the same when they are rearranged. -/
theorem ofArguments_eq_of_rearranged {arguments arguments' : List String}
    (undecided : Undecided arguments) (flags : "--" ∉ arguments)
    (same : Rearranged arguments arguments') :
    ofArguments arguments' = ofArguments arguments := by
  obtain ⟨tally, read⟩ := undecided.exists_tally
  have perm : (Token.ofArguments arguments).Perm (Token.ofArguments arguments') := by
    rw [Token.ofArguments_eq_flatMap flags, Token.ofArguments_eq_flatMap (same.mem_iff.not.mp flags)]
    exact same.perm_tokens
  rw [ofArguments, ofArguments, read, Tally.foldlM_perm perm read]

theorem Undecided.settled {arguments : List String} (undecided : Undecided arguments) :
    (∃ options, ofArguments arguments = .ok options) ∨
      ofArguments arguments = .error (.usage .missingBinary) ∨
      ∃ flag, ofArguments arguments = .error (.usage (.repeatedFlag flag)) := by
  obtain ⟨tally, read⟩ := undecided.exists_tally
  rw [ofArguments, read]
  exact tally.settle_cases

/-- The order of the arguments counts up to the first that decides. If an unknown argument or a wish
for help or the version is found while they are read, then there is an argument which is the first to
decide, and whatever stands behind it, the answer is the same. Otherwise, and without a `--`, the
arguments may be put in any order, short flags joined or not, and flags written short or long, with
any value: they ask for the same options, or the file is missing, or a flag is repeated, for all of
these arrangements. -/
theorem decided_or_free_to_arrange (arguments : List String) :
    (∀ refusal : Refusal, refusal.WhileReading → ofArguments arguments = .error refusal →
      ∃ front argument later, arguments = front ++ argument :: later ∧ Undecided front ∧
        ∀ later', ofArguments (front ++ argument :: later') = .error refusal) ∧
    (Undecided arguments → "--" ∉ arguments →
      ∀ arguments', Rearranged arguments arguments' →
        (∃ options, ofArguments arguments = .ok options ∧ ofArguments arguments' = .ok options) ∨
        (ofArguments arguments = .error (.usage .missingBinary) ∧
          ofArguments arguments' = .error (.usage .missingBinary)) ∨
        ∃ flag, ofArguments arguments = .error (.usage (.repeatedFlag flag)) ∧
          ofArguments arguments' = .error (.usage (.repeatedFlag flag))) := by
  constructor
  · intro refusal reading decided
    obtain ⟨front, argument, later, split, undecided, first⟩ := exists_deciding reading decided
    refine ⟨front, argument, later, split, undecided, fun later' => ?_⟩
    have stays := ofArguments_append reading first later'
    rwa [List.append_assoc] at stays
  · intro undecided flags arguments' same
    rw [ofArguments_eq_of_rearranged undecided flags same]
    simpa only [and_self] using undecided.settled

/-- An unknown flag in front of the file, and a group of flags that is taken apart. -/
theorem decided_or_free_to_arrange_listing :
    (∃ front argument later, ["-l", "-x", "a"] = front ++ argument :: later ∧ Undecided front ∧
      ∀ later', ofArguments (front ++ argument :: later') =
        .error (.usage (.unknownArgument "-x"))) ∧
    ∃ options, ofArguments ["-lkv", "a"] = .ok options ∧
      ofArguments ["--verbose=9", "a", "-k", "-l"] = .ok options := by
  have decided : ofArguments ["-l", "-x", "a"] = .error (.usage (.unknownArgument "-x")) := by cbv
  have parsed : ofArguments ["-lkv", "a"] = .ok ⟨"a", true, true, false, 1⟩ := by cbv
  have undecided : Undecided ["-lkv", "a"] :=
    fun refusal _ refused => nomatch parsed.symm.trans refused
  have known : ∀ letter ∈ ['l', 'k', 'v'], Flag.ofLetter? letter ≠ none := by
    simp [Flag.ofLetter?]
  have apart : Rearranged ["-lkv", "a"] ["-l", "-kv", "a"] :=
    .respelled (@Respelled.regrouped ['l'] ['k', 'v'] (by decide) (by decide) known) [] ["a"]
  have further : Rearranged ["-l", "-kv", "a"] ["-l", "-k", "-v", "a"] :=
    .respelled (@Respelled.regrouped ['k'] ['v'] (by decide) (by decide)
      (List.forall_mem_cons.mp known).2) ["-l"] ["a"]
  have long : Rearranged ["-l", "-k", "-v", "a"] ["-l", "-k", "--verbose=9", "a"] :=
    .respelled (@Respelled.exchanged 'v' .verbose rfl (some "9")) ["-l", "-k"] ["a"]
  have turned : Rearranged ["-l", "-k", "--verbose=9", "a"] ["--verbose=9", "a", "-k", "-l"] :=
    .reordered (by decide)
  refine ⟨(decided_or_free_to_arrange _).1 _ (.unknownArgument "-x") decided, ?_⟩
  obtain found | ⟨missing, -⟩ | ⟨_, repeated, -⟩ := (decided_or_free_to_arrange _).2 undecided
    (by decide) _ (((apart.trans further).trans long).trans turned)
  · exact found
  · exact nomatch parsed.symm.trans missing
  · exact nomatch parsed.symm.trans repeated

end Options

end Mov8086.Command
