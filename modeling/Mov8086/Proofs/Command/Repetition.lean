import Mov8086.Proofs.Command.Log

/-!
Requests for more detail, again and again. Each of them adds one to the verbosity and changes nothing
else that the command line asks for, but the verbosity is counted in a byte, which the last of 256
requests takes back to zero.
-/

set_option autoImplicit false

namespace Mov8086.Command

/-! ### Requests in front of a command line -/

namespace Token

theorem ofArgument_verbose : ofArgument "-v" = [flag .verbose] := by decide

theorem ofArguments_replicate_verbose (n : Nat) (arguments : List String) :
    ofArguments (List.replicate n "-v" ++ arguments) =
      List.replicate n (flag .verbose) ++ ofArguments arguments := by
  induction n with
  | zero => rfl
  | succ n ih =>
    rw [List.replicate_succ, List.cons_append, ofArguments, if_neg (by decide), ih,
      ofArgument_verbose]
    rfl

end Token

namespace Tally

/-- The tally with so many more requests for detail. -/
def louder (n : Nat) (tally : Tally) : Tally :=
  { tally with verbose := tally.verbose + n }

theorem map_louder_read (n : Nat) (tally : Tally) (token : Token) :
    (tally.read token).map (louder n) = (tally.louder n).read token := by
  rcases token with flag | text | shown
  · cases flag with
    | verbose => exact congrArg Except.ok (congrArg _ (Nat.add_right_comm _ _ _))
    | _ => rfl
  · obtain ⟨_ | _, _, _, _, _⟩ := tally <;> rfl
  · rfl

theorem map_louder_foldlM (n : Nat) (tally : Tally) (tokens : List Token) :
    (tokens.foldlM read tally).map (louder n) = tokens.foldlM read (tally.louder n) := by
  induction tokens generalizing tally with
  | nil => rfl
  | cons token tokens ih =>
    rw [List.foldlM_cons, List.foldlM_cons, ← map_louder_read]
    rcases tally.read token with refusal | next
    · rfl
    · exact ih next

theorem foldlM_replicate_verbose (n : Nat) (tally : Tally) :
    (List.replicate n (Token.flag .verbose)).foldlM read tally = .ok (tally.louder n) := by
  induction n generalizing tally with
  | zero => rfl
  | succ n ih =>
    rw [List.replicate_succ, List.foldlM_cons]
    refine (ih (tally.louder 1)).trans ?_
    exact congrArg Except.ok (congrArg _ (Nat.add_right_comm tally.verbose 1 n))

end Tally

namespace Options

/-- The options with so much added to their verbosity, which is a byte. -/
def louder (n : Nat) (options : Options) : Options :=
  { options with verbose := options.verbose + UInt8.ofNat n }

theorem map_louder_settle (n : Nat) (tally : Tally) :
    tally.settle.map (louder n) = (tally.louder n).settle := by
  obtain ⟨_ | binary, listing, keepGoing, noHeader, verbose⟩ := tally
  · rfl
  · simp only [Tally.settle, Tally.louder, apply_ite (Except.map (louder n)), UInt8.ofNat_add]
    rfl

/-- Requests for more detail in front of a command line add to its verbosity, and it is refused as it
would be without them. -/
theorem ofArguments_replicate_verbose (n : Nat) (arguments : List String) :
    ofArguments (List.replicate n "-v" ++ arguments) = (ofArguments arguments).map (louder n) := by
  have read := Tally.map_louder_foldlM n .empty (Token.ofArguments arguments)
  have front := Tally.foldlM_replicate_verbose n .empty
  rw [ofArguments, ofArguments, Token.ofArguments_replicate_verbose, List.foldlM_append, front]
  change (List.foldlM Tally.read (Tally.empty.louder n) _).bind _ = _
  rw [← read]
  rcases (Token.ofArguments arguments).foldlM Tally.read Tally.empty with refusal | tally
  · rfl
  · exact (map_louder_settle n tally).symm

/-- Any number of requests for more detail in front of a command line are accepted with it, and ask
for the same but in verbosity. The level is at least as detailed as before while the count of requests
stays in a byte, and behind that exactly where the byte that is left of the count still asks for it. -/
theorem requests_raise_level (n : Nat) (arguments : List String) (options : Options)
    (parsed : ofArguments arguments = .ok options) :
    ∃ options', ofArguments (List.replicate n "-v" ++ arguments) = .ok options' ∧
      (options'.binary = options.binary ∧ options'.listing = options.listing ∧
        options'.keepGoing = options.keepGoing ∧ options'.noHeader = options.noHeader) ∧
      options'.verbose.toNat = (options.verbose.toNat + n) % 256 ∧
      (options.verbose.toNat + n < 256 → options.level.rank ≤ options'.level.rank) ∧
      (options.level.rank ≤ options'.level.rank ↔
        min options.verbose.toNat 3 ≤ (options.verbose.toNat + n) % 256) := by
  have counted : (options.louder n).verbose.toNat = (options.verbose.toNat + n) % 256 := by
    simp only [louder, UInt8.toNat_add, UInt8.toNat_ofNat']
    omega
  have level : options.level.rank ≤ (options.louder n).level.rank ↔
      min options.verbose.toNat 3 ≤ (options.verbose.toNat + n) % 256 := by
    simp only [Options.level, Level.rank_ofVerbosity, counted]
    omega
  refine ⟨options.louder n, ?_, ⟨rfl, rfl, rfl, rfl⟩, counted, ?_, level⟩
  · rw [ofArguments_replicate_verbose, parsed]
    rfl
  · intro small
    rw [level, Nat.mod_eq_of_lt small]
    omega

theorem requests_raise_level_listing :
    ofArguments ["-l", "a"] = .ok ⟨"a", true, false, false, 0⟩ ∧
      ∃ options', ofArguments (List.replicate 2 "-v" ++ ["-l", "a"]) = .ok options' ∧
        options'.listing = true ∧ options'.verbose.toNat = 2 := by
  have parsed : ofArguments ["-l", "a"] = .ok ⟨"a", true, false, false, 0⟩ := by cbv
  obtain ⟨options', parsed', ⟨-, listing, -⟩, counted, -⟩ :=
    requests_raise_level 2 ["-l", "a"] _ parsed
  exact ⟨parsed, options', parsed', listing, counted⟩

/-- One request more does not always keep the level: 255 of them ask for every detail, and 256 for
none. -/
theorem not_forall_requests_raise_level :
    ¬∀ (n : Nat) (arguments : List String) (options options' : Options),
      ofArguments arguments = .ok options →
        ofArguments (List.replicate n "-v" ++ arguments) = .ok options' →
          options.level.rank ≤ options'.level.rank := by
  intro raises
  let quiet : Options := ⟨"a", false, false, false, 0⟩
  have parsed : ofArguments ["a"] = .ok quiet := by cbv
  have most : ofArguments (List.replicate 255 "-v" ++ ["a"]) = .ok (quiet.louder 255) := by
    rw [ofArguments_replicate_verbose, parsed]
    rfl
  have beyond : ofArguments (List.replicate 1 "-v" ++ (List.replicate 255 "-v" ++ ["a"])) =
      .ok ((quiet.louder 255).louder 1) := by
    rw [ofArguments_replicate_verbose, most]
    rfl
  have kept := raises 1 _ _ _ most beyond
  exact absurd kept (by decide)

end Options

end Mov8086.Command
