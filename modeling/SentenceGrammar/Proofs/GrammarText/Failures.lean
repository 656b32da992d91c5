import SentenceGrammar.Proofs.GrammarText.Completeness

/-! How each reader fails, in terms of what the readers that it calls take and of how they fail.
With what the readers take, this says everything about them. -/

namespace SentenceGrammar

open Character

namespace GrammarText

variable {α β : Type} {bound : Nat} {fault : ReadingFault}

theorem bind_eq_error {outcome : Except ReadingFault (Reading α bound)}
    {next : Reading α bound → Except ReadingFault β} :
    outcome >>= next = .error fault ↔
      outcome = .error fault ∨ ∃ first between, ∃ taken : Takes outcome first between,
        next ⟨first, between, taken.fits⟩ = .error fault := by
  cases outcome with
  | error other => simp [bind, Except.bind]
  | ok reading =>
    rcases reading with ⟨first, between, fits⟩
    constructor
    · exact fun failed => .inr ⟨first, between, ⟨fits, rfl⟩, failed⟩
    · rintro (failed | ⟨_, _, ⟨_, same⟩, failed⟩)
      · cases failed
      · cases same
        exact failed

theorem bind_pure_eq_error {outcome : Except ReadingFault α} {change : α → β} :
    (do let taken ← outcome; pure (change taken)) = .error fault ↔ outcome = .error fault := by
  cases outcome <;> simp [bind, Except.bind, pure, Except.pure]

theorem readToken_eq_error {wanted : Token} {tokens : List PlacedToken} :
    readToken wanted tokens = .error fault ↔
      firstToken tokens ≠ some wanted ∧
        .syntaxBefore tokens (.expectedToken wanted (firstToken tokens)) = fault := by
  cases tokens with
  | nil => simp [readToken, firstToken]
  | cons token later =>
    rw [readToken]
    split
    · rename_i same
      simp [firstToken, same]
    · rename_i different
      simp [firstToken, different]

theorem exists_chain_or_not (tokens : List PlacedToken) :
    (∃ text position later, tokens = ⟨.chain text, position⟩ :: later) ∨
      ∀ text, firstToken tokens ≠ some (.chain text) := by
  by_cases chained : ∃ text, firstToken tokens = some (.chain text)
  · obtain ⟨text, first⟩ := chained
    obtain ⟨position, later, rfl⟩ := exists_of_firstToken first
    exact .inl ⟨text, position, later, rfl⟩
  · exact .inr (not_exists.mp chained)

section Terms

variable {tokens : List PlacedToken} {position : Position}

theorem readChain_eq_error :
    readChain tokens = .error fault ↔
      ∃ text malformed, firstToken tokens = some (.chain text) ∧
        Chain.read text = .error malformed ∧ .malformedChain malformed = fault := by
  unfold readChain
  split
  · split <;> simp_all [firstToken]
  · rename_i other
    simp only [reduceCtorEq, false_iff]
    rintro ⟨text, _, first, _⟩
    obtain ⟨place, later, rfl⟩ := exists_of_firstToken first
    exact other text place later rfl

theorem readTerm_word_eq_error {text : String} :
    readTerm (⟨.word text, position⟩ :: tokens) = .error fault ↔
      readChain tokens = .error fault := by
  rw [readTerm]
  exact bind_pure_eq_error

theorem readTerm_quoted_eq_error {text : String} :
    readTerm (⟨.quoted text, position⟩ :: tokens) = .error fault ↔
      readChain tokens = .error fault := by
  rw [readTerm]
  exact bind_pure_eq_error

def FailsEnclosed (closing : Token) (tokens : List PlacedToken) (fault : ReadingFault) : Prop :=
  readBranches tokens = .error fault ∨
    ∃ branches between, Takes (readBranches tokens) branches between ∧
      (readToken closing between = .error fault ∨
        ∃ place after, between = ⟨closing, place⟩ :: after ∧ readChain after = .error fault)

theorem readTerm_group_eq_error :
    readTerm (⟨.openParen, position⟩ :: tokens) = .error fault ↔
      FailsEnclosed .closeParen tokens fault := by
  rw [readTerm]
  simp only [bind_eq_error, bind_pure_eq_error, takes_readToken, FailsEnclosed, exists_prop]
  grind

theorem readTerm_optional_eq_error :
    readTerm (⟨.openBracket, position⟩ :: tokens) = .error fault ↔
      FailsEnclosed .closeBracket tokens fault := by
  rw [readTerm]
  simp only [bind_eq_error, bind_pure_eq_error, takes_readToken, FailsEnclosed, exists_prop]
  grind

theorem readTerm_other (absent : ∀ token ∈ firstToken tokens, token.opensTerm = false) :
    readTerm tokens = .error (.syntaxBefore tokens (.expectedAtom (firstToken tokens))) := by
  rw [readTerm.eq_def]
  split
  · cases absent _ rfl
  · cases absent _ rfl
  · cases absent _ rfl
  · cases absent _ rfl
  · rfl

end Terms

section Pieces

variable {tokens : List PlacedToken} {position : Position} {junction : Junction}

theorem readOthers_comma_eq_error :
    readOthers (⟨.comma, position⟩ :: tokens) = .error fault ↔
      readTerm tokens = .error fault ∨ ∃ next between, Takes (readTerm tokens) next between ∧
        readOthers between = .error fault := by
  rw [readOthers]
  simp only [bind_eq_error, bind_pure_eq_error, exists_prop]

def unfoldFault : Term → Option SyntaxFault
  | .group _ [] | .optional _ [] | .reference _ [] => none
  | .group _ _ | .optional _ _ | .reference _ _ => some .unfoldWithChain
  | .terminal _ | .epsilon => some .unfoldOfOther

theorem readJoined_unfold_eq_error :
    readJoined junction (⟨.unfold, position⟩ :: tokens) = .error fault ↔
      readTerm tokens = .error fault ∨ ∃ term rest, Takes (readTerm tokens) term rest ∧
        ∃ why ∈ unfoldFault term, .syntaxBefore tokens why = fault := by
  rw [readJoined, bind_eq_error]
  refine or_congr_right (exists_congr fun term => exists_congr fun rest => ?_)
  rw [← exists_prop]
  refine exists_congr fun taken => ?_
  rcases term with _ | ⟨symbol, _ | _⟩ | ⟨branches, _ | _⟩ | ⟨branches, _ | _⟩ | _
  all_goals simp [unfoldFault, bind, Except.bind, pure, Except.pure, throw, throwThe,
    MonadExceptOf.throw]

theorem readJoined_plain_eq_error (absent : firstToken tokens ≠ some .unfold) :
    readJoined junction tokens = .error fault ↔
      readTerm tokens = .error fault ∨ ∃ first between, Takes (readTerm tokens) first between ∧
        readOthers between = .error fault := by
  rw [readJoined.eq_def]
  split
  · exact absurd rfl absent
  · simp only [bind_eq_error, bind_pure_eq_error, exists_prop]

theorem readOthers_other (absent : firstToken tokens ≠ some .comma) :
    readOthers tokens ≠ .error fault := by
  obtain ⟨_, read⟩ := (takes_readOthers_other absent).mpr ⟨rfl, rfl⟩
  rw [read]
  exact nofun

theorem readPiece_caret_eq_error :
    readPiece (⟨.caret, position⟩ :: tokens) = .error fault ↔
      readJoined .glue tokens = .error fault := by
  rw [readPiece]
  exact bind_pure_eq_error

theorem readPiece_other (absent : firstToken tokens ≠ some .caret) :
    readPiece tokens = readJoined .space tokens := by
  rw [readPiece.eq_def]
  split
  · exact absurd rfl absent
  · rfl

theorem readPieces_eq_error :
    readPieces tokens = .error fault ↔
      readPiece tokens = .error fault ∨ ∃ first between, Takes (readPiece tokens) first between ∧
        endsBranch between = false ∧ readPieces between = .error fault := by
  rw [readPieces, bind_eq_error]
  refine or_congr_right (exists_congr fun first => exists_congr fun between => ?_)
  rw [← exists_prop]
  refine exists_congr fun taken => ?_
  split
  · rename_i ends
    simp [ends, pure, Except.pure]
  · rename_i ends
    rw [bind_pure_eq_error, eq_false_of_ne_true ends]
    exact (and_iff_right rfl).symm

end Pieces

section Branches

variable {tokens : List PlacedToken} {position : Position}

def FailsPieces (tokens : List PlacedToken) (fault : ReadingFault) : Prop :=
  (endsBranch tokens = true ∧ .syntaxBefore tokens .emptyAlternative = fault) ∨
    (endsBranch tokens = false ∧ readPieces tokens = .error fault)

theorem readBranch_labelled_eq_error {label : String} {colon : Position} :
    readBranch (⟨.word label, position⟩ :: ⟨.colon, colon⟩ :: tokens) = .error fault ↔
      FailsPieces tokens fault := by
  rw [readBranch, FailsPieces]
  cases endsBranch tokens
  · simpa using bind_pure_eq_error
  · simp

theorem readBranch_unlabelled_eq_error
    (absent : beginsWithLabel (tokens.map PlacedToken.token) = false) :
    readBranch tokens = .error fault ↔ FailsPieces tokens fault := by
  rw [readBranch.eq_def, FailsPieces]
  split
  · exact absurd absent (by simp [beginsWithLabel])
  · cases endsBranch tokens
    · simpa using bind_pure_eq_error
    · simp

theorem readBranches_eq_error :
    readBranches tokens = .error fault ↔
      readBranch tokens = .error fault ∨
        ∃ first bar after, Takes (readBranch tokens) first (⟨.bar, bar⟩ :: after) ∧
          readBranches after = .error fault := by
  rw [readBranches, bind_eq_error]
  refine or_congr_right ?_
  constructor
  · rintro ⟨first, between, taken, failed⟩
    split at failed
    · rename_i bar after separated
      exact ⟨first, bar, after, separated ▸ taken, bind_pure_eq_error.mp failed⟩
    · cases failed
  · rintro ⟨first, bar, after, taken, failed⟩
    exact ⟨first, _, taken, bind_pure_eq_error.mpr failed⟩

end Branches

section Definitions

variable {defined : List Symbol} {tokens : List PlacedToken} {position : Position}

theorem readDefinitions_word_eq_error {name : String} :
    readDefinitions defined (⟨.word name, position⟩ :: tokens) = .error fault ↔
      (startsUppercase name.toList = false ∧ .syntaxBefore (⟨.word name, position⟩ :: tokens)
          (.expectedName (some (.word name))) = fault) ∨
      (startsUppercase name.toList = true ∧ ⟨name⟩ ∈ defined ∧
        .syntaxBefore (⟨.word name, position⟩ :: tokens) (.definedTwice ⟨name⟩) = fault) ∨
      (startsUppercase name.toList = true ∧ ⟨name⟩ ∉ defined ∧
        (readToken .define tokens = .error fault ∨
          ∃ define after, tokens = ⟨.define, define⟩ :: after ∧
            (readBranches after = .error fault ∨
              ∃ branches between, Takes (readBranches after) branches between ∧
                (readToken .semicolon between = .error fault ∨
                  ∃ closing later, between = ⟨.semicolon, closing⟩ :: later ∧
                    readDefinitions (⟨name⟩ :: defined) later = .error fault)))) := by
  rw [readDefinitions]
  cases startsUppercase name.toList with
  | false => simp
  | true =>
    by_cases again : ⟨name⟩ ∈ defined
    · simp [again]
    · simp only [if_pos, again, if_false, bind_eq_error, bind_pure_eq_error, takes_readToken,
        exists_prop]
      grind

theorem readDefinitions_other {token : PlacedToken}
    (other : ∀ name, token.token ≠ .word name) :
    readDefinitions defined (token :: tokens) =
      .error (.syntaxBefore (token :: tokens) (.expectedName (some token.token))) := by
  rw [readDefinitions.eq_def]
  split
  · rename_i same
    cases same
  · rename_i same
    cases same
    exact absurd rfl (other _)
  · rename_i same
    cases same
    rfl

end Definitions

end GrammarText

end SentenceGrammar
