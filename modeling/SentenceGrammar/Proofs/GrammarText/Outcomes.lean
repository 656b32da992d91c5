import SentenceGrammar.Proofs.GrammarText.Failures

/-! What the readers take and how they fail, by rules. There is one rule for each way in which a
phrase may be read, and one for each way in which reading it may fail, at the phrase itself or
within it. The rules say the same as the readers, and unlike them they can be gone through one by
one. -/

namespace SentenceGrammar

open Character

namespace GrammarText

/-- Tokens around branches, and the term that is made of the branches and the chain behind. -/
inductive Encloses : Token → Token → (List Branch → Chain → Term) → Prop where
  | parentheses : Encloses .openParen .closeParen .group
  | brackets : Encloses .openBracket .closeBracket .optional

/-- The ways in which a phrase is read from the front of some tokens. What follows the phrase
decides where it ends. -/
inductive Reads : (category : Category) → List PlacedToken → category.Value →
    List PlacedToken → Prop where
  | lastBranch {tokens rest : List PlacedToken} {value : Branch}
    (branch : Reads .branch tokens value rest) (ends : firstToken rest ≠ some .bar) :
    Reads .branches tokens [value] rest
  | nextBranch {tokens after rest : List PlacedToken} {value : Branch} {values : List Branch}
    {bar : Position} (branch : Reads .branch tokens value (⟨.bar, bar⟩ :: after))
    (later : Reads .branches after values rest) : Reads .branches tokens (value :: values) rest
  | sequence {front tokens rest : List PlacedToken} {label : Option String} {values : List Piece}
    (opened : front.map PlacedToken.token = labelTokens label)
    (bare : label = none → beginsWithLabel (tokens.map PlacedToken.token) = false)
    (filled : endsBranch tokens = false) (pieces : Reads .pieces tokens values rest) :
    Reads .branch (front ++ tokens) ⟨label.map Label.mk, values⟩ rest
  | lastPiece {tokens rest : List PlacedToken} {value : Piece}
    (piece : Reads .piece tokens value rest) (ends : endsBranch rest = true) :
    Reads .pieces tokens [value] rest
  | nextPiece {tokens between rest : List PlacedToken} {value : Piece} {values : List Piece}
    (piece : Reads .piece tokens value between) (goesOn : endsBranch between = false)
    (later : Reads .pieces between values rest) : Reads .pieces tokens (value :: values) rest
  | plain {front tokens between rest : List PlacedToken} {junction : Junction} {value : Term}
    {values : List Term} (joined : front.map PlacedToken.token = junctionTokens junction)
    (first : Reads .term tokens value between) (others : Reads .others between values rest) :
    Reads .piece (front ++ tokens) (.plain junction value values) rest
  | unfolded {front tokens rest : List PlacedToken} {junction : Junction} {value : Term}
    {piece : Piece} {sign : Position}
    (joined : front.map PlacedToken.token = junctionTokens junction)
    (term : Reads .term tokens value rest)
    (made : unfoldedPiece junction (firstPosition tokens) value = some piece) :
    Reads .piece (front ++ ⟨.unfold, sign⟩ :: tokens) piece rest
  | noOther {tokens : List PlacedToken} (ends : firstToken tokens ≠ some .comma) :
    Reads .others tokens [] tokens
  | nextOther {tokens between rest : List PlacedToken} {value : Term} {values : List Term}
    {comma : Position} (term : Reads .term tokens value between)
    (later : Reads .others between values rest) :
    Reads .others (⟨.comma, comma⟩ :: tokens) (value :: values) rest
  | word {tokens rest : List PlacedToken} {text : String} {chain : Chain} {position : Position}
    (chained : Takes (readChain tokens) chain rest) :
    Reads .term (⟨.word text, position⟩ :: tokens) (.ofWord text chain) rest
  | quoted {tokens rest : List PlacedToken} {text : String} {chain : Chain} {position : Position}
    (chained : Takes (readChain tokens) chain rest) :
    Reads .term (⟨.quoted text, position⟩ :: tokens) (.terminal text) rest
  | enclosed {opening closing : Token} {make : List Branch → Chain → Term}
    {tokens after rest : List PlacedToken} {values : List Branch} {chain : Chain}
    {start finish : Position} (encloses : Encloses opening closing make)
    (branches : Reads .branches tokens values (⟨closing, finish⟩ :: after))
    (chained : Takes (readChain after) chain rest) :
    Reads .term (⟨opening, start⟩ :: tokens) (make values chain) rest

inductive Fails : Category → List PlacedToken → ReadingFault → Prop where
  | firstBranch {tokens : List PlacedToken} {fault : ReadingFault}
    (branch : Fails .branch tokens fault) : Fails .branches tokens fault
  | laterBranch {tokens after : List PlacedToken} {fault : ReadingFault} {value : Branch}
    {bar : Position} (branch : Reads .branch tokens value (⟨.bar, bar⟩ :: after))
    (later : Fails .branches after fault) : Fails .branches tokens fault
  | empty {front tokens : List PlacedToken} {label : Option String}
    (opened : front.map PlacedToken.token = labelTokens label)
    (ends : endsBranch tokens = true) :
    Fails .branch (front ++ tokens) (.syntaxBefore tokens .emptyAlternative)
  | sequence {front tokens : List PlacedToken} {fault : ReadingFault} {label : Option String}
    (opened : front.map PlacedToken.token = labelTokens label)
    (bare : label = none → beginsWithLabel (tokens.map PlacedToken.token) = false)
    (filled : endsBranch tokens = false) (pieces : Fails .pieces tokens fault) :
    Fails .branch (front ++ tokens) fault
  | firstPiece {tokens : List PlacedToken} {fault : ReadingFault}
    (piece : Fails .piece tokens fault) : Fails .pieces tokens fault
  | laterPiece {tokens between : List PlacedToken} {fault : ReadingFault} {value : Piece}
    (piece : Reads .piece tokens value between) (goesOn : endsBranch between = false)
    (later : Fails .pieces between fault) : Fails .pieces tokens fault
  | firstTerm {front tokens : List PlacedToken} {fault : ReadingFault} {junction : Junction}
    (joined : front.map PlacedToken.token = junctionTokens junction)
    (bare : junction = .space → firstToken tokens ≠ some .caret)
    (folded : firstToken tokens ≠ some .unfold) (first : Fails .term tokens fault) :
    Fails .piece (front ++ tokens) fault
  | laterTerm {front tokens between : List PlacedToken} {fault : ReadingFault} {junction : Junction}
    {value : Term} (joined : front.map PlacedToken.token = junctionTokens junction)
    (first : Reads .term tokens value between) (others : Fails .others between fault) :
    Fails .piece (front ++ tokens) fault
  | unfoldedTerm {front tokens : List PlacedToken} {fault : ReadingFault} {junction : Junction}
    {sign : Position} (joined : front.map PlacedToken.token = junctionTokens junction)
    (term : Fails .term tokens fault) : Fails .piece (front ++ ⟨.unfold, sign⟩ :: tokens) fault
  | unfolded {front tokens rest : List PlacedToken} {why : SyntaxFault} {junction : Junction}
    {value : Term} {sign : Position}
    (joined : front.map PlacedToken.token = junctionTokens junction)
    (term : Reads .term tokens value rest) (wrong : unfoldFault value = some why) :
    Fails .piece (front ++ ⟨.unfold, sign⟩ :: tokens) (.syntaxBefore tokens why)
  | nextTerm {tokens : List PlacedToken} {fault : ReadingFault} {comma : Position}
    (term : Fails .term tokens fault) : Fails .others (⟨.comma, comma⟩ :: tokens) fault
  | laterOther {tokens between : List PlacedToken} {fault : ReadingFault} {value : Term}
    {comma : Position} (term : Reads .term tokens value between)
    (later : Fails .others between fault) : Fails .others (⟨.comma, comma⟩ :: tokens) fault
  | noTerm {tokens : List PlacedToken}
    (absent : ∀ token ∈ firstToken tokens, token.opensTerm = false) :
    Fails .term tokens (.syntaxBefore tokens (.expectedAtom (firstToken tokens)))
  | word {tokens : List PlacedToken} {fault : ReadingFault} {text : String} {position : Position}
    (chained : readChain tokens = .error fault) :
    Fails .term (⟨.word text, position⟩ :: tokens) fault
  | quoted {tokens : List PlacedToken} {fault : ReadingFault} {text : String} {position : Position}
    (chained : readChain tokens = .error fault) :
    Fails .term (⟨.quoted text, position⟩ :: tokens) fault
  | inside {opening closing : Token} {make : List Branch → Chain → Term}
    {tokens : List PlacedToken} {fault : ReadingFault} {start : Position}
    (encloses : Encloses opening closing make) (branches : Fails .branches tokens fault) :
    Fails .term (⟨opening, start⟩ :: tokens) fault
  | unclosed {opening closing : Token} {make : List Branch → Chain → Term}
    {tokens between : List PlacedToken} {values : List Branch} {start : Position}
    (encloses : Encloses opening closing make) (branches : Reads .branches tokens values between)
    (absent : firstToken between ≠ some closing) :
    Fails .term (⟨opening, start⟩ :: tokens)
      (.syntaxBefore between (.expectedToken closing (firstToken between)))
  | enclosed {opening closing : Token} {make : List Branch → Chain → Term}
    {tokens after : List PlacedToken} {fault : ReadingFault} {values : List Branch}
    {start finish : Position} (encloses : Encloses opening closing make)
    (branches : Reads .branches tokens values (⟨closing, finish⟩ :: after))
    (chained : readChain after = .error fault) : Fails .term (⟨opening, start⟩ :: tokens) fault

def Category.Errs : Category → List PlacedToken → ReadingFault → Prop
  | .branches, tokens, fault => readBranches tokens = .error fault
  | .branch, tokens, fault => readBranch tokens = .error fault
  | .pieces, tokens, fault => readPieces tokens = .error fault
  | .piece, tokens, fault => readPiece tokens = .error fault
  | .others, tokens, fault => readOthers tokens = .error fault
  | .term, tokens, fault => readTerm tokens = .error fault

section Fronts

variable {front tokens rest : List PlacedToken}

theorem Encloses.takes_iff {opening closing : Token} {make : List Branch → Chain → Term}
    (encloses : Encloses opening closing make) {start : Position} {term : Term} :
    Takes (readTerm (⟨opening, start⟩ :: tokens)) term rest ↔
      ∃ branches finish after chain,
        Takes (readBranches tokens) branches (⟨closing, finish⟩ :: after) ∧
        Takes (readChain after) chain rest ∧ make branches chain = term := by
  cases encloses with
  | parentheses => exact takes_readTerm_group
  | brackets => exact takes_readTerm_optional

theorem Encloses.eq_error_iff {opening closing : Token} {make : List Branch → Chain → Term}
    (encloses : Encloses opening closing make) {start : Position} {fault : ReadingFault} :
    readTerm (⟨opening, start⟩ :: tokens) = .error fault ↔ FailsEnclosed closing tokens fault := by
  cases encloses with
  | parentheses => exact readTerm_group_eq_error
  | brackets => exact readTerm_optional_eq_error

theorem exists_label (tokens : List PlacedToken) :
    ∃ front later label, tokens = front ++ later ∧
      front.map PlacedToken.token = labelTokens label ∧
      (label = none → beginsWithLabel (later.map PlacedToken.token) = false) := by
  cases labelled : beginsWithLabel (tokens.map PlacedToken.token)
  · exact ⟨[], tokens, none, rfl, rfl, fun _ => labelled⟩
  · obtain ⟨label, position, colon, body, rfl⟩ := exists_of_beginsWithLabel labelled
    exact ⟨[⟨.word label, position⟩, ⟨.colon, colon⟩], body, some label, rfl, rfl, nofun⟩

theorem takes_readBranch {label : Option String} {branch : Branch}
    (opened : front.map PlacedToken.token = labelTokens label)
    (bare : label = none → beginsWithLabel (tokens.map PlacedToken.token) = false) :
    Takes (readBranch (front ++ tokens)) branch rest ↔
      endsBranch tokens = false ∧
        ∃ pieces, Takes (readPieces tokens) pieces rest ∧
          ⟨label.map Label.mk, pieces⟩ = branch := by
  cases label with
  | none =>
    rw [List.map_eq_nil_iff.mp opened]
    exact takes_readBranch_unlabelled (bare rfl)
  | some label =>
    obtain ⟨position, after, rfl, spelled⟩ := map_token_eq_cons.mp opened
    obtain ⟨colon, none, rfl, empty⟩ := map_token_eq_cons.mp spelled
    rw [List.map_eq_nil_iff.mp empty]
    exact takes_readBranch_labelled

theorem readBranch_eq_error {label : Option String} {fault : ReadingFault}
    (opened : front.map PlacedToken.token = labelTokens label)
    (bare : label = none → beginsWithLabel (tokens.map PlacedToken.token) = false) :
    readBranch (front ++ tokens) = .error fault ↔ FailsPieces tokens fault := by
  cases label with
  | none =>
    rw [List.map_eq_nil_iff.mp opened]
    exact readBranch_unlabelled_eq_error (bare rfl)
  | some label =>
    obtain ⟨position, after, rfl, spelled⟩ := map_token_eq_cons.mp opened
    obtain ⟨colon, none, rfl, empty⟩ := map_token_eq_cons.mp spelled
    rw [List.map_eq_nil_iff.mp empty]
    exact readBranch_labelled_eq_error

theorem exists_junction (tokens : List PlacedToken) :
    ∃ front later junction, tokens = front ++ later ∧
      front.map PlacedToken.token = junctionTokens junction ∧
      (junction = .space → firstToken later ≠ some .caret) := by
  by_cases glued : firstToken tokens = some .caret
  · obtain ⟨caret, after, rfl⟩ := exists_of_firstToken glued
    exact ⟨[⟨.caret, caret⟩], after, .glue, rfl, rfl, nofun⟩
  · exact ⟨[], tokens, .space, rfl, rfl, fun _ => glued⟩

theorem takes_readPiece_iff {junction : Junction} {piece : Piece}
    (joined : front.map PlacedToken.token = junctionTokens junction)
    (bare : junction = .space → firstToken tokens ≠ some .caret) :
    Takes (readPiece (front ++ tokens)) piece rest ↔
      Takes (readJoined junction tokens) piece rest := by
  cases junction with
  | space =>
    rw [List.map_eq_nil_iff.mp joined]
    exact takes_readPiece_other (bare rfl)
  | glue =>
    obtain ⟨position, later, rfl, empty⟩ := map_token_eq_cons.mp joined
    rw [List.map_eq_nil_iff.mp empty]
    exact takes_readPiece_caret

theorem readPiece_eq_error {junction : Junction} {fault : ReadingFault}
    (joined : front.map PlacedToken.token = junctionTokens junction)
    (bare : junction = .space → firstToken tokens ≠ some .caret) :
    readPiece (front ++ tokens) = .error fault ↔ readJoined junction tokens = .error fault := by
  cases junction with
  | space =>
    rw [List.map_eq_nil_iff.mp joined, List.nil_append, readPiece_other (bare rfl)]
  | glue =>
    obtain ⟨position, later, rfl, empty⟩ := map_token_eq_cons.mp joined
    rw [List.map_eq_nil_iff.mp empty]
    exact readPiece_caret_eq_error

theorem firstToken_unfold_ne_caret {sign : Position} :
    firstToken (⟨.unfold, sign⟩ :: tokens) ≠ some .caret := by
  simp [firstToken]

theorem beginsWithLabel_of_endsBranch (ends : endsBranch tokens = true) :
    beginsWithLabel (tokens.map PlacedToken.token) = false := by
  cases labelled : beginsWithLabel (tokens.map PlacedToken.token) with
  | false => rfl
  | true =>
    obtain ⟨label, position, colon, later, rfl⟩ := exists_of_beginsWithLabel labelled
    cases ends

theorem length_le_append (front tokens : List PlacedToken) :
    tokens.length ≤ (front ++ tokens).length := by
  rw [List.length_append]
  exact Nat.le_add_left _ _

end Fronts

section Takes

-- A phrase begins with one of the next category, or other tokens were taken before it.
mutual

theorem reads_branches {tokens rest : List PlacedToken} {values : List Branch}
    (taken : Takes (readBranches tokens) values rest) : Reads .branches tokens values rest := by
  obtain ⟨value, between, takenFirst, ended | continued⟩ := takes_readBranches.mp taken
  · obtain ⟨ends, rfl, rfl⟩ := ended
    exact .lastBranch (reads_branch takenFirst) ends
  · obtain ⟨bar, after, later, rfl, takenLater, rfl⟩ := continued
    have fewer : after.length + 1 < tokens.length := takenFirst.fits
    exact .nextBranch (reads_branch takenFirst) (reads_branches takenLater)
termination_by 6 * tokens.length + 5

theorem reads_branch {tokens rest : List PlacedToken} {value : Branch}
    (taken : Takes (readBranch tokens) value rest) : Reads .branch tokens value rest := by
  obtain ⟨front, later, label, rfl, opened, bare⟩ := exists_label tokens
  obtain ⟨filled, values, takenPieces, rfl⟩ := (takes_readBranch opened bare).mp taken
  have fewer := length_le_append front later
  exact .sequence opened bare filled (reads_pieces takenPieces)
termination_by 6 * tokens.length + 4

theorem reads_pieces {tokens rest : List PlacedToken} {values : List Piece}
    (taken : Takes (readPieces tokens) values rest) : Reads .pieces tokens values rest := by
  obtain ⟨value, between, takenFirst, ended | continued⟩ := takes_readPieces.mp taken
  · obtain ⟨ends, rfl, rfl⟩ := ended
    exact .lastPiece (reads_piece takenFirst) ends
  · obtain ⟨goesOn, later, takenLater, rfl⟩ := continued
    have fewer := takenFirst.fits
    exact .nextPiece (reads_piece takenFirst) goesOn (reads_pieces takenLater)
termination_by 6 * tokens.length + 3

theorem reads_piece {tokens rest : List PlacedToken} {value : Piece}
    (taken : Takes (readPiece tokens) value rest) : Reads .piece tokens value rest := by
  obtain ⟨front, later, junction, rfl, joined, bare⟩ := exists_junction tokens
  have joint := (takes_readPiece_iff joined bare).mp taken
  have fewer := length_le_append front later
  by_cases unfolded : firstToken later = some .unfold
  · obtain ⟨sign, after, rfl⟩ := exists_of_firstToken unfolded
    obtain ⟨term, takenTerm, made⟩ := takes_readJoined_unfold.mp joint
    exact .unfolded joined (reads_term takenTerm) made
  · obtain ⟨first, between, others, takenFirst, takenOthers, rfl⟩ :=
      (takes_readJoined_plain unfolded).mp joint
    have fits := takenFirst.fits
    exact .plain joined (reads_term takenFirst) (reads_others takenOthers)
termination_by 6 * tokens.length + 2

theorem reads_others {tokens rest : List PlacedToken} {values : List Term}
    (taken : Takes (readOthers tokens) values rest) : Reads .others tokens values rest := by
  by_cases separated : firstToken tokens = some .comma
  · obtain ⟨comma, after, rfl⟩ := exists_of_firstToken separated
    obtain ⟨next, between, later, takenNext, takenLater, rfl⟩ := takes_readOthers_comma.mp taken
    have fewer := Nat.lt_succ_of_lt takenNext.fits
    exact .nextOther (reads_term takenNext) (reads_others takenLater)
  · obtain ⟨rfl, rfl⟩ := (takes_readOthers_other separated).mp taken
    exact .noOther separated
termination_by 6 * tokens.length + 1

theorem reads_term {tokens rest : List PlacedToken} {value : Term}
    (taken : Takes (readTerm tokens) value rest) : Reads .term tokens value rest := by
  obtain word | quoted | group | optional := takes_readTerm_cases taken
  · obtain ⟨text, position, later, chain, rfl, chained, rfl⟩ := word
    exact .word chained
  · obtain ⟨text, position, later, chain, rfl, chained, rfl⟩ := quoted
    exact .quoted chained
  · obtain ⟨start, inner, values, finish, after, chain, rfl, takenBranches, chained, rfl⟩ := group
    exact .enclosed .parentheses (reads_branches takenBranches) chained
  · obtain ⟨start, inner, values, finish, after, chain, rfl, takenBranches, chained, rfl⟩ :=
      optional
    exact .enclosed .brackets (reads_branches takenBranches) chained
termination_by 6 * tokens.length

end

theorem Reads.exists_opensTerm {tokens rest : List PlacedToken} {value : Term}
    (reads : Reads .term tokens value rest) :
    ∃ token ∈ firstToken tokens, token.opensTerm = true := by
  cases reads with
  | word | quoted => exact ⟨_, rfl, rfl⟩
  | enclosed encloses => cases encloses <;> exact ⟨_, rfl, rfl⟩

theorem Reads.firstToken_ne {tokens rest : List PlacedToken} {value : Term}
    (reads : Reads .term tokens value rest) {token : Token} (other : token.opensTerm = false) :
    firstToken tokens ≠ some token := by
  obtain ⟨opening, begins, opens⟩ := reads.exists_opensTerm
  intro first
  cases begins.symm.trans first
  exact nomatch opens.symm.trans other

theorem Reads.takes {category : Category} {tokens rest : List PlacedToken} {value : category.Value}
    (reads : Reads category tokens value rest) : category.Takes tokens value rest := by
  induction reads with
  | lastBranch _ ends branch => exact takes_readBranches.mpr ⟨_, _, branch, .inl ⟨ends, rfl, rfl⟩⟩
  | nextBranch _ _ branch later =>
    exact takes_readBranches.mpr ⟨_, _, branch, .inr ⟨_, _, _, rfl, later, rfl⟩⟩
  | sequence opened bare filled _ pieces =>
    exact (takes_readBranch opened bare).mpr ⟨filled, _, pieces, rfl⟩
  | lastPiece _ ends piece => exact takes_readPieces.mpr ⟨_, _, piece, .inl ⟨ends, rfl, rfl⟩⟩
  | nextPiece _ goesOn _ piece later =>
    exact takes_readPieces.mpr ⟨_, _, piece, .inr ⟨goesOn, _, later, rfl⟩⟩
  | plain joined reads _ first others =>
    refine (takes_readPiece_iff joined fun _ => reads.firstToken_ne rfl).mpr ?_
    exact (takes_readJoined_plain (reads.firstToken_ne rfl)).mpr ⟨_, _, _, first, others, rfl⟩
  | unfolded joined _ made term =>
    exact (takes_readPiece_iff joined fun _ => firstToken_unfold_ne_caret).mpr
      (takes_readJoined_unfold.mpr ⟨_, term, made⟩)
  | noOther ends => exact (takes_readOthers_other ends).mpr ⟨rfl, rfl⟩
  | nextOther _ _ term later => exact takes_readOthers_comma.mpr ⟨_, _, _, term, later, rfl⟩
  | word chained => exact takes_readTerm_word.mpr ⟨_, chained, rfl⟩
  | quoted chained => exact takes_readTerm_quoted.mpr ⟨_, chained, rfl⟩
  | enclosed encloses _ chained branches =>
    exact encloses.takes_iff.mpr ⟨_, _, _, _, branches, chained, rfl⟩

/-- The rules say what the readers take. -/
theorem Category.takes_iff_reads {category : Category} {tokens rest : List PlacedToken}
    {value : category.Value} :
    category.Takes tokens value rest ↔ Reads category tokens value rest := by
  refine ⟨fun taken => ?_, Reads.takes⟩
  cases category with
  | branches => exact reads_branches taken
  | branch => exact reads_branch taken
  | pieces => exact reads_pieces taken
  | piece => exact reads_piece taken
  | others => exact reads_others taken
  | term => exact reads_term taken

end Takes

section Errs

mutual

theorem fails_branches {tokens : List PlacedToken} {fault : ReadingFault}
    (failed : readBranches tokens = .error fault) : Fails .branches tokens fault := by
  obtain failedFirst | failedLater := readBranches_eq_error.mp failed
  · exact .firstBranch (fails_branch failedFirst)
  · obtain ⟨value, bar, after, taken, failedAfter⟩ := failedLater
    have fewer : after.length + 1 < tokens.length := taken.fits
    exact .laterBranch (reads_branch taken) (fails_branches failedAfter)
termination_by 6 * tokens.length + 5

theorem fails_branch {tokens : List PlacedToken} {fault : ReadingFault}
    (failed : readBranch tokens = .error fault) : Fails .branch tokens fault := by
  obtain ⟨front, later, label, rfl, opened, bare⟩ := exists_label tokens
  have fewer := length_le_append front later
  obtain ⟨ends, rfl⟩ | ⟨filled, failedPieces⟩ := (readBranch_eq_error opened bare).mp failed
  · exact .empty opened ends
  · exact .sequence opened bare filled (fails_pieces failedPieces)
termination_by 6 * tokens.length + 4

theorem fails_pieces {tokens : List PlacedToken} {fault : ReadingFault}
    (failed : readPieces tokens = .error fault) : Fails .pieces tokens fault := by
  obtain failedFirst | failedLater := readPieces_eq_error.mp failed
  · exact .firstPiece (fails_piece failedFirst)
  · obtain ⟨value, between, taken, goesOn, failedAfter⟩ := failedLater
    have fewer := taken.fits
    exact .laterPiece (reads_piece taken) goesOn (fails_pieces failedAfter)
termination_by 6 * tokens.length + 3

theorem fails_piece {tokens : List PlacedToken} {fault : ReadingFault}
    (failed : readPiece tokens = .error fault) : Fails .piece tokens fault := by
  obtain ⟨front, later, junction, rfl, joined, bare⟩ := exists_junction tokens
  have joint := (readPiece_eq_error joined bare).mp failed
  have fewer := length_le_append front later
  by_cases unfolded : firstToken later = some .unfold
  · obtain ⟨sign, after, rfl⟩ := exists_of_firstToken unfolded
    obtain failedTerm | ⟨term, rest, taken, why, wrong, rfl⟩ := readJoined_unfold_eq_error.mp joint
    · exact .unfoldedTerm joined (fails_term failedTerm)
    · exact .unfolded joined (reads_term taken) wrong
  · obtain failedTerm | ⟨first, between, taken, failedOthers⟩ :=
      (readJoined_plain_eq_error unfolded).mp joint
    · exact .firstTerm joined bare unfolded (fails_term failedTerm)
    · have fits := taken.fits
      exact .laterTerm joined (reads_term taken) (fails_others failedOthers)
termination_by 6 * tokens.length + 2

theorem fails_others {tokens : List PlacedToken} {fault : ReadingFault}
    (failed : readOthers tokens = .error fault) : Fails .others tokens fault := by
  by_cases separated : firstToken tokens = some .comma
  · obtain ⟨comma, after, rfl⟩ := exists_of_firstToken separated
    obtain failedTerm | ⟨next, between, taken, failedOthers⟩ := readOthers_comma_eq_error.mp failed
    · exact .nextTerm (fails_term failedTerm)
    · have fewer := Nat.lt_succ_of_lt taken.fits
      exact .laterOther (reads_term taken) (fails_others failedOthers)
  · exact absurd failed (readOthers_other separated)
termination_by 6 * tokens.length + 1

theorem fails_term {tokens : List PlacedToken} {fault : ReadingFault}
    (failed : readTerm tokens = .error fault) : Fails .term tokens fault := by
  have enclosed : ∀ {opening closing make start later}, Encloses opening closing make →
      tokens = ⟨opening, start⟩ :: later → Fails .term tokens fault := by
    rintro opening closing make start later encloses rfl
    obtain failedBranches | ⟨values, between, taken, failedToken | ⟨finish, after, rfl, chained⟩⟩ :=
      encloses.eq_error_iff.mp failed
    · exact .inside encloses (fails_branches failedBranches)
    · obtain ⟨absent, rfl⟩ := readToken_eq_error.mp failedToken
      exact .unclosed encloses (reads_branches taken) absent
    · exact .enclosed encloses (reads_branches taken) chained
  by_cases opens : ∀ token ∈ firstToken tokens, token.opensTerm = false
  · cases (readTerm_other opens).symm.trans failed
    exact .noTerm opens
  · rcases tokens with _ | ⟨⟨token, position⟩, later⟩
    · exact absurd nofun opens
    · cases token with
      | word text => exact .word (readTerm_word_eq_error.mp failed)
      | quoted text => exact .quoted (readTerm_quoted_eq_error.mp failed)
      | openParen => exact enclosed .parentheses rfl
      | openBracket => exact enclosed .brackets rfl
      | _ =>
        refine absurd ?_ opens
        rintro token ⟨⟩
        rfl
termination_by 6 * tokens.length

end

theorem Fails.errs {category : Category} {tokens : List PlacedToken} {fault : ReadingFault}
    (fails : Fails category tokens fault) : category.Errs tokens fault := by
  induction fails with
  | firstBranch _ branch => exact readBranches_eq_error.mpr (.inl branch)
  | laterBranch branch _ later =>
    exact readBranches_eq_error.mpr (.inr ⟨_, _, _, branch.takes, later⟩)
  | empty opened ends =>
    exact (readBranch_eq_error opened fun _ => beginsWithLabel_of_endsBranch ends).mpr
      (.inl ⟨ends, rfl⟩)
  | sequence opened bare filled _ pieces =>
    exact (readBranch_eq_error opened bare).mpr (.inr ⟨filled, pieces⟩)
  | firstPiece _ piece => exact readPieces_eq_error.mpr (.inl piece)
  | laterPiece piece goesOn _ later =>
    exact readPieces_eq_error.mpr (.inr ⟨_, _, piece.takes, goesOn, later⟩)
  | firstTerm joined bare folded _ first =>
    exact (readPiece_eq_error joined bare).mpr ((readJoined_plain_eq_error folded).mpr (.inl first))
  | laterTerm joined first _ others =>
    refine (readPiece_eq_error joined fun _ => first.firstToken_ne rfl).mpr ?_
    exact (readJoined_plain_eq_error (first.firstToken_ne rfl)).mpr
      (.inr ⟨_, _, first.takes, others⟩)
  | unfoldedTerm joined _ term =>
    exact (readPiece_eq_error joined fun _ => firstToken_unfold_ne_caret).mpr
      (readJoined_unfold_eq_error.mpr (.inl term))
  | unfolded joined term wrong =>
    exact (readPiece_eq_error joined fun _ => firstToken_unfold_ne_caret).mpr
      (readJoined_unfold_eq_error.mpr (.inr ⟨_, _, term.takes, _, wrong, rfl⟩))
  | nextTerm _ term => exact readOthers_comma_eq_error.mpr (.inl term)
  | laterOther term _ later => exact readOthers_comma_eq_error.mpr (.inr ⟨_, _, term.takes, later⟩)
  | noTerm absent => exact readTerm_other absent
  | word chained => exact readTerm_word_eq_error.mpr chained
  | quoted chained => exact readTerm_quoted_eq_error.mpr chained
  | inside encloses _ branches => exact encloses.eq_error_iff.mpr (.inl branches)
  | unclosed encloses branches absent =>
    exact encloses.eq_error_iff.mpr
      (.inr ⟨_, _, branches.takes, .inl (readToken_eq_error.mpr ⟨absent, rfl⟩)⟩)
  | enclosed encloses branches chained =>
    exact encloses.eq_error_iff.mpr (.inr ⟨_, _, branches.takes, .inr ⟨_, _, rfl, chained⟩⟩)

theorem Category.errs_iff_fails {category : Category} {tokens : List PlacedToken}
    {fault : ReadingFault} : category.Errs tokens fault ↔ Fails category tokens fault := by
  refine ⟨fun failed => ?_, Fails.errs⟩
  cases category with
  | branches => exact fails_branches failed
  | branch => exact fails_branch failed
  | pieces => exact fails_pieces failed
  | piece => exact fails_piece failed
  | others => exact fails_others failed
  | term => exact fails_term failed

end Errs

/-- The ways in which definitions are read up to the end, none of a symbol that is already
defined. -/
inductive ReadsDefinitions : List Symbol → List PlacedToken → List Definition → Prop where
  | nil {defined : List Symbol} : ReadsDefinitions defined [] []
  | cons {defined : List Symbol} {tokens later : List PlacedToken} {name : String}
    {values : List Branch} {definitions : List Definition} {position define closing : Position}
    (uppercase : startsUppercase name.toList = true) (fresh : ⟨name⟩ ∉ defined)
    (branches : Reads .branches tokens values (⟨.semicolon, closing⟩ :: later))
    (others : ReadsDefinitions (⟨name⟩ :: defined) later definitions) :
    ReadsDefinitions defined (⟨.word name, position⟩ :: ⟨.define, define⟩ :: tokens)
      (⟨⟨name⟩, values⟩ :: definitions)

inductive FailsDefinitions : List Symbol → List PlacedToken → ReadingFault → Prop where
  | noName {defined : List Symbol} {tokens : List PlacedToken} {token : PlacedToken}
    (absent : ∀ name, token.token = .word name → startsUppercase name.toList = false) :
    FailsDefinitions defined (token :: tokens)
      (.syntaxBefore (token :: tokens) (.expectedName (some token.token)))
  | again {defined : List Symbol} {tokens : List PlacedToken} {name : String} {position : Position}
    (uppercase : startsUppercase name.toList = true) (before : ⟨name⟩ ∈ defined) :
    FailsDefinitions defined (⟨.word name, position⟩ :: tokens)
      (.syntaxBefore (⟨.word name, position⟩ :: tokens) (.definedTwice ⟨name⟩))
  | noDefine {defined : List Symbol} {tokens : List PlacedToken} {name : String}
    {position : Position} (uppercase : startsUppercase name.toList = true)
    (fresh : ⟨name⟩ ∉ defined) (absent : firstToken tokens ≠ some .define) :
    FailsDefinitions defined (⟨.word name, position⟩ :: tokens)
      (.syntaxBefore tokens (.expectedToken .define (firstToken tokens)))
  | inside {defined : List Symbol} {tokens : List PlacedToken} {fault : ReadingFault}
    {name : String} {position define : Position}
    (uppercase : startsUppercase name.toList = true) (fresh : ⟨name⟩ ∉ defined)
    (branches : Fails .branches tokens fault) :
    FailsDefinitions defined (⟨.word name, position⟩ :: ⟨.define, define⟩ :: tokens) fault
  | unended {defined : List Symbol} {tokens between : List PlacedToken} {name : String}
    {values : List Branch} {position define : Position}
    (uppercase : startsUppercase name.toList = true) (fresh : ⟨name⟩ ∉ defined)
    (branches : Reads .branches tokens values between)
    (absent : firstToken between ≠ some .semicolon) :
    FailsDefinitions defined (⟨.word name, position⟩ :: ⟨.define, define⟩ :: tokens)
      (.syntaxBefore between (.expectedToken .semicolon (firstToken between)))
  | later {defined : List Symbol} {tokens later : List PlacedToken} {fault : ReadingFault}
    {name : String} {values : List Branch} {position define closing : Position}
    (uppercase : startsUppercase name.toList = true) (fresh : ⟨name⟩ ∉ defined)
    (branches : Reads .branches tokens values (⟨.semicolon, closing⟩ :: later))
    (others : FailsDefinitions (⟨name⟩ :: defined) later fault) :
    FailsDefinitions defined (⟨.word name, position⟩ :: ⟨.define, define⟩ :: tokens) fault

section Definitions

variable {defined : List Symbol} {tokens : List PlacedToken} {definitions : List Definition}
  {fault : ReadingFault}

theorem reads_definitions (read : readDefinitions defined tokens = .ok definitions) :
    ReadsDefinitions defined tokens definitions := by
  induction length : tokens.length using Nat.strongRecOn
    generalizing defined tokens definitions with
  | ind length ih =>
    subst length
    cases tokens with
    | nil =>
      rw [readDefinitions] at read
      cases read
      exact .nil
    | cons token later =>
      obtain ⟨name, position, rfl⟩ := exists_word_of_readDefinitions read
      obtain ⟨uppercase, fresh, define, body, values, closing, after, others, rfl, taken,
        readOthers, rfl⟩ := readDefinitions_word.mp read
      have fewer : after.length + 1 < body.length := taken.fits
      refine .cons uppercase fresh (reads_branches taken) (ih _ ?_ readOthers rfl)
      rw [List.length_cons, List.length_cons]
      omega

theorem ReadsDefinitions.read (reads : ReadsDefinitions defined tokens definitions) :
    readDefinitions defined tokens = .ok definitions := by
  induction reads with
  | nil => rw [readDefinitions]
  | cons uppercase fresh branches _ others =>
    exact readDefinitions_word.mpr
      ⟨uppercase, fresh, _, _, _, _, _, _, rfl, branches.takes, others, rfl⟩

theorem fails_definitions (failed : readDefinitions defined tokens = .error fault) :
    FailsDefinitions defined tokens fault := by
  induction length : tokens.length using Nat.strongRecOn generalizing defined tokens with
  | ind length ih =>
    subst length
    cases tokens with
    | nil =>
      rw [readDefinitions] at failed
      cases failed
    | cons token later =>
      by_cases word : ∃ name, token.token = .word name
      · obtain ⟨_, position⟩ := token
        obtain ⟨name, rfl⟩ := word
        obtain ⟨lowercase, rfl⟩ | ⟨uppercase, before, rfl⟩ | ⟨uppercase, fresh, reason⟩ :=
          readDefinitions_word_eq_error.mp failed
        · refine .noName ?_
          rintro _ ⟨⟩
          exact lowercase
        · exact .again uppercase before
        obtain noDefine | ⟨define, body, rfl, inside | ⟨values, between, taken, unended⟩⟩ := reason
        · obtain ⟨absent, rfl⟩ := readToken_eq_error.mp noDefine
          exact .noDefine uppercase fresh absent
        · exact .inside uppercase fresh (fails_branches inside)
        obtain noSemicolon | ⟨closing, after, rfl, others⟩ := unended
        · obtain ⟨absent, rfl⟩ := readToken_eq_error.mp noSemicolon
          exact .unended uppercase fresh (reads_branches taken) absent
        · have fewer : after.length + 1 < body.length := taken.fits
          refine .later uppercase fresh (reads_branches taken) (ih _ ?_ others rfl)
          rw [List.length_cons, List.length_cons]
          omega
      · have other : ∀ name, token.token ≠ .word name := not_exists.mp word
        rw [readDefinitions_other other] at failed
        cases failed
        exact .noName fun name same => absurd same (other name)

theorem FailsDefinitions.failed (fails : FailsDefinitions defined tokens fault) :
    readDefinitions defined tokens = .error fault := by
  induction fails with
  | @noName defined tokens token absent =>
    by_cases word : ∃ name, token.token = .word name
    · obtain ⟨_, position⟩ := token
      obtain ⟨name, rfl⟩ := word
      exact readDefinitions_word_eq_error.mpr (.inl ⟨absent name rfl, rfl⟩)
    · exact readDefinitions_other (not_exists.mp word)
  | again uppercase before =>
    exact readDefinitions_word_eq_error.mpr (.inr (.inl ⟨uppercase, before, rfl⟩))
  | noDefine uppercase fresh absent =>
    refine readDefinitions_word_eq_error.mpr (.inr (.inr ⟨uppercase, fresh, .inl ?_⟩))
    exact readToken_eq_error.mpr ⟨absent, rfl⟩
  | inside uppercase fresh branches =>
    exact readDefinitions_word_eq_error.mpr
      (.inr (.inr ⟨uppercase, fresh, .inr ⟨_, _, rfl, .inl branches.errs⟩⟩))
  | unended uppercase fresh branches absent =>
    refine readDefinitions_word_eq_error.mpr
      (.inr (.inr ⟨uppercase, fresh, .inr ⟨_, _, rfl, .inr ⟨_, _, branches.takes, .inl ?_⟩⟩⟩))
    exact readToken_eq_error.mpr ⟨absent, rfl⟩
  | later uppercase fresh branches _ others =>
    exact readDefinitions_word_eq_error.mpr (.inr (.inr ⟨uppercase, fresh,
      .inr ⟨_, _, rfl, .inr ⟨_, _, branches.takes, .inr ⟨_, _, rfl, others⟩⟩⟩⟩))

end Definitions

end GrammarText

end SentenceGrammar
