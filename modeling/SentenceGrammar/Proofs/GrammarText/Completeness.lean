import SentenceGrammar.Proofs.GrammarText.Readers
import SentenceGrammar.Proofs.GrammarText.Splicing
import SentenceGrammar.Proofs.GrammarText.Unfolding

/-! The readers take whatever can be derived. They stop where the derivation ends, provided that
what follows cannot belong to it, and what they make of it denotes what the derivation denotes. -/

namespace SentenceGrammar

open Character

def Token.opensPiece (token : Token) : Bool :=
  token.opensTerm || token = .caret || token = .unfold

namespace GrammarText

@[reducible] def Category.Value : Category → Type
  | .branches => List Branch
  | .branch => Branch
  | .pieces => List Piece
  | .piece => Piece
  | .others => List Term
  | .term => Term

def Category.Takes : (category : Category) → List PlacedToken → category.Value →
    List PlacedToken → Prop
  | .branches, tokens, value, rest => GrammarText.Takes (readBranches tokens) value rest
  | .branch, tokens, value, rest => GrammarText.Takes (readBranch tokens) value rest
  | .pieces, tokens, value, rest => GrammarText.Takes (readPieces tokens) value rest
  | .piece, tokens, value, rest => GrammarText.Takes (readPiece tokens) value rest
  | .others, tokens, value, rest => GrammarText.Takes (readOthers tokens) value rest
  | .term, tokens, value, rest => GrammarText.Takes (readTerm tokens) value rest

/-- Tokens that cannot belong to a phrase of a category that stands before them. -/
def Category.EndsBefore : Category → List PlacedToken → Prop
  | .branches, rest => endsBranch rest = true ∧ firstToken rest ≠ some .bar
  | .branch, rest | .pieces, rest => endsBranch rest = true
  | .piece, rest | .others, rest =>
    firstToken rest ≠ some .comma ∧ ∀ text, firstToken rest ≠ some (.chain text)
  | .term, rest => ∀ text, firstToken rest ≠ some (.chain text)

def Category.denote (unfold : Junction → Symbol → Fragment) :
    (category : Category) → category.Value → category.Meaning
  | .branches, value => Branch.denoteList unfold value
  | .branch, value => Branch.denoteList unfold [value]
  | .pieces, value => (Piece.denoteList unfold value).map Fragment.options
  | .piece, value => (value.denote unfold).options
  | .others, value => Term.denoteList unfold value
  | .term, value => value.denote unfold

def Category.unfolds : (category : Category) → category.Value → List (Symbol × Position)
  | .branches, value => Branch.listUnfolds value
  | .branch, value => Branch.listUnfolds [value]
  | .pieces, value => Piece.listUnfolds value
  | .piece, value => value.unfolds
  | .others, value => Term.listUnfolds value
  | .term, value => value.unfolds

/-- What is read where a derivation begins is what the derivation stands for. -/
structure Derivation.ReadAs {category : Category} (derivation : Derivation category)
    (taken rest : List PlacedToken) (value : category.Value) : Prop where
  takes : category.Takes (taken ++ rest) value rest
  unfolds : ∀ more, unfoldSigns (taken ++ more) = category.unfolds value ++ unfoldSigns more
  denotes : ∀ {unfold : Junction → Symbol → Fragment} {unfolded : Symbol → List Alternative},
    Offers unfold unfolded → category.denote unfold value = derivation.meaning unfolded

theorem denoteList_cons (unfold : Junction → Symbol → Fragment) (branch : Branch)
    (later : List Branch) : Branch.denoteList unfold (branch :: later) =
      Branch.denoteList unfold [branch] ++ Branch.denoteList unfold later := by
  cases branch
  simp [Branch.denoteList]

theorem listUnfolds_cons (branch : Branch) (later : List Branch) :
    Branch.listUnfolds (branch :: later) =
      Branch.listUnfolds [branch] ++ Branch.listUnfolds later := by
  cases branch
  simp [Branch.listUnfolds]

theorem offers_folded : Offers Definition.folded DefinitionDerivation.kept := by
  intro junction symbol
  cases junction <;> rfl

theorem map_token_eq_cons {tokens : List PlacedToken} {token : Token} {others : List Token} :
    tokens.map PlacedToken.token = token :: others ↔
      ∃ position later, tokens = ⟨token, position⟩ :: later ∧
        later.map PlacedToken.token = others := by
  constructor
  · intro spelled
    obtain ⟨⟨_, position⟩, later, rfl, rfl, rfl⟩ := List.map_eq_cons_iff.mp spelled
    exact ⟨position, later, rfl, rfl⟩
  · intro placed
    rcases placed with ⟨position, later, rfl, rfl⟩
    rfl

theorem map_token_eq_enclosed {tokens : List PlacedToken} {opening closing : Token}
    {inner after : List Token}
    (spelled : tokens.map PlacedToken.token = opening :: (inner ++ closing :: after)) :
    ∃ start taken finish later, tokens = ⟨opening, start⟩ :: (taken ++ ⟨closing, finish⟩ :: later) ∧
      taken.map PlacedToken.token = inner ∧ later.map PlacedToken.token = after := by
  obtain ⟨start, opened, rfl, spelledOpened⟩ := map_token_eq_cons.mp spelled
  obtain ⟨taken, last, rfl, spelledInner, spelledLast⟩ := List.map_eq_append_iff.mp spelledOpened
  obtain ⟨finish, later, rfl, spelledLater⟩ := map_token_eq_cons.mp spelledLast
  exact ⟨start, taken, finish, later, rfl, spelledInner, spelledLater⟩

@[simp] theorem unfoldSigns_cons {token : Token} (other : token ≠ .unfold) (position : Position)
    (later : List PlacedToken) : unfoldSigns (⟨token, position⟩ :: later) = unfoldSigns later := by
  rw [unfoldSigns]
  simp [other]

@[simp] theorem unfoldSigns_name {name : String} (uppercase : startsUppercase name.toList = true)
    (sign position : Position) (later : List PlacedToken) :
    unfoldSigns (⟨.unfold, sign⟩ :: ⟨.word name, position⟩ :: later) =
      (⟨name⟩, position) :: unfoldSigns later := by
  rw [unfoldSigns, if_pos uppercase]

@[simp] theorem unfoldSigns_other {token : Token} (other : ∀ text, token ≠ .word text)
    (sign position : Position) (later : List PlacedToken) :
    unfoldSigns (⟨.unfold, sign⟩ :: ⟨token, position⟩ :: later) =
      unfoldSigns (⟨token, position⟩ :: later) := by
  rw [unfoldSigns]
  simp [other]

namespace Derivation

theorem exists_opensTerm (derivation : Derivation .term) :
    ∃ token later, derivation.yield = token :: later ∧ token.opensTerm = true := by
  cases derivation <;> exact ⟨_, _, rfl, rfl⟩

theorem exists_opensPiece (derivation : Derivation .piece) :
    ∃ token later, derivation.yield = token :: later ∧ token.opensPiece = true := by
  cases derivation with
  | plain junction first others =>
    cases junction with
    | space =>
      obtain ⟨token, later, spelled, opens⟩ := first.exists_opensTerm
      exact ⟨token, later ++ others.yield, by simp [junctionTokens, spelled],
        by simp [Token.opensPiece, opens]⟩
    | glue => exact ⟨_, _, rfl, rfl⟩
  | unfoldSymbol junction name uppercase => cases junction <;> exact ⟨_, _, rfl, rfl⟩
  | unfoldGroup junction branches => cases junction <;> exact ⟨_, _, rfl, rfl⟩
  | unfoldOptional junction branches => cases junction <;> exact ⟨_, _, rfl, rfl⟩

theorem exists_opensPieces (derivation : Derivation .pieces) :
    ∃ token later, derivation.yield = token :: later ∧ token.opensPiece = true := by
  cases derivation with
  | lastPiece piece => exact piece.exists_opensPiece
  | nextPiece piece later =>
    obtain ⟨token, others, spelled, opens⟩ := piece.exists_opensPiece
    exact ⟨token, others ++ later.yield, by simp [spelled], opens⟩

theorem beginsWithLabel_term (derivation : Derivation .term) {after : List Token}
    (other : after.head? ≠ some .colon) : beginsWithLabel (derivation.yield ++ after) = false := by
  cases derivation with
  | word text chain =>
    cases chain with
    | none =>
      rcases after with _ | ⟨token, after⟩
      · rfl
      · cases token <;> first | rfl | exact absurd rfl other
    | some chain => rfl
  | quoted text chain => rfl
  | group branches chain => rfl
  | optional branches chain => rfl

theorem beginsWithLabel_piece (derivation : Derivation .piece) {after : List Token}
    (other : after.head? ≠ some .colon) : beginsWithLabel (derivation.yield ++ after) = false := by
  cases derivation with
  | plain junction first others =>
    cases junction with
    | space =>
      simp only [yield, junctionTokens, List.nil_append, List.append_assoc]
      apply first.beginsWithLabel_term
      cases others with
      | noOther => exact other
      | nextOther term later => simp
    | glue => rfl
  | unfoldSymbol junction name uppercase => cases junction <;> rfl
  | unfoldGroup junction branches => cases junction <;> rfl
  | unfoldOptional junction branches => cases junction <;> rfl

theorem beginsWithLabel_pieces (derivation : Derivation .pieces) {after : List Token}
    (other : after.head? ≠ some .colon) : beginsWithLabel (derivation.yield ++ after) = false := by
  cases derivation with
  | lastPiece piece => exact piece.beginsWithLabel_piece other
  | nextPiece piece later =>
    simp only [yield, List.append_assoc]
    apply piece.beginsWithLabel_piece
    obtain ⟨token, others, spelled, opens⟩ := later.exists_opensPieces
    rw [spelled]
    intro same
    cases same
    cases opens

end Derivation

theorem takes_readChain {chain : Option String} {taken rest : List PlacedToken}
    (spelled : taken.map PlacedToken.token = chainTokens chain)
    (accepted : EachChain Chain.Readable (chainTokens chain))
    (ends : Category.term.EndsBefore rest) :
    Takes (readChain (taken ++ rest)) (chainMeaning chain) rest := by
  cases chain with
  | none =>
    rw [List.map_eq_nil_iff.mp spelled]
    exact (takes_readChain_other ends).mpr ⟨rfl, rfl⟩
  | some text =>
    obtain ⟨position, later, rfl, empty⟩ := map_token_eq_cons.mp spelled
    rw [List.map_eq_nil_iff.mp empty]
    obtain ⟨chain, read⟩ := accepted text List.mem_cons_self
    refine takes_readChain_chain.mpr ⟨?_, rfl⟩
    rw [chainMeaning, read]
    rfl

theorem unfoldSigns_chain {chain : Option String} {taken : List PlacedToken}
    (spelled : taken.map PlacedToken.token = chainTokens chain) (more : List PlacedToken) :
    unfoldSigns (taken ++ more) = unfoldSigns more := by
  cases chain with
  | none => rw [List.map_eq_nil_iff.mp spelled, List.nil_append]
  | some text =>
    obtain ⟨position, later, rfl, empty⟩ := map_token_eq_cons.mp spelled
    simp [List.map_eq_nil_iff.mp empty]

theorem takes_readPiece {junction : Junction} {taken tokens rest : List PlacedToken} {piece : Piece}
    (spelled : taken.map PlacedToken.token = junctionTokens junction)
    (bare : firstToken tokens ≠ some .caret) :
    Takes (readPiece (taken ++ tokens)) piece rest ↔
      Takes (readJoined junction tokens) piece rest := by
  cases junction with
  | space =>
    rw [List.map_eq_nil_iff.mp spelled]
    exact takes_readPiece_other bare
  | glue =>
    obtain ⟨position, later, rfl, empty⟩ := map_token_eq_cons.mp spelled
    rw [List.map_eq_nil_iff.mp empty]
    exact takes_readPiece_caret

theorem unfoldSigns_junction {junction : Junction} {taken : List PlacedToken}
    (spelled : taken.map PlacedToken.token = junctionTokens junction) (more : List PlacedToken) :
    unfoldSigns (taken ++ more) = unfoldSigns more := by
  cases junction with
  | space => rw [List.map_eq_nil_iff.mp spelled, List.nil_append]
  | glue =>
    obtain ⟨position, later, rfl, empty⟩ := map_token_eq_cons.mp spelled
    simp [List.map_eq_nil_iff.mp empty]

namespace Derivation

variable {taken rest : List PlacedToken}

theorem endsBranch_pieces {pieces : Derivation .pieces}
    (spelled : taken.map PlacedToken.token = pieces.yield) :
    endsBranch (taken ++ rest) = false := by
  obtain ⟨token, others, opened, opens⟩ := pieces.exists_opensPieces
  obtain ⟨position, later, rfl, _⟩ := map_token_eq_cons.mp (spelled.trans opened)
  cases token <;> first | rfl | cases opens

theorem endsBefore_pieces {pieces : Derivation .pieces}
    (spelled : taken.map PlacedToken.token = pieces.yield) :
    Category.piece.EndsBefore (taken ++ rest) := by
  obtain ⟨token, others, opened, opens⟩ := pieces.exists_opensPieces
  obtain ⟨position, later, rfl, _⟩ := map_token_eq_cons.mp (spelled.trans opened)
  constructor
  · intro same
    cases same
    cases opens
  · intro text same
    cases same
    cases opens

theorem endsBefore_of_endsBranch (ends : endsBranch rest = true) :
    Category.piece.EndsBefore rest := by
  unfold endsBranch at ends
  constructor
  · intro first
    rw [first] at ends
    cases ends
  · intro text first
    rw [first] at ends
    cases ends

theorem endsBefore_bar (bar : Position) : Category.branch.EndsBefore (⟨.bar, bar⟩ :: rest) :=
  rfl

theorem endsBefore_closing {token : Token}
    (closes : token = .closeParen ∨ token = .closeBracket ∨ token = .semicolon)
    (position : Position) : Category.branches.EndsBefore (⟨token, position⟩ :: rest) := by
  rcases closes with rfl | rfl | rfl <;> exact ⟨rfl, by simp [firstToken]⟩

theorem endsBefore_others {others : Derivation .others}
    (spelled : taken.map PlacedToken.token = others.yield)
    (ends : Category.others.EndsBefore rest) : Category.term.EndsBefore (taken ++ rest) := by
  cases others with
  | noOther =>
    rw [List.map_eq_nil_iff.mp spelled]
    exact ends.2
  | nextOther term later =>
    obtain ⟨comma, after, rfl, _⟩ := map_token_eq_cons.mp spelled
    intro text same
    cases same

theorem firstToken_ne_colon (ends : endsBranch rest = true) :
    (rest.map PlacedToken.token).head? ≠ some .colon := by
  unfold endsBranch firstToken at ends
  intro first
  rw [List.head?_map] at first
  rw [first] at ends
  cases ends

namespace ReadAs

theorem lastBranch {branch : Derivation .branch} {value : Branch}
    (read : branch.ReadAs taken rest value) (other : firstToken rest ≠ some .bar) :
    (lastBranch branch).ReadAs taken rest [value] where
  takes := takes_readBranches.mpr ⟨value, rest, read.takes, .inl ⟨other, rfl, rfl⟩⟩
  unfolds := read.unfolds
  denotes := read.denotes

theorem nextBranch {branch : Derivation .branch} {later : Derivation .branches} {value : Branch}
    {values : List Branch} {bar : Position} {after : List PlacedToken}
    (first : branch.ReadAs taken (⟨.bar, bar⟩ :: (after ++ rest)) value)
    (others : later.ReadAs after rest values) :
    (nextBranch branch later).ReadAs (taken ++ ⟨.bar, bar⟩ :: after) rest (value :: values) where
  takes := by
    rw [List.append_assoc]
    exact takes_readBranches.mpr
      ⟨value, _, first.takes, .inr ⟨bar, _, values, rfl, others.takes, rfl⟩⟩
  unfolds more := by
    simp [first.unfolds, others.unfolds, Category.unfolds, listUnfolds_cons value values]
  denotes agree := by
    rw [meaning, ← first.denotes agree, ← others.denotes agree]
    exact denoteList_cons _ value values

theorem denotes_sequence {unfold : Junction → Symbol → Fragment}
    {unfolded : Symbol → List Alternative} {pieces : Derivation .pieces} {value : List Piece}
    (label : Option String)
    (denotes : Category.pieces.denote unfold value = pieces.meaning unfolded) :
    Category.branch.denote unfold ⟨label.map Label.mk, value⟩ =
      (sequence label pieces).meaning unfolded := by
  rw [meaning, ← denotes]
  simp [Category.denote, Branch.denoteList, Fragment.splice_eq_selections]

theorem unlabelled {pieces : Derivation .pieces} {value : List Piece}
    (spelled : taken.map PlacedToken.token = pieces.yield) (ends : endsBranch rest = true)
    (read : pieces.ReadAs taken rest value) :
    (sequence none pieces).ReadAs taken rest ⟨none, value⟩ where
  takes := by
    have absent := pieces.beginsWithLabel_pieces (firstToken_ne_colon ends)
    rw [← spelled, ← List.map_append] at absent
    exact (takes_readBranch_unlabelled absent).mpr
      ⟨endsBranch_pieces spelled, value, read.takes, rfl⟩
  unfolds := by simpa [Category.unfolds, Branch.listUnfolds] using read.unfolds
  denotes agree := denotes_sequence none (read.denotes agree)

theorem labelled {pieces : Derivation .pieces} {value : List Piece} {label : String}
    {position colon : Position} (spelled : taken.map PlacedToken.token = pieces.yield)
    (read : pieces.ReadAs taken rest value) :
    (sequence (some label) pieces).ReadAs (⟨.word label, position⟩ :: ⟨.colon, colon⟩ :: taken) rest
      ⟨some ⟨label⟩, value⟩ where
  takes := takes_readBranch_labelled.mpr ⟨endsBranch_pieces spelled, value, read.takes, rfl⟩
  unfolds := by simpa [Category.unfolds, Branch.listUnfolds] using read.unfolds
  denotes agree := denotes_sequence (some label) (read.denotes agree)

theorem lastPiece {piece : Derivation .piece} {value : Piece} (ends : endsBranch rest = true)
    (read : piece.ReadAs taken rest value) : (lastPiece piece).ReadAs taken rest [value] where
  takes := takes_readPieces.mpr ⟨value, rest, read.takes, .inl ⟨ends, rfl, rfl⟩⟩
  unfolds := by simpa [Category.unfolds, Piece.listUnfolds] using read.unfolds
  denotes agree := by
    rw [meaning, ← read.denotes agree]
    rfl

theorem nextPiece {piece : Derivation .piece} {later : Derivation .pieces} {value : Piece}
    {values : List Piece} {after : List PlacedToken}
    (spelled : after.map PlacedToken.token = later.yield)
    (first : piece.ReadAs taken (after ++ rest) value) (others : later.ReadAs after rest values) :
    (nextPiece piece later).ReadAs (taken ++ after) rest (value :: values) where
  takes := by
    rw [List.append_assoc]
    exact takes_readPieces.mpr
      ⟨value, _, first.takes, .inr ⟨endsBranch_pieces spelled, values, others.takes, rfl⟩⟩
  unfolds more := by
    simp [first.unfolds, others.unfolds, Category.unfolds, Piece.listUnfolds]
  denotes agree := by
    rw [meaning, ← first.denotes agree, ← others.denotes agree]
    rfl

theorem plain {junction : Junction} {first : Derivation .term} {others : Derivation .others}
    {front further : List PlacedToken} {value : Term} {values : List Term}
    (joined : front.map PlacedToken.token = junctionTokens junction)
    (spelled : taken.map PlacedToken.token = first.yield)
    (readFirst : first.ReadAs taken (further ++ rest) value)
    (readOthers : others.ReadAs further rest values) :
    (plain junction first others).ReadAs (front ++ (taken ++ further)) rest
      (.plain junction value values) where
  takes := by
    obtain ⟨token, later, opened, opens⟩ := first.exists_opensTerm
    obtain ⟨position, after, rfl, _⟩ := map_token_eq_cons.mp (spelled.trans opened)
    rw [List.append_assoc, List.append_assoc]
    refine (takes_readPiece joined ?_).mpr ((takes_readJoined_plain ?_).mpr
      ⟨value, _, values, readFirst.takes, readOthers.takes, rfl⟩)
    · intro same
      cases same
      cases opens
    · intro same
      cases same
      cases opens
  unfolds more := by
    simp [unfoldSigns_junction joined, readFirst.unfolds, readOthers.unfolds, Category.unfolds,
      Piece.unfolds]
  denotes agree := by
    have denoted := readOthers.denotes agree
    rw [meaning, ← readFirst.denotes agree, ← denoted]
    cases values <;> rfl

theorem unfoldSymbol {junction : Junction} {name : String}
    (uppercase : startsUppercase name.toList = true) {front : List PlacedToken}
    {sign position : Position} (joined : front.map PlacedToken.token = junctionTokens junction)
    (ends : Category.term.EndsBefore rest) :
    (unfoldSymbol junction name uppercase).ReadAs
      (front ++ [⟨.unfold, sign⟩, ⟨.word name, position⟩]) rest
      (.unfoldSymbol junction ⟨name⟩ position) where
  takes := by
    rw [List.append_assoc]
    have bare : firstToken (⟨.unfold, sign⟩ :: ⟨.word name, position⟩ :: rest) ≠ some .caret := by
      simp [firstToken]
    refine (takes_readPiece joined bare).mpr
      (takes_readJoined_unfold.mpr ⟨.reference ⟨name⟩ [], ?_, rfl⟩)
    refine takes_readTerm_word.mpr ⟨[], (takes_readChain_other ends).mpr ⟨rfl, rfl⟩, ?_⟩
    have different : name ≠ "_" := by
      intro same
      subst same
      revert uppercase
      decide
    rw [Term.ofWord, if_neg different, if_pos uppercase]
  unfolds more := by
    simp [unfoldSigns_junction joined, uppercase, Category.unfolds, Piece.unfolds]
  denotes agree := agree junction ⟨name⟩

theorem unfoldGroup {junction : Junction} {branches : Derivation .branches}
    {values : List Branch} {front : List PlacedToken} {sign opening closing : Position}
    (joined : front.map PlacedToken.token = junctionTokens junction)
    (ends : Category.term.EndsBefore rest)
    (read : branches.ReadAs taken (⟨.closeParen, closing⟩ :: rest) values) :
    (unfoldGroup junction branches).ReadAs
      (front ++ ⟨.unfold, sign⟩ :: ⟨.openParen, opening⟩ :: (taken ++ [⟨.closeParen, closing⟩]))
      rest (.unfoldGroup junction values) where
  takes := by
    simp only [List.append_assoc, List.cons_append, List.nil_append]
    have bare : firstToken (⟨.unfold, sign⟩ :: ⟨.openParen, opening⟩ ::
        (taken ++ ⟨.closeParen, closing⟩ :: rest)) ≠ some .caret := by
      simp [firstToken]
    refine (takes_readPiece joined bare).mpr
      (takes_readJoined_unfold.mpr ⟨.group values [], ?_, rfl⟩)
    exact takes_readTerm_group.mpr
      ⟨values, closing, rest, [], read.takes, (takes_readChain_other ends).mpr ⟨rfl, rfl⟩, rfl⟩
  unfolds more := by
    simp [unfoldSigns_junction joined, read.unfolds, Category.unfolds, Piece.unfolds]
  denotes agree := by
    rw [meaning, ← read.denotes agree]
    rfl

theorem unfoldOptional {junction : Junction} {branches : Derivation .branches}
    {values : List Branch} {front : List PlacedToken} {sign opening closing : Position}
    (joined : front.map PlacedToken.token = junctionTokens junction)
    (ends : Category.term.EndsBefore rest)
    (read : branches.ReadAs taken (⟨.closeBracket, closing⟩ :: rest) values) :
    (unfoldOptional junction branches).ReadAs
      (front ++ ⟨.unfold, sign⟩ :: ⟨.openBracket, opening⟩ :: (taken ++ [⟨.closeBracket, closing⟩]))
      rest (.unfoldOptional junction values) where
  takes := by
    simp only [List.append_assoc, List.cons_append, List.nil_append]
    have bare : firstToken (⟨.unfold, sign⟩ :: ⟨.openBracket, opening⟩ ::
        (taken ++ ⟨.closeBracket, closing⟩ :: rest)) ≠ some .caret := by
      simp [firstToken]
    refine (takes_readPiece joined bare).mpr
      (takes_readJoined_unfold.mpr ⟨.optional values [], ?_, rfl⟩)
    exact takes_readTerm_optional.mpr
      ⟨values, closing, rest, [], read.takes, (takes_readChain_other ends).mpr ⟨rfl, rfl⟩, rfl⟩
  unfolds more := by
    simp [unfoldSigns_junction joined, read.unfolds, Category.unfolds, Piece.unfolds]
  denotes agree := by
    rw [meaning, ← read.denotes agree]
    rfl

theorem noOther (ends : Category.others.EndsBefore rest) : noOther.ReadAs [] rest [] where
  takes := (takes_readOthers_other ends.1).mpr ⟨rfl, rfl⟩
  unfolds _ := rfl
  denotes _ := rfl

theorem nextOther {term : Derivation .term} {later : Derivation .others} {value : Term}
    {values : List Term} {comma : Position} {after : List PlacedToken}
    (first : term.ReadAs taken (after ++ rest) value) (others : later.ReadAs after rest values) :
    (nextOther term later).ReadAs (⟨.comma, comma⟩ :: (taken ++ after)) rest (value :: values) where
  takes := by
    rw [List.cons_append, List.append_assoc]
    exact takes_readOthers_comma.mpr ⟨value, _, values, first.takes, others.takes, rfl⟩
  unfolds more := by
    simp [first.unfolds, others.unfolds, Category.unfolds, Term.listUnfolds]
  denotes agree := by
    rw [meaning, ← first.denotes agree, ← others.denotes agree]
    rfl

section Chains

variable {chain : Option String} {chained : List PlacedToken} {position : Position}

theorem word {text : String} (spelled : chained.map PlacedToken.token = chainTokens chain)
    (accepted : EachChain Chain.Readable (chainTokens chain))
    (ends : Category.term.EndsBefore rest) :
    (word text chain).ReadAs (⟨.word text, position⟩ :: chained) rest
      (.ofWord text (chainMeaning chain)) where
  takes := takes_readTerm_word.mpr ⟨_, takes_readChain spelled accepted ends, rfl⟩
  unfolds more := by
    have none : (Term.ofWord text (chainMeaning chain)).unfolds = [] := by
      unfold Term.ofWord
      split
      · rfl
      · split <;> rfl
    simp [unfoldSigns_chain spelled, Category.unfolds, none]
  denotes agree := by
    simp only [Category.denote, Term.ofWord, meaning]
    split
    · rfl
    · split <;> rfl

theorem quoted {text : String} (spelled : chained.map PlacedToken.token = chainTokens chain)
    (accepted : EachChain Chain.Readable (chainTokens chain))
    (ends : Category.term.EndsBefore rest) :
    (quoted text chain).ReadAs (⟨.quoted text, position⟩ :: chained) rest (.terminal text) where
  takes := takes_readTerm_quoted.mpr ⟨_, takes_readChain spelled accepted ends, rfl⟩
  unfolds more := by simp [unfoldSigns_chain spelled, Category.unfolds, Term.unfolds]
  denotes _ := rfl

theorem group {branches : Derivation .branches} {values : List Branch} {closing : Position}
    (spelled : chained.map PlacedToken.token = chainTokens chain)
    (accepted : EachChain Chain.Readable (chainTokens chain)) (ends : Category.term.EndsBefore rest)
    (read : branches.ReadAs taken (⟨.closeParen, closing⟩ :: (chained ++ rest)) values) :
    (group branches chain).ReadAs
      (⟨.openParen, position⟩ :: (taken ++ ⟨.closeParen, closing⟩ :: chained)) rest
      (.group values (chainMeaning chain)) where
  takes := by
    rw [List.cons_append, List.append_assoc]
    exact takes_readTerm_group.mpr
      ⟨values, closing, _, _, read.takes, takes_readChain spelled accepted ends, rfl⟩
  unfolds more := by
    simp [read.unfolds, unfoldSigns_chain spelled, Category.unfolds, Term.unfolds]
  denotes agree := by
    rw [meaning, ← read.denotes agree]
    rfl

theorem optional {branches : Derivation .branches} {values : List Branch} {closing : Position}
    (spelled : chained.map PlacedToken.token = chainTokens chain)
    (accepted : EachChain Chain.Readable (chainTokens chain)) (ends : Category.term.EndsBefore rest)
    (read : branches.ReadAs taken (⟨.closeBracket, closing⟩ :: (chained ++ rest)) values) :
    (optional branches chain).ReadAs
      (⟨.openBracket, position⟩ :: (taken ++ ⟨.closeBracket, closing⟩ :: chained)) rest
      (.optional values (chainMeaning chain)) where
  takes := by
    rw [List.cons_append, List.append_assoc]
    exact takes_readTerm_optional.mpr
      ⟨values, closing, _, _, read.takes, takes_readChain spelled accepted ends, rfl⟩
  unfolds more := by
    simp [read.unfolds, unfoldSigns_chain spelled, Category.unfolds, Term.unfolds]
  denotes agree := by
    rw [meaning, ← read.denotes agree]
    rfl

end Chains

end ReadAs

/-- The reader of a category takes whatever can be derived from it. -/
theorem exists_readAs {category : Category} (derivation : Derivation category) :
    ∀ {taken rest : List PlacedToken}, taken.map PlacedToken.token = derivation.yield →
      EachChain Chain.Readable derivation.yield → category.EndsBefore rest →
      ∃ value, derivation.ReadAs taken rest value := by
  induction derivation with
  | lastBranch branch ih =>
    intro taken rest spelled accepted ends
    obtain ⟨value, read⟩ := ih spelled accepted ends.1
    exact ⟨[value], .lastBranch read ends.2⟩
  | nextBranch branch later first others =>
    intro taken rest spelled accepted ends
    obtain ⟨front, back, rfl, spelledFront, spelledBack⟩ := List.map_eq_append_iff.mp spelled
    obtain ⟨bar, after, rfl, spelledAfter⟩ := map_token_eq_cons.mp spelledBack
    simp only [yield, eachChain_append, eachChain_cons] at accepted
    obtain ⟨values, readLater⟩ := others spelledAfter accepted.2.2 ends
    obtain ⟨value, read⟩ := first spelledFront accepted.1 (endsBefore_bar bar)
    exact ⟨value :: values, .nextBranch read readLater⟩
  | sequence label pieces ih =>
    intro taken rest spelled accepted ends
    cases label with
    | none =>
      obtain ⟨value, read⟩ := ih spelled accepted ends
      exact ⟨_, .unlabelled spelled ends read⟩
    | some label =>
      obtain ⟨position, after, rfl, spelledAfter⟩ := map_token_eq_cons.mp spelled
      obtain ⟨colon, body, rfl, spelledBody⟩ := map_token_eq_cons.mp spelledAfter
      simp only [yield, eachChain_append] at accepted
      obtain ⟨value, read⟩ := ih spelledBody accepted.2 ends
      exact ⟨_, .labelled spelledBody read⟩
  | lastPiece piece ih =>
    intro taken rest spelled accepted ends
    obtain ⟨value, read⟩ := ih spelled accepted (endsBefore_of_endsBranch ends)
    exact ⟨[value], .lastPiece ends read⟩
  | nextPiece piece later first others =>
    intro taken rest spelled accepted ends
    obtain ⟨front, back, rfl, spelledFront, spelledBack⟩ := List.map_eq_append_iff.mp spelled
    simp only [yield, eachChain_append] at accepted
    obtain ⟨values, readLater⟩ := others spelledBack accepted.2 ends
    obtain ⟨value, read⟩ := first spelledFront accepted.1 (endsBefore_pieces spelledBack)
    exact ⟨value :: values, .nextPiece spelledBack read readLater⟩
  | plain junction first others readFirst readOthers =>
    intro taken rest spelled accepted ends
    obtain ⟨front, back, rfl, joined, spelledBack⟩ := List.map_eq_append_iff.mp spelled
    obtain ⟨term, further, rfl, spelledTerm, spelledFurther⟩ :=
      List.map_eq_append_iff.mp spelledBack
    simp only [yield, eachChain_append] at accepted
    obtain ⟨values, readLater⟩ := readOthers spelledFurther accepted.2.2 ends
    obtain ⟨value, read⟩ := readFirst spelledTerm accepted.2.1
      (endsBefore_others spelledFurther ends)
    exact ⟨_, .plain joined spelledTerm read readLater⟩
  | unfoldSymbol junction name uppercase =>
    intro taken rest spelled accepted ends
    obtain ⟨front, back, rfl, joined, spelledBack⟩ := List.map_eq_append_iff.mp spelled
    obtain ⟨sign, after, rfl, spelledName⟩ := map_token_eq_cons.mp spelledBack
    obtain ⟨position, later, rfl, empty⟩ := map_token_eq_cons.mp spelledName
    rw [List.map_eq_nil_iff.mp empty]
    exact ⟨_, .unfoldSymbol uppercase joined ends.2⟩
  | unfoldGroup junction branches ih =>
    intro taken rest spelled accepted ends
    obtain ⟨front, back, rfl, joined, spelledBack⟩ := List.map_eq_append_iff.mp spelled
    obtain ⟨sign, signed, rfl, spelledSigned⟩ := map_token_eq_cons.mp spelledBack
    obtain ⟨opening, inner, closing, later, rfl, spelledInner, empty⟩ :=
      map_token_eq_enclosed spelledSigned
    rw [List.map_eq_nil_iff.mp empty]
    simp only [yield, eachChain_append, eachChain_cons] at accepted
    obtain ⟨values, read⟩ := ih spelledInner accepted.2.2.2.1
      (endsBefore_closing (.inl rfl) closing)
    exact ⟨_, .unfoldGroup joined ends.2 read⟩
  | unfoldOptional junction branches ih =>
    intro taken rest spelled accepted ends
    obtain ⟨front, back, rfl, joined, spelledBack⟩ := List.map_eq_append_iff.mp spelled
    obtain ⟨sign, signed, rfl, spelledSigned⟩ := map_token_eq_cons.mp spelledBack
    obtain ⟨opening, inner, closing, later, rfl, spelledInner, empty⟩ :=
      map_token_eq_enclosed spelledSigned
    rw [List.map_eq_nil_iff.mp empty]
    simp only [yield, eachChain_append, eachChain_cons] at accepted
    obtain ⟨values, read⟩ := ih spelledInner accepted.2.2.2.1
      (endsBefore_closing (.inr (.inl rfl)) closing)
    exact ⟨_, .unfoldOptional joined ends.2 read⟩
  | noOther =>
    intro taken rest spelled accepted ends
    rw [List.map_eq_nil_iff.mp spelled]
    exact ⟨[], .noOther ends⟩
  | nextOther term later readTerm readLater =>
    intro taken rest spelled accepted ends
    obtain ⟨comma, back, rfl, spelledBack⟩ := map_token_eq_cons.mp spelled
    obtain ⟨front, after, rfl, spelledFront, spelledAfter⟩ := List.map_eq_append_iff.mp spelledBack
    simp only [yield, eachChain_append, eachChain_cons] at accepted
    obtain ⟨values, others⟩ := readLater spelledAfter accepted.2.2 ends
    obtain ⟨value, first⟩ := readTerm spelledFront accepted.2.1
      (endsBefore_others spelledAfter ends)
    exact ⟨value :: values, .nextOther first others⟩
  | word text chain =>
    intro taken rest spelled accepted ends
    obtain ⟨position, chained, rfl, spelledChain⟩ := map_token_eq_cons.mp spelled
    exact ⟨_, .word spelledChain (eachChain_cons.mp accepted).2 ends⟩
  | quoted text chain =>
    intro taken rest spelled accepted ends
    obtain ⟨position, chained, rfl, spelledChain⟩ := map_token_eq_cons.mp spelled
    exact ⟨_, .quoted spelledChain (eachChain_cons.mp accepted).2 ends⟩
  | group branches chain ih =>
    intro taken rest spelled accepted ends
    obtain ⟨opening, inner, closing, chained, rfl, spelledInner, spelledChain⟩ :=
      map_token_eq_enclosed spelled
    simp only [yield, eachChain_append, eachChain_cons] at accepted
    obtain ⟨values, read⟩ := ih spelledInner accepted.2.1 (endsBefore_closing (.inl rfl) closing)
    exact ⟨_, .group spelledChain accepted.2.2.2 ends read⟩
  | optional branches chain ih =>
    intro taken rest spelled accepted ends
    obtain ⟨opening, inner, closing, chained, rfl, spelledInner, spelledChain⟩ :=
      map_token_eq_enclosed spelled
    simp only [yield, eachChain_append, eachChain_cons] at accepted
    obtain ⟨values, read⟩ := ih spelledInner accepted.2.1
      (endsBefore_closing (.inr (.inl rfl)) closing)
    exact ⟨_, .optional spelledChain accepted.2.2.2 ends read⟩

end Derivation

theorem exists_readDefinitions {derivations : List DefinitionDerivation}
    {tokens : List PlacedToken} {defined : List Symbol}
    (spelled : tokens.map PlacedToken.token = DefinitionDerivation.listYield derivations)
    (distinct : (derivations.map DefinitionDerivation.symbol).Nodup)
    (readable : EachChain Chain.Readable (tokens.map PlacedToken.token))
    (fresh : ∀ derivation ∈ derivations, derivation.symbol ∉ defined) :
    ∃ definitions, readDefinitions defined tokens = .ok definitions ∧
      Definition.listUnfolds definitions = unfoldSigns tokens ∧
      ∀ {unfold unfolded}, Offers unfold unfolded →
        definitions.map (Definition.rule unfold) =
          derivations.map (DefinitionDerivation.rule unfolded) := by
  induction derivations generalizing tokens defined with
  | nil =>
    rw [List.map_eq_nil_iff.mp spelled]
    exact ⟨[], by rw [readDefinitions], rfl, fun _ => rfl⟩
  | cons derivation others ih =>
    rw [DefinitionDerivation.listYield_cons] at spelled
    obtain ⟨name, header, rfl, spelledHeader⟩ := map_token_eq_cons.mp spelled
    obtain ⟨define, body, rfl, spelledBody⟩ := map_token_eq_cons.mp spelledHeader
    obtain ⟨taken, ending, rfl, spelledBranches, spelledEnding⟩ :=
      List.map_eq_append_iff.mp spelledBody
    obtain ⟨semicolon, later, rfl, spelledLater⟩ := map_token_eq_cons.mp spelledEnding
    obtain ⟨absent, distinctLater⟩ := List.nodup_cons.mp distinct
    simp only [List.map_append, List.map_cons, eachChain_cons, eachChain_append] at readable
    obtain ⟨values, read⟩ := derivation.branches.exists_readAs spelledBranches
      (spelledBranches ▸ readable.2.2.1)
      (Derivation.endsBefore_closing (.inr (.inr rfl)) semicolon)
    have freshLater : ∀ other ∈ others, other.symbol ∉ derivation.symbol :: defined := by
      intro other member again
      rcases List.mem_cons.mp again with same | before
      · exact absent (same ▸ List.mem_map_of_mem member)
      · exact fresh other (List.mem_cons_of_mem _ member) before
    obtain ⟨definitions, readLater, unfolds, rules⟩ :=
      ih spelledLater distinctLater readable.2.2.2.2 freshLater
    refine ⟨⟨derivation.symbol, values⟩ :: definitions, ?_, ?_, ?_⟩
    · exact readDefinitions_word.mpr ⟨derivation.uppercase, fresh derivation List.mem_cons_self,
        define, _, values, semicolon, later, definitions, rfl, read.takes, readLater, rfl⟩
    · have branches := read.unfolds (⟨.semicolon, semicolon⟩ :: later)
      simp [Definition.listUnfolds, branches, ← unfolds, Category.unfolds]
    · intro unfold unfolded offers
      have branches := read.denotes offers
      rw [List.map_cons, List.map_cons, rules offers]
      simp only [Definition.rule, DefinitionDerivation.rule, ← branches, Category.denote]

end GrammarText

end SentenceGrammar
