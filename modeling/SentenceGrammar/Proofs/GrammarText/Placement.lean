import SentenceGrammar.GrammarText
import SentenceGrammar.Proofs.GrammarText.Outcomes

/-! Where tokens stand makes no difference. Reading goes by the kinds of the tokens, and their
places are only reported. So tokens make the same grammar wherever they are placed, or there is the
same fault, apart from its place. -/

namespace SentenceGrammar

open Character

/-- A token without its place, which is put to the beginning of the text. -/
def PlacedToken.unplaced (token : PlacedToken) : PlacedToken :=
  ⟨token.token, .first⟩

mutual

def Term.unplaced : Term → Term
  | .terminal text => .terminal text
  | .reference symbol chain => .reference symbol chain
  | .group branches chain => .group (Branch.listUnplaced branches) chain
  | .optional branches chain => .optional (Branch.listUnplaced branches) chain
  | .epsilon => .epsilon

def Term.listUnplaced : List Term → List Term
  | [] => []
  | term :: later => term.unplaced :: Term.listUnplaced later

def Piece.unplaced : Piece → Piece
  | .plain junction first others => .plain junction first.unplaced (Term.listUnplaced others)
  | .unfoldGroup junction branches => .unfoldGroup junction (Branch.listUnplaced branches)
  | .unfoldOptional junction branches => .unfoldOptional junction (Branch.listUnplaced branches)
  | .unfoldSymbol junction symbol _ => .unfoldSymbol junction symbol .first

def Piece.listUnplaced : List Piece → List Piece
  | [] => []
  | piece :: later => piece.unplaced :: Piece.listUnplaced later

def Branch.listUnplaced : List Branch → List Branch
  | [] => []
  | ⟨label, pieces⟩ :: later => ⟨label, Piece.listUnplaced pieces⟩ :: Branch.listUnplaced later

end

def Branch.unplaced (branch : Branch) : Branch :=
  ⟨branch.label, Piece.listUnplaced branch.pieces⟩

theorem Branch.listUnplaced_cons (branch : Branch) (later : List Branch) :
    Branch.listUnplaced (branch :: later) = branch.unplaced :: Branch.listUnplaced later := by
  cases branch
  rfl

def Definition.unplaced (definition : Definition) : Definition :=
  ⟨definition.symbol, Branch.listUnplaced definition.branches⟩

def GrammarTextFault.unplaced : GrammarTextFault → GrammarTextFault
  | .syntaxAt _ fault => .syntaxAt .first fault
  | .malformedChain malformed => .malformedChain malformed
  | .startUndefined fault => .startUndefined fault

section Meaning

variable (unfold : Junction → Symbol → Fragment)

mutual

theorem Term.denote_unplaced : (term : Term) → term.unplaced.denote unfold = term.denote unfold
  | .terminal _ | .reference _ _ | .epsilon => rfl
  | .group branches chain | .optional branches chain => by
    rw [Term.unplaced, Term.denote, Term.denote, Branch.denoteList_unplaced branches]

theorem Term.denoteList_unplaced : (terms : List Term) →
    Term.denoteList unfold (Term.listUnplaced terms) = Term.denoteList unfold terms
  | [] => rfl
  | term :: later => by
    rw [Term.listUnplaced, Term.denoteList, Term.denoteList, term.denote_unplaced,
      Term.denoteList_unplaced later]

theorem Piece.denote_unplaced : (piece : Piece) →
    piece.unplaced.denote unfold = piece.denote unfold
  | .plain junction first [] => by
    rw [Piece.unplaced, Term.listUnplaced, Piece.denote, Piece.denote, first.denote_unplaced]
  | .plain junction first (second :: others) => by
    rw [Piece.unplaced, Term.listUnplaced, Piece.denote, Piece.denote, first.denote_unplaced,
      second.denote_unplaced, Term.denoteList_unplaced others]
  | .unfoldGroup junction branches | .unfoldOptional junction branches => by
    rw [Piece.unplaced, Piece.denote, Piece.denote, Branch.denoteList_unplaced branches]
  | .unfoldSymbol _ _ _ => rfl

theorem Piece.denoteList_unplaced : (pieces : List Piece) →
    Piece.denoteList unfold (Piece.listUnplaced pieces) = Piece.denoteList unfold pieces
  | [] => rfl
  | piece :: later => by
    rw [Piece.listUnplaced, Piece.denoteList, Piece.denoteList, piece.denote_unplaced,
      Piece.denoteList_unplaced later]

theorem Branch.denoteList_unplaced : (branches : List Branch) →
    Branch.denoteList unfold (Branch.listUnplaced branches) = Branch.denoteList unfold branches
  | [] => rfl
  | ⟨label, pieces⟩ :: later => by
    rw [Branch.listUnplaced, Branch.denoteList, Branch.denoteList,
      Piece.denoteList_unplaced pieces, Branch.denoteList_unplaced later]

end

end Meaning

def unplacedSign (sign : Symbol × Position) : Symbol × Position :=
  (sign.1, .first)

mutual

theorem Term.unfolds_unplaced : (term : Term) →
    term.unplaced.unfolds = term.unfolds.map unplacedSign
  | .terminal _ | .reference _ _ | .epsilon => rfl
  | .group branches _ | .optional branches _ => Branch.listUnfolds_unplaced branches

theorem Term.listUnfolds_unplaced : (terms : List Term) →
    Term.listUnfolds (Term.listUnplaced terms) = (Term.listUnfolds terms).map unplacedSign
  | [] => rfl
  | term :: later => by
    rw [Term.listUnplaced, Term.listUnfolds, Term.listUnfolds, term.unfolds_unplaced,
      Term.listUnfolds_unplaced later, List.map_append]

theorem Piece.unfolds_unplaced : (piece : Piece) →
    piece.unplaced.unfolds = piece.unfolds.map unplacedSign
  | .plain _ first others => by
    rw [Piece.unplaced, Piece.unfolds, Piece.unfolds, first.unfolds_unplaced,
      Term.listUnfolds_unplaced others, List.map_append]
  | .unfoldGroup _ branches | .unfoldOptional _ branches => Branch.listUnfolds_unplaced branches
  | .unfoldSymbol _ _ _ => rfl

theorem Piece.listUnfolds_unplaced : (pieces : List Piece) →
    Piece.listUnfolds (Piece.listUnplaced pieces) = (Piece.listUnfolds pieces).map unplacedSign
  | [] => rfl
  | piece :: later => by
    rw [Piece.listUnplaced, Piece.listUnfolds, Piece.listUnfolds, piece.unfolds_unplaced,
      Piece.listUnfolds_unplaced later, List.map_append]

theorem Branch.listUnfolds_unplaced : (branches : List Branch) →
    Branch.listUnfolds (Branch.listUnplaced branches) =
      (Branch.listUnfolds branches).map unplacedSign
  | [] => rfl
  | ⟨_, pieces⟩ :: later => by
    rw [Branch.listUnplaced, Branch.listUnfolds, Branch.listUnfolds,
      Piece.listUnfolds_unplaced pieces, Branch.listUnfolds_unplaced later, List.map_append]

end

namespace Definition

variable (definitions : List Definition)

theorem rules_unplaced (unfold : Junction → Symbol → Fragment) :
    rules unfold (definitions.map unplaced) = rules unfold definitions := by
  have same : rule unfold ∘ unplaced = rule unfold := by
    funext definition
    rw [Function.comp_apply, rule, unplaced, Branch.denoteList_unplaced, rule]
  rw [rules_eq_foldl, rules_eq_foldl, List.map_map, same]

theorem listUnfolds_unplaced :
    listUnfolds (definitions.map unplaced) = (listUnfolds definitions).map unplacedSign := by
  rw [listUnfolds, listUnfolds, List.flatMap_map, List.map_flatMap]
  congr 1
  funext definition
  exact Branch.listUnfolds_unplaced definition.branches

theorem startingFrom_unplaced (start : Symbol) (rules : Rules) :
    (startingFrom start rules).mapError GrammarTextFault.unplaced = startingFrom start rules := by
  rw [startingFrom]
  cases Grammar.ofRules rules start <;> rfl

theorem unfoldFrom_unplaced (table : Rules) (start : Symbol) :
    unfoldFrom table (definitions.map unplaced) start =
      (unfoldFrom table definitions start).mapError GrammarTextFault.unplaced := by
  have same : (fun sign : Symbol × Position => !table.defines sign.1) ∘ unplacedSign =
      fun sign => !table.defines sign.1 := rfl
  rw [unfoldFrom, unfoldFrom, listUnfolds_unplaced, List.find?_map, same, rules_unplaced]
  cases (listUnfolds definitions).find? fun sign => !table.defines sign.1 with
  | none => exact (startingFrom_unplaced _ _).symm
  | some sign => rfl

end Definition

def GrammarReading.unplaced (reading : GrammarReading) : GrammarReading :=
  ⟨reading.result.mapError GrammarTextFault.unplaced, reading.events⟩

theorem GrammarReading.ofDefinitions_unplaced (definitions : List Definition) (start : Symbol) :
    ofDefinitions (definitions.map Definition.unplaced) start =
      (ofDefinitions definitions start).unplaced := by
  have started := Definition.startingFrom_unplaced start
    (Definition.rules Definition.folded definitions)
  simp only [ofDefinitions, Definition.rules_unplaced, Definition.listUnfolds_unplaced,
    Definition.unfoldFrom_unplaced]
  cases result :
      Definition.startingFrom start (Definition.rules Definition.folded definitions) with
  | error fault =>
    rw [result] at started
    exact congrArg (GrammarReading.mk · []) started.symm
  | ok grammar =>
    cases Definition.listUnfolds definitions with
    | nil => rfl
    | cons sign others => simp [unplaced]

namespace GrammarText

def ReadingFault.unplaced : ReadingFault → ReadingFault
  | .syntaxBefore remaining fault => .syntaxBefore (remaining.map PlacedToken.unplaced) fault
  | .malformedChain malformed => .malformedChain malformed

def Category.unplaced : (category : Category) → category.Value → category.Value
  | .branches => Branch.listUnplaced
  | .branch => Branch.unplaced
  | .pieces => Piece.listUnplaced
  | .piece => Piece.unplaced
  | .others => Term.listUnplaced
  | .term => Term.unplaced

@[simp] theorem token_comp_unplaced :
    PlacedToken.token ∘ PlacedToken.unplaced = PlacedToken.token :=
  rfl

section Tokens

variable (tokens : List PlacedToken)

@[simp] theorem firstToken_unplaced :
    firstToken (tokens.map PlacedToken.unplaced) = firstToken tokens := by
  cases tokens <;> rfl

@[simp] theorem firstPosition_unplaced :
    firstPosition (tokens.map PlacedToken.unplaced) = .first := by
  cases tokens <;> rfl

@[simp] theorem endsBranch_unplaced :
    endsBranch (tokens.map PlacedToken.unplaced) = endsBranch tokens := by
  rw [endsBranch, firstToken_unplaced, endsBranch]

end Tokens

section Phrases

variable {tokens rest : List PlacedToken} {fault : ReadingFault}

theorem takes_readChain_unplaced {chain : Chain} (taken : Takes (readChain tokens) chain rest) :
    Takes (readChain (tokens.map PlacedToken.unplaced)) chain (rest.map PlacedToken.unplaced) := by
  obtain ⟨text, position, later, rfl⟩ | absent := exists_chain_or_not tokens
  · obtain ⟨read, rfl⟩ := takes_readChain_chain.mp taken
    exact takes_readChain_chain.mpr ⟨read, rfl⟩
  · obtain ⟨rfl, rfl⟩ := (takes_readChain_other absent).mp taken
    exact (takes_readChain_other (by simpa using absent)).mpr ⟨rfl, rfl⟩

theorem readChain_error_unplaced (failed : readChain tokens = .error fault) :
    readChain (tokens.map PlacedToken.unplaced) = .error fault.unplaced := by
  obtain ⟨text, malformed, first, read, rfl⟩ := readChain_eq_error.mp failed
  exact readChain_eq_error.mpr ⟨text, malformed, by simpa using first, read, rfl⟩

theorem Term.ofWord_unplaced (text : String) (chain : Chain) :
    (Term.ofWord text chain).unplaced = .ofWord text chain := by
  unfold Term.ofWord
  split
  · rfl
  · split <;> rfl

theorem Encloses.make_unplaced {opening closing : Token} {make : List Branch → Chain → Term}
    (encloses : Encloses opening closing make) (values : List Branch) (chain : Chain) :
    (make values chain).unplaced = make (Branch.listUnplaced values) chain := by
  cases encloses <;> rfl

theorem unfoldedPiece_unplaced {junction : Junction} {position : Position} {value : Term}
    {piece : Piece} (made : unfoldedPiece junction position value = some piece) :
    unfoldedPiece junction .first value.unplaced = some piece.unplaced := by
  rcases value with _ | ⟨symbol, _ | _⟩ | ⟨branches, _ | _⟩ | ⟨branches, _ | _⟩ | _ <;>
    cases made <;> rfl

theorem unfoldFault_unplaced (value : Term) : unfoldFault value.unplaced = unfoldFault value := by
  rcases value with _ | ⟨symbol, _ | _⟩ | ⟨branches, _ | _⟩ | ⟨branches, _ | _⟩ | _ <;> rfl

theorem Reads.unplaced {category : Category} {value : category.Value}
    (reads : Reads category tokens value rest) :
    Reads category (tokens.map PlacedToken.unplaced) (category.unplaced value)
      (rest.map PlacedToken.unplaced) := by
  induction reads with
  | @lastBranch tokens rest value _ ends branch =>
    rw [Category.unplaced, Branch.listUnplaced_cons]
    exact .lastBranch branch (by simpa using ends)
  | @nextBranch tokens after rest value values bar _ _ branch later =>
    rw [Category.unplaced, Branch.listUnplaced_cons]
    exact .nextBranch branch later
  | sequence opened bare filled _ pieces =>
    rw [List.map_append]
    exact .sequence (by simpa using opened) (by simpa using bare) (by simpa using filled) pieces
  | lastPiece _ ends piece => exact .lastPiece piece (by simpa using ends)
  | nextPiece _ goesOn _ piece later => exact .nextPiece piece (by simpa using goesOn) later
  | plain joined _ _ first others =>
    rw [List.map_append]
    exact .plain (by simpa using joined) first others
  | unfolded joined _ made term =>
    rw [List.map_append]
    refine .unfolded (by simpa using joined) term ?_
    rw [firstPosition_unplaced]
    exact unfoldedPiece_unplaced made
  | noOther ends => exact .noOther (by simpa using ends)
  | nextOther _ _ term later => exact .nextOther term later
  | word chained =>
    rw [Category.unplaced, Term.ofWord_unplaced]
    exact .word (takes_readChain_unplaced chained)
  | quoted chained => exact .quoted (takes_readChain_unplaced chained)
  | enclosed encloses _ chained branches =>
    rw [Category.unplaced, encloses.make_unplaced]
    exact .enclosed encloses branches (takes_readChain_unplaced chained)

theorem Fails.unplaced {category : Category} (fails : Fails category tokens fault) :
    Fails category (tokens.map PlacedToken.unplaced) fault.unplaced := by
  induction fails with
  | firstBranch _ branch => exact .firstBranch branch
  | laterBranch branch _ later => exact .laterBranch branch.unplaced later
  | empty opened ends =>
    rw [List.map_append]
    exact .empty (by simpa using opened) (by simpa using ends)
  | sequence opened bare filled _ pieces =>
    rw [List.map_append]
    exact .sequence (by simpa using opened) (by simpa using bare) (by simpa using filled) pieces
  | firstPiece _ piece => exact .firstPiece piece
  | laterPiece piece goesOn _ later =>
    exact .laterPiece piece.unplaced (by simpa using goesOn) later
  | firstTerm joined bare folded _ first =>
    rw [List.map_append]
    exact .firstTerm (by simpa using joined) (by simpa using bare) (by simpa using folded) first
  | laterTerm joined first _ others =>
    rw [List.map_append]
    exact .laterTerm (by simpa using joined) first.unplaced others
  | unfoldedTerm joined _ term =>
    rw [List.map_append]
    exact .unfoldedTerm (by simpa using joined) term
  | unfolded joined term wrong =>
    rw [List.map_append]
    exact .unfolded (by simpa using joined) term.unplaced (by rwa [← unfoldFault_unplaced] at wrong)
  | nextTerm _ term => exact .nextTerm term
  | laterOther term _ later => exact .laterOther term.unplaced later
  | @noTerm tokens absent =>
    rw [ReadingFault.unplaced, ← firstToken_unplaced tokens]
    exact .noTerm (by simpa using absent)
  | word chained => exact .word (readChain_error_unplaced chained)
  | quoted chained => exact .quoted (readChain_error_unplaced chained)
  | inside encloses _ branches => exact .inside encloses branches
  | @unclosed _ _ _ tokens between _ _ encloses branches absent =>
    rw [ReadingFault.unplaced, ← firstToken_unplaced between]
    exact .unclosed encloses branches.unplaced (by simpa using absent)
  | enclosed encloses branches chained =>
    exact .enclosed encloses branches.unplaced (readChain_error_unplaced chained)

theorem ReadsDefinitions.unplaced {defined : List Symbol} {definitions : List Definition}
    (reads : ReadsDefinitions defined tokens definitions) :
    ReadsDefinitions defined (tokens.map PlacedToken.unplaced)
      (definitions.map Definition.unplaced) := by
  induction reads with
  | nil => exact .nil
  | cons uppercase fresh branches _ others => exact .cons uppercase fresh branches.unplaced others

theorem FailsDefinitions.unplaced {defined : List Symbol}
    (fails : FailsDefinitions defined tokens fault) :
    FailsDefinitions defined (tokens.map PlacedToken.unplaced) fault.unplaced := by
  induction fails with
  | noName absent => exact .noName absent
  | again uppercase before => exact .again uppercase before
  | @noDefine _ tokens _ _ uppercase fresh absent =>
    rw [ReadingFault.unplaced, ← firstToken_unplaced tokens]
    exact .noDefine uppercase fresh (by simpa using absent)
  | inside uppercase fresh branches => exact .inside uppercase fresh branches.unplaced
  | @unended _ _ between _ _ _ _ uppercase fresh branches absent =>
    rw [ReadingFault.unplaced, ← firstToken_unplaced between]
    exact .unended uppercase fresh branches.unplaced (by simpa using absent)
  | later uppercase fresh branches _ others =>
    exact .later uppercase fresh branches.unplaced others

end Phrases

theorem locate_unplaced (tokens : List PlacedToken) (fault : ReadingFault) :
    fault.unplaced.locate (tokens.map PlacedToken.unplaced) = (fault.locate tokens).unplaced := by
  cases fault with
  | malformedChain malformed => rfl
  | syntaxBefore remaining fault =>
    cases remaining with
    | cons token later => rfl
    | nil =>
      simp only [ReadingFault.unplaced, List.map_nil, ReadingFault.locate, List.getLast?_map]
      cases tokens.getLast? <;> rfl

end GrammarText

open GrammarText

theorem Definition.ofTokens_unplaced (tokens : List PlacedToken) :
    ofTokens (tokens.map PlacedToken.unplaced) =
      ((ofTokens tokens).map (List.map Definition.unplaced)).mapError
        GrammarTextFault.unplaced := by
  rw [ofTokens, ofTokens]
  cases outcome : readDefinitions [] tokens with
  | ok definitions =>
    rw [(reads_definitions outcome).unplaced.read]
    rfl
  | error fault =>
    rw [(fails_definitions outcome).unplaced.failed]
    exact congrArg Except.error (locate_unplaced tokens fault)

theorem GrammarReading.ofTokens_unplaced (tokens : List PlacedToken) (start : Symbol) :
    ofTokens (tokens.map PlacedToken.unplaced) start = (ofTokens tokens start).unplaced := by
  rw [ofTokens, ofTokens, Definition.ofTokens_unplaced]
  cases Definition.ofTokens tokens with
  | ok definitions => exact ofDefinitions_unplaced definitions start
  | error fault => rfl

theorem map_unplaced_eq (tokens : List PlacedToken) :
    tokens.map PlacedToken.unplaced = (tokens.map PlacedToken.token).map (⟨·, .first⟩) := by
  rw [List.map_map]
  rfl

/-- The same tokens in other places make the same grammar, or have the same fault elsewhere. -/
theorem GrammarReading.unplaced_eq {first second : List PlacedToken}
    (same : first.map PlacedToken.token = second.map PlacedToken.token) (start : Symbol) :
    (ofTokens first start).unplaced = (ofTokens second start).unplaced := by
  rw [← ofTokens_unplaced, ← ofTokens_unplaced, map_unplaced_eq, map_unplaced_eq, same]

end SentenceGrammar
