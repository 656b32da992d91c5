import SentenceGrammar.Proofs.GrammarText.Completeness

/-! Whatever a reader takes can be derived. The proofs follow the readers, and the tokens get fewer
from one to the next as they do there. -/

namespace SentenceGrammar

open Character

def Chain.NotEmpty (text : String) : Prop :=
  Chain.read text ≠ .ok []

namespace GrammarText

def Derivation.Spans {category : Category} (derivation : Derivation category)
    (tokens rest : List PlacedToken) : Prop :=
  ∃ taken, tokens = taken ++ rest ∧ taken.map PlacedToken.token = derivation.yield ∧
    EachChain Chain.Readable derivation.yield

section Chains

variable {tokens rest : List PlacedToken}

theorem exists_chain {chain : Chain} (taken : Takes (readChain tokens) chain rest) :
    ∃ text chained, tokens = chained ++ rest ∧ chained.map PlacedToken.token = chainTokens text ∧
      EachChain Chain.Readable (chainTokens text) := by
  by_cases chained : ∃ text, firstToken tokens = some (.chain text)
  · obtain ⟨text, first⟩ := chained
    obtain ⟨position, after, rfl⟩ := exists_of_firstToken first
    obtain ⟨read, rfl⟩ := takes_readChain_chain.mp taken
    have readable : Chain.Readable text := ⟨chain, read⟩
    exact ⟨some text, [⟨.chain text, position⟩], rfl, rfl, by simpa [chainTokens] using readable⟩
  · obtain ⟨_, rfl⟩ := (takes_readChain_other (not_exists.mp chained)).mp taken
    exact ⟨none, [], rfl, rfl, eachChain_nil⟩

theorem eq_of_takes_nil (solid : EachChain Chain.NotEmpty (tokens.map PlacedToken.token))
    (taken : Takes (readChain tokens) [] rest) : tokens = rest := by
  by_cases chained : ∃ text, firstToken tokens = some (.chain text)
  · obtain ⟨text, first⟩ := chained
    obtain ⟨position, after, rfl⟩ := exists_of_firstToken first
    obtain ⟨read, _⟩ := takes_readChain_chain.mp taken
    exact absurd read (solid text List.mem_cons_self)
  · exact ((takes_readChain_other (not_exists.mp chained)).mp taken).2

end Chains

theorem uppercase_of_unfoldedPiece {junction : Junction} {position : Position} {text : String}
    {chain : Chain} {piece : Piece}
    (made : unfoldedPiece junction position (.ofWord text chain) = some piece) :
    startsUppercase text.toList = true ∧ chain = [] := by
  unfold Term.ofWord at made
  split at made
  · cases made
  · split at made
    · rename_i uppercase
      cases chain with
      | nil => exact ⟨uppercase, rfl⟩
      | cons selector others => cases made
    · cases made

mutual

theorem exists_branches {tokens rest : List PlacedToken} {values : List Branch}
    (solid : EachChain Chain.NotEmpty (tokens.map PlacedToken.token))
    (taken : Takes (readBranches tokens) values rest) :
    ∃ branches : Derivation .branches, branches.Spans tokens rest := by
  obtain ⟨value, between, takenFirst, ended | continued⟩ := takes_readBranches.mp taken
  · obtain ⟨_, _, rfl⟩ := ended
    obtain ⟨branch, spans⟩ := exists_branch solid takenFirst
    exact ⟨.lastBranch branch, spans⟩
  · obtain ⟨bar, after, later, rfl, takenLater, _⟩ := continued
    have fewer := takenFirst.fits
    obtain ⟨branch, front, rfl, spelled, readable⟩ := exists_branch solid takenFirst
    simp only [List.map_append, List.map_cons, eachChain_append, eachChain_cons] at solid
    obtain ⟨branches, back, rfl, spelledBack, readableBack⟩ := exists_branches solid.2.2 takenLater
    exact ⟨.nextBranch branch branches, front ++ ⟨.bar, bar⟩ :: back, by simp,
      by simp [spelled, spelledBack], by simp [readable, readableBack]⟩
termination_by 6 * tokens.length + 5

theorem exists_branch {tokens rest : List PlacedToken} {value : Branch}
    (solid : EachChain Chain.NotEmpty (tokens.map PlacedToken.token))
    (taken : Takes (readBranch tokens) value rest) :
    ∃ branch : Derivation .branch, branch.Spans tokens rest := by
  cases labelled : beginsWithLabel (tokens.map PlacedToken.token)
  · obtain ⟨_, values, takenPieces, _⟩ := (takes_readBranch_unlabelled labelled).mp taken
    obtain ⟨pieces, spans⟩ := exists_pieces solid takenPieces
    exact ⟨.sequence none pieces, spans⟩
  · obtain ⟨label, position, colon, body, rfl⟩ := exists_of_beginsWithLabel labelled
    obtain ⟨_, values, takenPieces, _⟩ := takes_readBranch_labelled.mp taken
    simp only [List.map_cons, eachChain_cons] at solid
    obtain ⟨pieces, front, rfl, spelled, readable⟩ := exists_pieces solid.2.2 takenPieces
    exact ⟨.sequence (some label) pieces, ⟨.word label, position⟩ :: ⟨.colon, colon⟩ :: front, rfl,
      by simp [spelled, labelTokens], by simp [readable, labelTokens]⟩
termination_by 6 * tokens.length + 4

theorem exists_pieces {tokens rest : List PlacedToken} {values : List Piece}
    (solid : EachChain Chain.NotEmpty (tokens.map PlacedToken.token))
    (taken : Takes (readPieces tokens) values rest) :
    ∃ pieces : Derivation .pieces, pieces.Spans tokens rest := by
  obtain ⟨value, between, takenFirst, ended | continued⟩ := takes_readPieces.mp taken
  · obtain ⟨_, _, rfl⟩ := ended
    obtain ⟨piece, spans⟩ := exists_piece solid takenFirst
    exact ⟨.lastPiece piece, spans⟩
  · obtain ⟨_, later, takenLater, _⟩ := continued
    have fewer := takenFirst.fits
    obtain ⟨piece, front, rfl, spelled, readable⟩ := exists_piece solid takenFirst
    simp only [List.map_append, eachChain_append] at solid
    obtain ⟨pieces, back, rfl, spelledBack, readableBack⟩ := exists_pieces solid.2 takenLater
    exact ⟨.nextPiece piece pieces, front ++ back, by simp,
      by simp [spelled, spelledBack], by simp [readable, readableBack]⟩
termination_by 6 * tokens.length + 3

theorem exists_piece {tokens rest : List PlacedToken} {value : Piece}
    (solid : EachChain Chain.NotEmpty (tokens.map PlacedToken.token))
    (taken : Takes (readPiece tokens) value rest) :
    ∃ piece : Derivation .piece, piece.Spans tokens rest := by
  by_cases glued : firstToken tokens = some .caret
  · obtain ⟨caret, after, rfl⟩ := exists_of_firstToken glued
    simp only [List.map_cons, eachChain_cons] at solid
    have joined : [PlacedToken.mk .caret caret].map PlacedToken.token = junctionTokens .glue := rfl
    exact exists_joined joined solid.2 (takes_readPiece_caret.mp taken)
  · have joined : [].map PlacedToken.token = junctionTokens .space := rfl
    exact exists_joined joined solid ((takes_readPiece_other glued).mp taken)
termination_by 6 * tokens.length + 2

theorem exists_joined {junction : Junction} {front tokens rest : List PlacedToken} {value : Piece}
    (joined : front.map PlacedToken.token = junctionTokens junction)
    (solid : EachChain Chain.NotEmpty (tokens.map PlacedToken.token))
    (taken : Takes (readJoined junction tokens) value rest) :
    ∃ piece : Derivation .piece, piece.Spans (front ++ tokens) rest := by
  by_cases unfolded : firstToken tokens = some .unfold
  · obtain ⟨sign, after, rfl⟩ := exists_of_firstToken unfolded
    obtain ⟨term, takenTerm, made⟩ := takes_readJoined_unfold.mp taken
    simp only [List.map_cons, eachChain_cons] at solid
    obtain word | quoted | group | optional := takes_readTerm_cases takenTerm
    · obtain ⟨text, position, later, chain, rfl, takenChain, written⟩ := word
      obtain ⟨uppercase, rfl⟩ := uppercase_of_unfoldedPiece (written ▸ made)
      simp only [List.map_cons, eachChain_cons] at solid
      obtain rfl := eq_of_takes_nil solid.2.2 takenChain
      exact ⟨.unfoldSymbol junction text uppercase,
        front ++ [⟨.unfold, sign⟩, ⟨.word text, position⟩], by simp, by simp [joined], by simp⟩
    · obtain ⟨text, position, later, chain, rfl, takenChain, rfl⟩ := quoted
      cases made
    · obtain ⟨opening, inner, branches, closing, later, chain, rfl, takenBranches, takenChain,
        rfl⟩ := group
      cases chain with
      | cons selector others => cases made
      | nil =>
        simp only [List.map_cons, eachChain_cons] at solid
        obtain ⟨branches, between, rfl, spelled, readable⟩ :=
          exists_branches solid.2.2 takenBranches
        simp only [List.map_append, List.map_cons, eachChain_append, eachChain_cons] at solid
        obtain rfl := eq_of_takes_nil solid.2.2.2.2 takenChain
        exact ⟨.unfoldGroup junction branches,
          front ++ ⟨.unfold, sign⟩ :: ⟨.openParen, opening⟩ ::
            (between ++ [⟨.closeParen, closing⟩]),
          by simp, by simp [joined, spelled], by simp [readable]⟩
    · obtain ⟨opening, inner, branches, closing, later, chain, rfl, takenBranches, takenChain,
        rfl⟩ := optional
      cases chain with
      | cons selector others => cases made
      | nil =>
        simp only [List.map_cons, eachChain_cons] at solid
        obtain ⟨branches, between, rfl, spelled, readable⟩ :=
          exists_branches solid.2.2 takenBranches
        simp only [List.map_append, List.map_cons, eachChain_append, eachChain_cons] at solid
        obtain rfl := eq_of_takes_nil solid.2.2.2.2 takenChain
        exact ⟨.unfoldOptional junction branches,
          front ++ ⟨.unfold, sign⟩ :: ⟨.openBracket, opening⟩ ::
            (between ++ [⟨.closeBracket, closing⟩]),
          by simp, by simp [joined, spelled], by simp [readable]⟩
  · obtain ⟨first, between, others, takenFirst, takenOthers, _⟩ :=
      (takes_readJoined_plain unfolded).mp taken
    have fewer := takenFirst.fits
    obtain ⟨term, middle, rfl, spelled, readable⟩ := exists_term solid takenFirst
    simp only [List.map_append, eachChain_append] at solid
    obtain ⟨others, back, rfl, spelledBack, readableBack⟩ := exists_others solid.2 takenOthers
    exact ⟨.plain junction term others, front ++ (middle ++ back), by simp,
      by simp [joined, spelled, spelledBack], by simp [readable, readableBack]⟩
termination_by 6 * tokens.length + 1

theorem exists_others {tokens rest : List PlacedToken} {values : List Term}
    (solid : EachChain Chain.NotEmpty (tokens.map PlacedToken.token))
    (taken : Takes (readOthers tokens) values rest) :
    ∃ others : Derivation .others, others.Spans tokens rest := by
  by_cases separated : firstToken tokens = some .comma
  · obtain ⟨comma, after, rfl⟩ := exists_of_firstToken separated
    obtain ⟨next, between, later, takenNext, takenLater, _⟩ := takes_readOthers_comma.mp taken
    have fewer := takenNext.fits
    simp only [List.map_cons, eachChain_cons] at solid
    obtain ⟨term, front, rfl, spelled, readable⟩ := exists_term solid.2 takenNext
    simp only [List.map_append, eachChain_append] at solid
    obtain ⟨others, back, rfl, spelledBack, readableBack⟩ := exists_others solid.2.2 takenLater
    exact ⟨.nextOther term others, ⟨.comma, comma⟩ :: (front ++ back), by simp,
      by simp [spelled, spelledBack], by simp [readable, readableBack]⟩
  · obtain ⟨_, rfl⟩ := (takes_readOthers_other separated).mp taken
    exact ⟨.noOther, [], rfl, rfl, eachChain_nil⟩
termination_by 6 * tokens.length + 1

theorem exists_term {tokens rest : List PlacedToken} {value : Term}
    (solid : EachChain Chain.NotEmpty (tokens.map PlacedToken.token))
    (taken : Takes (readTerm tokens) value rest) :
    ∃ term : Derivation .term, term.Spans tokens rest := by
  obtain word | quoted | group | optional := takes_readTerm_cases taken
  · obtain ⟨text, position, later, chain, rfl, takenChain, rfl⟩ := word
    obtain ⟨chain, chained, rfl, spelled, readable⟩ := exists_chain takenChain
    exact ⟨.word text chain, ⟨.word text, position⟩ :: chained, rfl,
      by simp [spelled], by simp [readable]⟩
  · obtain ⟨text, position, later, chain, rfl, takenChain, rfl⟩ := quoted
    obtain ⟨chain, chained, rfl, spelled, readable⟩ := exists_chain takenChain
    exact ⟨.quoted text chain, ⟨.quoted text, position⟩ :: chained, rfl,
      by simp [spelled], by simp [readable]⟩
  · obtain ⟨opening, inner, values, closing, later, chain, rfl, takenBranches, takenChain, rfl⟩ :=
      group
    simp only [List.map_cons, eachChain_cons] at solid
    obtain ⟨branches, between, rfl, spelled, readable⟩ := exists_branches solid.2 takenBranches
    obtain ⟨chain, chained, rfl, spelledChain, readableChain⟩ := exists_chain takenChain
    exact ⟨.group branches chain,
      ⟨.openParen, opening⟩ :: (between ++ ⟨.closeParen, closing⟩ :: chained), by simp,
      by simp [spelled, spelledChain], by simp [readable, readableChain]⟩
  · obtain ⟨opening, inner, values, closing, later, chain, rfl, takenBranches, takenChain, rfl⟩ :=
      optional
    simp only [List.map_cons, eachChain_cons] at solid
    obtain ⟨branches, between, rfl, spelled, readable⟩ := exists_branches solid.2 takenBranches
    obtain ⟨chain, chained, rfl, spelledChain, readableChain⟩ := exists_chain takenChain
    exact ⟨.optional branches chain,
      ⟨.openBracket, opening⟩ :: (between ++ ⟨.closeBracket, closing⟩ :: chained), by simp,
      by simp [spelled, spelledChain], by simp [readable, readableChain]⟩
termination_by 6 * tokens.length

end

/-- Whatever is read as definitions can be derived by definitions of different symbols. -/
theorem exists_definitions {defined : List Symbol} {tokens : List PlacedToken}
    {values : List Definition}
    (solid : EachChain Chain.NotEmpty (tokens.map PlacedToken.token))
    (read : readDefinitions defined tokens = .ok values) :
    ∃ definitions : List DefinitionDerivation,
      tokens.map PlacedToken.token = DefinitionDerivation.listYield definitions ∧
      EachChain Chain.Readable (tokens.map PlacedToken.token) ∧
      (definitions.map DefinitionDerivation.symbol).Nodup ∧
      ∀ definition ∈ definitions, definition.symbol ∉ defined := by
  match tokens with
  | [] => exact ⟨[], rfl, eachChain_nil, List.nodup_nil, nofun⟩
  | token :: later =>
    obtain ⟨name, position, rfl⟩ := exists_word_of_readDefinitions read
    obtain ⟨uppercase, fresh, define, body, branches, semicolon, after, others, rfl, takenBranches,
      readOthers, rfl⟩ := readDefinitions_word.mp read
    simp only [List.map_cons, eachChain_cons] at solid
    obtain ⟨branches, taken, rfl, spelled, readable⟩ := exists_branches solid.2.2 takenBranches
    simp only [List.map_append, List.map_cons, eachChain_append, eachChain_cons] at solid
    obtain ⟨definitions, spelledOthers, readableOthers, distinct, freshOthers⟩ :=
      exists_definitions solid.2.2.2.2 readOthers
    refine ⟨⟨⟨name⟩, uppercase, branches⟩ :: definitions, ?_, ?_, ?_, ?_⟩
    · simp [DefinitionDerivation.listYield_cons, spelled, spelledOthers]
    · simp [spelled, readable, readableOthers]
    · refine List.nodup_cons.mpr ⟨?_, distinct⟩
      intro again
      obtain ⟨other, member, same⟩ := List.mem_map.mp again
      exact freshOthers other member (same ▸ List.mem_cons_self)
    · intro definition member
      rcases List.mem_cons.mp member with rfl | member
      · exact fresh
      · exact fun before => freshOthers definition member (List.mem_cons_of_mem _ before)
termination_by tokens.length

end GrammarText

end SentenceGrammar
