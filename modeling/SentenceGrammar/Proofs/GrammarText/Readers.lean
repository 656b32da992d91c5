import SentenceGrammar.GrammarText.Reader

/-! What each reader takes from the front of a token list, in terms of what the readers that it
calls take. These equivalences are all that is ever used of the readers. -/

namespace SentenceGrammar

open Character

def Token.opensTerm : Token → Bool
  | .word _ | .quoted _ | .openParen | .openBracket => true
  | _ => false

namespace GrammarText

def beginsWithLabel : List Token → Bool
  | .word _ :: .colon :: _ => true
  | _ => false

theorem exists_of_firstToken {tokens : List PlacedToken} {token : Token}
    (first : firstToken tokens = some token) :
    ∃ position later, tokens = ⟨token, position⟩ :: later := by
  rcases tokens with _ | ⟨⟨_, position⟩, later⟩
  · cases first
  · cases first
    exact ⟨position, later, rfl⟩

theorem exists_of_beginsWithLabel {tokens : List PlacedToken}
    (labelled : beginsWithLabel (tokens.map PlacedToken.token) = true) :
    ∃ label position colon later,
      tokens = ⟨.word label, position⟩ :: ⟨.colon, colon⟩ :: later := by
  unfold beginsWithLabel at labelled
  split at labelled
  · rename_i label others spelled
    obtain ⟨⟨_, position⟩, after, rfl, rfl, spelledAfter⟩ := List.map_eq_cons_iff.mp spelled
    obtain ⟨⟨_, colon⟩, later, rfl, rfl, _⟩ := List.map_eq_cons_iff.mp spelledAfter
    exact ⟨label, position, colon, later, rfl⟩
  · cases labelled

variable {α β : Type} {bound limit : Nat}

def Takes (outcome : Except ReadingFault (Reading α bound)) (value : α)
    (rest : List PlacedToken) : Prop :=
  ∃ fits, outcome = .ok ⟨value, rest, fits⟩

theorem Takes.fits {outcome : Except ReadingFault (Reading α bound)} {value : α}
    {rest : List PlacedToken} (taken : Takes outcome value rest) : rest.length < bound :=
  taken.1

@[simp] theorem takes_ok {reading : Reading α bound} {value : α} {rest : List PlacedToken} :
    Takes (.ok reading) value rest ↔ reading.value = value ∧ reading.rest = rest := by
  rcases reading with ⟨taken, left, fits⟩
  constructor
  · intro taken
    rcases taken with ⟨_, same⟩
    cases same
    exact ⟨rfl, rfl⟩
  · intro same
    rcases same with ⟨rfl, rfl⟩
    exact ⟨fits, rfl⟩

@[simp] theorem takes_pure {reading : Reading α bound} {value : α} {rest : List PlacedToken} :
    Takes (pure reading) value rest ↔ reading.value = value ∧ reading.rest = rest :=
  takes_ok

@[simp] theorem takes_error {fault : ReadingFault} {value : α} {rest : List PlacedToken} :
    ¬Takes (.error fault : Except ReadingFault (Reading α bound)) value rest :=
  fun ⟨_, same⟩ => nomatch same

theorem bind_eq_ok {outcome : Except ReadingFault (Reading α bound)}
    {next : Reading α bound → Except ReadingFault β} {value : β} :
    outcome >>= next = .ok value ↔
      ∃ first between, ∃ taken : Takes outcome first between,
        next ⟨first, between, taken.fits⟩ = .ok value := by
  cases outcome with
  | error fault => simp [bind, Except.bind]
  | ok reading =>
    rcases reading with ⟨first, between, fits⟩
    constructor
    · exact fun taken => ⟨first, between, ⟨fits, rfl⟩, taken⟩
    · intro continued
      rcases continued with ⟨_, _, ⟨_, same⟩, taken⟩
      cases same
      exact taken

theorem takes_bind {outcome : Except ReadingFault (Reading α bound)}
    {next : Reading α bound → Except ReadingFault (Reading β limit)} {value : β}
    {rest : List PlacedToken} :
    Takes (outcome >>= next) value rest ↔
      ∃ first between, ∃ taken : Takes outcome first between,
        Takes (next ⟨first, between, taken.fits⟩) value rest := by
  constructor
  · intro taken
    rcases taken with ⟨fits, same⟩
    obtain ⟨first, between, taken, same⟩ := bind_eq_ok.mp same
    exact ⟨first, between, taken, fits, same⟩
  · intro continued
    rcases continued with ⟨first, between, taken, fits, same⟩
    exact ⟨fits, bind_eq_ok.mpr ⟨first, between, taken, same⟩⟩

theorem takes_readToken {wanted : Token} {tokens rest : List PlacedToken} {value : Unit} :
    Takes (readToken wanted tokens) value rest ↔
      ∃ position, tokens = ⟨wanted, position⟩ :: rest := by
  cases tokens with
  | nil => simp [readToken]
  | cons token later =>
    rcases token with ⟨token, position⟩
    rw [readToken]
    split
    · rename_i same
      simp_all
    · rename_i different
      simp [different]

section Chains

variable {tokens rest : List PlacedToken} {position : Position} {chain : Chain}

theorem takes_readChain_chain {text : String} :
    Takes (readChain (⟨.chain text, position⟩ :: tokens)) chain rest ↔
      Chain.read text = .ok chain ∧ tokens = rest := by
  rw [readChain]
  split <;> simp_all

theorem takes_readChain_other (absent : ∀ text, firstToken tokens ≠ some (.chain text)) :
    Takes (readChain tokens) chain rest ↔ [] = chain ∧ tokens = rest := by
  unfold readChain
  split
  · exact absurd rfl (absent _)
  · simp

end Chains

section Terms

variable {tokens rest : List PlacedToken} {position : Position} {term : Term}

theorem takes_readTerm_word {text : String} :
    Takes (readTerm (⟨.word text, position⟩ :: tokens)) term rest ↔
      ∃ chain, Takes (readChain tokens) chain rest ∧ .ofWord text chain = term := by
  rw [readTerm]
  simp only [takes_bind, takes_pure, exists_prop]
  grind

theorem takes_readTerm_quoted {text : String} :
    Takes (readTerm (⟨.quoted text, position⟩ :: tokens)) term rest ↔
      ∃ chain, Takes (readChain tokens) chain rest ∧ .terminal text = term := by
  rw [readTerm]
  simp only [takes_bind, takes_pure, exists_prop]
  grind

theorem takes_readTerm_group :
    Takes (readTerm (⟨.openParen, position⟩ :: tokens)) term rest ↔
      ∃ branches closing after chain,
        Takes (readBranches tokens) branches (⟨.closeParen, closing⟩ :: after) ∧
        Takes (readChain after) chain rest ∧ .group branches chain = term := by
  rw [readTerm]
  simp only [takes_bind, takes_pure, takes_readToken, exists_prop]
  grind

theorem takes_readTerm_optional :
    Takes (readTerm (⟨.openBracket, position⟩ :: tokens)) term rest ↔
      ∃ branches closing after chain,
        Takes (readBranches tokens) branches (⟨.closeBracket, closing⟩ :: after) ∧
        Takes (readChain after) chain rest ∧ .optional branches chain = term := by
  rw [readTerm]
  simp only [takes_bind, takes_pure, takes_readToken, exists_prop]
  grind

theorem takes_readTerm_cases (taken : Takes (readTerm tokens) term rest) :
    (∃ text position later chain, tokens = ⟨.word text, position⟩ :: later ∧
      Takes (readChain later) chain rest ∧ .ofWord text chain = term) ∨
    (∃ text position later chain, tokens = ⟨.quoted text, position⟩ :: later ∧
      Takes (readChain later) chain rest ∧ .terminal text = term) ∨
    (∃ opening inner branches closing after chain, tokens = ⟨.openParen, opening⟩ :: inner ∧
      Takes (readBranches inner) branches (⟨.closeParen, closing⟩ :: after) ∧
      Takes (readChain after) chain rest ∧ .group branches chain = term) ∨
    (∃ opening inner branches closing after chain, tokens = ⟨.openBracket, opening⟩ :: inner ∧
      Takes (readBranches inner) branches (⟨.closeBracket, closing⟩ :: after) ∧
      Takes (readChain after) chain rest ∧ .optional branches chain = term) := by
  rcases tokens with _ | ⟨⟨token, position⟩, later⟩
  · rw [readTerm.eq_def] at taken
    exact absurd taken takes_error
  · cases token with
    | word text => exact .inl ⟨text, position, later, by simpa using takes_readTerm_word.mp taken⟩
    | quoted text =>
      exact .inr (.inl ⟨text, position, later, by simpa using takes_readTerm_quoted.mp taken⟩)
    | openParen =>
      obtain ⟨branches, closing, after, chain, read⟩ := takes_readTerm_group.mp taken
      exact .inr (.inr (.inl ⟨position, later, branches, closing, after, chain, rfl, read⟩))
    | openBracket =>
      obtain ⟨branches, closing, after, chain, read⟩ := takes_readTerm_optional.mp taken
      exact .inr (.inr (.inr ⟨position, later, branches, closing, after, chain, rfl, read⟩))
    | _ =>
      rw [readTerm.eq_def] at taken
      exact absurd taken takes_error

end Terms

section Pieces

variable {tokens rest : List PlacedToken} {position : Position}
  {junction : Junction} {piece : Piece}

theorem takes_readOthers_comma {others : List Term} :
    Takes (readOthers (⟨.comma, position⟩ :: tokens)) others rest ↔
      ∃ next between later, Takes (readTerm tokens) next between ∧
        Takes (readOthers between) later rest ∧ next :: later = others := by
  rw [readOthers]
  simp only [takes_bind, takes_pure, exists_prop]
  grind

theorem takes_readOthers_other {others : List Term} (absent : firstToken tokens ≠ some .comma) :
    Takes (readOthers tokens) others rest ↔ [] = others ∧ tokens = rest := by
  rw [readOthers.eq_def]
  split
  · exact absurd rfl absent
  · simp

def unfoldedPiece (junction : Junction) (position : Position) : Term → Option Piece
  | .group branches [] => some (.unfoldGroup junction branches)
  | .optional branches [] => some (.unfoldOptional junction branches)
  | .reference symbol [] => some (.unfoldSymbol junction symbol position)
  | _ => none

theorem takes_readJoined_unfold :
    Takes (readJoined junction (⟨.unfold, position⟩ :: tokens)) piece rest ↔
      ∃ term, Takes (readTerm tokens) term rest ∧
        unfoldedPiece junction (firstPosition tokens) term = some piece := by
  rw [readJoined]
  simp only [takes_bind]
  constructor
  · intro taken
    rcases taken with ⟨term, between, read, continued⟩
    rcases term with _ | ⟨symbol, _ | _⟩ | ⟨branches, _ | _⟩ | ⟨branches, _ | _⟩ | _
    all_goals
      simp [bind, Except.bind, pure, Except.pure, throw, throwThe, MonadExceptOf.throw]
        at continued
    all_goals
      obtain ⟨rfl, rfl⟩ := continued
      exact ⟨_, read, rfl⟩
  · intro taken
    rcases taken with ⟨term, read, unfolded⟩
    refine ⟨term, rest, read, ?_⟩
    rcases term with _ | ⟨symbol, _ | _⟩ | ⟨branches, _ | _⟩ | ⟨branches, _ | _⟩ | _
    all_goals cases unfolded
    all_goals exact takes_ok.mpr ⟨rfl, rfl⟩

theorem takes_readJoined_plain (absent : firstToken tokens ≠ some .unfold) :
    Takes (readJoined junction tokens) piece rest ↔
      ∃ first between others, Takes (readTerm tokens) first between ∧
        Takes (readOthers between) others rest ∧ .plain junction first others = piece := by
  rw [readJoined.eq_def]
  split
  · exact absurd rfl absent
  · simp only [takes_bind, takes_pure, exists_prop]
    grind

theorem takes_readPiece_caret :
    Takes (readPiece (⟨.caret, position⟩ :: tokens)) piece rest ↔
      Takes (readJoined .glue tokens) piece rest := by
  rw [readPiece]
  simp only [takes_bind, takes_pure, exists_prop]
  grind

theorem takes_readPiece_other (absent : firstToken tokens ≠ some .caret) :
    Takes (readPiece tokens) piece rest ↔ Takes (readJoined .space tokens) piece rest := by
  rw [readPiece.eq_def]
  split
  · exact absurd rfl absent
  · rfl

theorem takes_readPieces {pieces : List Piece} :
    Takes (readPieces tokens) pieces rest ↔
      ∃ first between, Takes (readPiece tokens) first between ∧
        ((endsBranch between = true ∧ [first] = pieces ∧ between = rest) ∨
          (endsBranch between = false ∧
            ∃ later, Takes (readPieces between) later rest ∧ first :: later = pieces)) := by
  rw [readPieces]
  simp only [takes_bind]
  refine exists_congr fun first => exists_congr fun between => ?_
  cases ends : endsBranch between
  · simp only [Bool.false_eq_true, if_false, takes_bind, takes_pure, exists_prop]
    grind
  · simp only [if_true, takes_pure, exists_prop]
    grind

end Pieces

section Branches

variable {tokens rest : List PlacedToken} {position : Position} {branch : Branch}

theorem takes_readBranch_labelled {label : String} {colon : Position} :
    Takes (readBranch (⟨.word label, position⟩ :: ⟨.colon, colon⟩ :: tokens)) branch rest ↔
      endsBranch tokens = false ∧
        ∃ pieces, Takes (readPieces tokens) pieces rest ∧ ⟨some ⟨label⟩, pieces⟩ = branch := by
  rw [readBranch]
  split
  · simp_all
  · simp only [takes_bind, takes_pure, exists_prop]
    grind

theorem takes_readBranch_unlabelled
    (absent : beginsWithLabel (tokens.map PlacedToken.token) = false) :
    Takes (readBranch tokens) branch rest ↔
      endsBranch tokens = false ∧
        ∃ pieces, Takes (readPieces tokens) pieces rest ∧ ⟨none, pieces⟩ = branch := by
  rw [readBranch.eq_def]
  split
  · exact absurd absent (by simp [beginsWithLabel])
  · split
    · simp_all
    · simp only [takes_bind, takes_pure, exists_prop]
      grind

theorem takes_readBranches {branches : List Branch} :
    Takes (readBranches tokens) branches rest ↔
      ∃ first between, Takes (readBranch tokens) first between ∧
        ((firstToken between ≠ some .bar ∧ [first] = branches ∧ between = rest) ∨
          ∃ bar after later, between = ⟨.bar, bar⟩ :: after ∧
            Takes (readBranches after) later rest ∧ first :: later = branches) := by
  rw [readBranches]
  simp only [takes_bind]
  refine exists_congr fun first => exists_congr fun between => ?_
  by_cases barred : firstToken between = some .bar
  · obtain ⟨bar, after, rfl⟩ := exists_of_firstToken barred
    simp only [takes_bind, takes_pure, exists_prop]
    grind
  · split
    · exact absurd rfl barred
    · simp only [takes_pure, exists_prop]
      grind

end Branches

section Definitions

variable {defined : List Symbol} {tokens : List PlacedToken} {definitions : List Definition}

theorem bind_pure_eq_ok {outcome : Except ReadingFault α} {change : α → β} {value : β} :
    (do let taken ← outcome; pure (change taken)) = .ok value ↔
      ∃ taken, outcome = .ok taken ∧ change taken = value := by
  cases outcome <;> simp [bind, Except.bind, pure, Except.pure]

theorem readDefinitions_word {name : String} {position : Position} :
    readDefinitions defined (⟨.word name, position⟩ :: tokens) = .ok definitions ↔
      startsUppercase name.toList = true ∧ ⟨name⟩ ∉ defined ∧
        ∃ define after branches closing later others, tokens = ⟨.define, define⟩ :: after ∧
          Takes (readBranches after) branches (⟨.semicolon, closing⟩ :: later) ∧
          readDefinitions (⟨name⟩ :: defined) later = .ok others ∧
          ⟨⟨name⟩, branches⟩ :: others = definitions := by
  rw [readDefinitions]
  split
  · split
    · simp_all
    · simp only [bind_eq_ok, takes_readToken, bind_pure_eq_ok, exists_prop]
      grind
  · simp_all

theorem exists_word_of_readDefinitions {token : PlacedToken}
    (read : readDefinitions defined (token :: tokens) = .ok definitions) :
    ∃ name position, token = ⟨.word name, position⟩ := by
  rw [readDefinitions.eq_def] at read
  split at read
  · simp_all
  · simp_all
  · simp_all

end Definitions

end GrammarText

end SentenceGrammar
