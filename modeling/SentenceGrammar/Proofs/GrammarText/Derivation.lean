import SentenceGrammar.Chain.Reading
import SentenceGrammar.Character.Word
import SentenceGrammar.Grammar.Basic
import SentenceGrammar.GrammarText.Token
import SentenceGrammar.Proofs.Grammar.Lookup

/-! The grammar of grammar texts: which token lists its derivations yield, and what they denote. It
knows nothing of reading from left to right, and says of a branch with unfolded pieces that it
stands for all ways to choose an alternative for each of them. -/

namespace SentenceGrammar

open Character

/-- An alternative behind a junction. A glue replaces the junction of its first part. -/
def Alternative.behind : Junction → Alternative → Alternative
  | .glue, ⟨label, first :: later⟩ => ⟨label, ⟨.glue, first.atom⟩ :: later⟩
  | _, alternative => alternative

/-- All ways to choose one alternative from each list, where choices further to the right vary
faster. -/
def Alternative.selections : List (List Alternative) → List (List Alternative)
  | [] => [[]]
  | options :: later =>
    options.flatMap fun chosen => (selections later).map (chosen :: ·)

/-- Chosen alternatives in a row. Without a label of its own the row has the first label in it. -/
def Alternative.row (label : Option Label) (chosen : List Alternative) : Alternative :=
  ⟨label <|> chosen.findSome? Alternative.label, chosen.flatMap Alternative.parts⟩

def Chain.Readable (text : String) : Prop :=
  ∃ chain, Chain.read text = .ok chain

namespace GrammarText

inductive Category where
  | branches
  | branch
  | pieces
  | piece
  | others
  | term

/-- The derivations of the phrases of a category. A term has the text of a chain after it, or
none. -/
inductive Derivation : Category → Type where
  | lastBranch (branch : Derivation .branch) : Derivation .branches
  | nextBranch (branch : Derivation .branch) (later : Derivation .branches) : Derivation .branches
  | sequence (label : Option String) (pieces : Derivation .pieces) : Derivation .branch
  | lastPiece (piece : Derivation .piece) : Derivation .pieces
  | nextPiece (piece : Derivation .piece) (later : Derivation .pieces) : Derivation .pieces
  | plain (junction : Junction) (first : Derivation .term) (others : Derivation .others) :
    Derivation .piece
  | unfoldSymbol (junction : Junction) (name : String)
    (uppercase : startsUppercase name.toList = true) : Derivation .piece
  | unfoldGroup (junction : Junction) (branches : Derivation .branches) : Derivation .piece
  | unfoldOptional (junction : Junction) (branches : Derivation .branches) : Derivation .piece
  | noOther : Derivation .others
  | nextOther (term : Derivation .term) (later : Derivation .others) : Derivation .others
  | word (text : String) (chain : Option String) : Derivation .term
  | quoted (text : String) (chain : Option String) : Derivation .term
  | group (branches : Derivation .branches) (chain : Option String) : Derivation .term
  | optional (branches : Derivation .branches) (chain : Option String) : Derivation .term

def junctionTokens : Junction → List Token
  | .space => []
  | .glue => [.caret]

def labelTokens : Option String → List Token
  | none => []
  | some label => [.word label, .colon]

def chainTokens : Option String → List Token
  | none => []
  | some text => [.chain text]

section Tokens

variable {token : Token}

@[simp] theorem mem_junctionTokens {junction : Junction} :
    token ∈ junctionTokens junction ↔ junction = .glue ∧ token = .caret := by
  cases junction <;> simp [junctionTokens]

@[simp] theorem mem_labelTokens {label : Option String} :
    token ∈ labelTokens label ↔
      ∃ text, label = some text ∧ (token = .word text ∨ token = .colon) := by
  cases label <;> simp [labelTokens]

@[simp] theorem mem_chainTokens {chain : Option String} :
    token ∈ chainTokens chain ↔ ∃ text, chain = some text ∧ token = .chain text := by
  cases chain <;> simp [chainTokens]

end Tokens

namespace Derivation

@[simp] def yield {category : Category} : Derivation category → List Token
  | lastBranch branch => branch.yield
  | nextBranch branch later => branch.yield ++ .bar :: later.yield
  | sequence label pieces => labelTokens label ++ pieces.yield
  | lastPiece piece => piece.yield
  | nextPiece piece later => piece.yield ++ later.yield
  | plain junction first others => junctionTokens junction ++ (first.yield ++ others.yield)
  | unfoldSymbol junction name _ => junctionTokens junction ++ [.unfold, .word name]
  | unfoldGroup junction branches =>
    junctionTokens junction ++ .unfold :: .openParen :: (branches.yield ++ [.closeParen])
  | unfoldOptional junction branches =>
    junctionTokens junction ++ .unfold :: .openBracket :: (branches.yield ++ [.closeBracket])
  | noOther => []
  | nextOther term later => .comma :: (term.yield ++ later.yield)
  | word text chain => .word text :: chainTokens chain
  | quoted text chain => .quoted text :: chainTokens chain
  | group branches chain => .openParen :: (branches.yield ++ .closeParen :: chainTokens chain)
  | optional branches chain =>
    .openBracket :: (branches.yield ++ .closeBracket :: chainTokens chain)

end Derivation

/-- What the phrases of a category denote: alternatives, atoms, or lists of options to choose
from. -/
@[reducible] def Category.Meaning : Category → Type
  | .branches | .branch | .piece => List Alternative
  | .pieces => List (List Alternative)
  | .others => List Atom
  | .term => Atom

def chainMeaning : Option String → Chain
  | none => []
  | some text => (Chain.read text).toOption.getD []

namespace Derivation

/-- What a derivation denotes if unfolded symbols stand for the given alternatives. Chains behind
words that are not names, and behind quotations, have no meaning. -/
@[simp] def meaning (unfolded : Symbol → List Alternative) {category : Category} :
    Derivation category → category.Meaning
  | lastBranch branch => branch.meaning unfolded
  | nextBranch branch later => branch.meaning unfolded ++ later.meaning unfolded
  | sequence label pieces =>
    (Alternative.selections (pieces.meaning unfolded)).map (Alternative.row (label.map Label.mk))
  | lastPiece piece => [piece.meaning unfolded]
  | nextPiece piece later => piece.meaning unfolded :: later.meaning unfolded
  | plain junction first others =>
    match others.meaning unfolded with
    | [] => [⟨none, [⟨junction, first.meaning unfolded⟩]⟩]
    | second :: later =>
      [⟨none, [⟨junction, .positional (first.meaning unfolded :: second :: later)⟩]⟩]
  | unfoldSymbol junction name _ => (unfolded ⟨name⟩).map (Alternative.behind junction)
  | unfoldGroup junction branches => (branches.meaning unfolded).map (Alternative.behind junction)
  | unfoldOptional junction branches =>
    (branches.meaning unfolded ++ [Alternative.nothing]).map (Alternative.behind junction)
  | noOther => []
  | nextOther term later => term.meaning unfolded :: later.meaning unfolded
  | word text chain =>
    if text = "_" then .epsilon
    else if startsUppercase text.toList then .reference ⟨text⟩ (chainMeaning chain)
    else .terminal text
  | quoted text _ => .terminal text
  | group branches chain => .group (branches.meaning unfolded) (chainMeaning chain)
  | optional branches chain =>
    .group (branches.meaning unfolded ++ [Alternative.nothing]) (chainMeaning chain)

end Derivation

/-- A derivation of a definition: a name, and the branches between `::=` and `;`. -/
structure DefinitionDerivation where
  symbol : Symbol
  uppercase : startsUppercase symbol.name.toList = true
  branches : Derivation .branches

namespace DefinitionDerivation

def yield (definition : DefinitionDerivation) : List Token :=
  .word definition.symbol.name :: .define :: (definition.branches.yield ++ [.semicolon])

def listYield (definitions : List DefinitionDerivation) : List Token :=
  definitions.flatMap yield

theorem listYield_cons (definition : DefinitionDerivation) (later : List DefinitionDerivation) :
    listYield (definition :: later) = .word definition.symbol.name :: .define ::
      (definition.branches.yield ++ .semicolon :: listYield later) := by
  simp [listYield, yield]

def find (symbol : Symbol) : List DefinitionDerivation → Option (Derivation .branches)
  | [] => none
  | definition :: later =>
    if definition.symbol = symbol then some definition.branches else find symbol later

def kept (symbol : Symbol) : List Alternative :=
  [⟨none, [.spaced (.reference symbol [])]⟩]

/-- What a symbol stands for where it is unfolded: its alternatives, in which symbols that are
unfolded in turn are left as references. -/
def unfolded (definitions : List DefinitionDerivation) (symbol : Symbol) : List Alternative :=
  ((find symbol definitions).map (Derivation.meaning kept)).getD []

def rule (unfolded : Symbol → List Alternative) (definition : DefinitionDerivation) : Rule :=
  ⟨definition.symbol, definition.branches.meaning unfolded⟩

def rules (definitions : List DefinitionDerivation) : Rules :=
  Rules.empty.insertAll (definitions.map (rule (unfolded definitions)))

theorem find_rules (unfolded : Symbol → List Alternative) (definitions : List DefinitionDerivation)
    (symbol : Symbol) :
    Rules.find symbol (definitions.map (rule unfolded)) =
      (find symbol definitions).map (Derivation.meaning unfolded) := by
  induction definitions with
  | nil => rfl
  | cons definition later ih =>
    rw [List.map_cons, Rules.find, find, ih]
    split
    · rename_i same
      rw [if_pos (show definition.symbol = symbol from same)]
      rfl
    · rename_i different
      rw [if_neg (show ¬definition.symbol = symbol from different)]

theorem lookup_insertAll {definitions : List DefinitionDerivation}
    (distinct : (definitions.map symbol).Nodup) (unfolded : Symbol → List Alternative)
    (symbol : Symbol) :
    (Rules.empty.insertAll (definitions.map (rule unfolded))).lookup symbol =
      (find symbol definitions).map (Derivation.meaning unfolded) := by
  rw [Rules.lookup_insertAll, find_rules, Rules.lookup_empty, Option.or_none]
  rw [List.map_map]
  exact distinct

theorem find_isSome {definitions : List DefinitionDerivation} {symbol : Symbol}
    (defined : symbol ∈ definitions.map DefinitionDerivation.symbol) :
    (find symbol definitions).isSome = true := by
  induction definitions with
  | nil => cases defined
  | cons definition later ih =>
    rw [find]
    split
    · rfl
    · rename_i different
      exact ih ((List.mem_cons.mp defined).resolve_left fun same => different same.symm)

end DefinitionDerivation

def EachChain (property : String → Prop) (tokens : List Token) : Prop :=
  ∀ text, .chain text ∈ tokens → property text

section Chains

variable {property : String → Prop} {token : Token} {first later : List Token}

@[simp] theorem eachChain_nil : EachChain property [] := by
  simp [EachChain]

@[simp] theorem eachChain_append :
    EachChain property (first ++ later) ↔ EachChain property first ∧ EachChain property later := by
  simp only [EachChain, List.mem_append]
  grind

@[simp] theorem eachChain_cons :
    EachChain property (token :: later) ↔
      (∀ text, token = .chain text → property text) ∧ EachChain property later := by
  simp only [EachChain, List.mem_cons]
  grind

@[simp] theorem eachChain_junctionTokens (junction : Junction) :
    EachChain property (junctionTokens junction) := by
  cases junction <;> simp [junctionTokens]

end Chains

/-- The symbols directly after unfold signs, with their places. -/
def unfoldSigns : List PlacedToken → List (Symbol × Position)
  | ⟨.unfold, _⟩ :: ⟨.word name, position⟩ :: later =>
    if startsUppercase name.toList then (⟨name⟩, position) :: unfoldSigns later
    else unfoldSigns later
  | _ :: later => unfoldSigns later
  | [] => []

namespace DefinitionDerivation

/-- Tokens are accepted with a start symbol: definitions of different symbols derive them, their
chains can be read, and all symbols after unfold signs and the start symbol are defined. -/
structure Accept (definitions : List DefinitionDerivation) (tokens : List PlacedToken)
    (start : Symbol) : Prop where
  spelled : tokens.map PlacedToken.token = listYield definitions
  distinct : (definitions.map symbol).Nodup
  readable : EachChain Chain.Readable (tokens.map PlacedToken.token)
  unfolds : ∀ sign ∈ unfoldSigns tokens, sign.1 ∈ definitions.map symbol
  start : start ∈ definitions.map symbol

def Accept.grammar {definitions : List DefinitionDerivation} {tokens : List PlacedToken}
    {start : Symbol} (accept : Accept definitions tokens start) : Grammar where
  rules := rules definitions
  start := start
  startDefined := by
    rw [Rules.defines, rules, lookup_insertAll accept.distinct, Option.isSome_map]
    exact find_isSome accept.start

end DefinitionDerivation

end GrammarText

end SentenceGrammar
