import SentenceGrammar.GrammarText.Fault
import SentenceGrammar.GrammarText.Tree

/-! Reading definitions from tokens. Each reader takes what it can from the front of a token list
and leaves the rest, together with the fact that the rest is no longer than it may be; that is why
reading ends. A reader that fails leaves the tokens from the offending one on. -/

namespace SentenceGrammar

open Character

/-- What a bare word stands for, with the chain after it. Only references use the chain. -/
def Term.ofWord (text : String) (chain : Chain) : Term :=
  if text = "_" then .epsilon
  else if startsUppercase text.toList then .reference ⟨text⟩ chain
  else .terminal text

namespace GrammarText

/-- Why reading stops. A syntax fault lies at the first of the remaining tokens, or at the end. -/
inductive ReadingFault where
  | syntaxBefore (remaining : List PlacedToken) (fault : SyntaxFault)
  | malformedChain (malformed : MalformedChain)
deriving DecidableEq, Repr

/-- What a reader makes of a token list, and fewer tokens than the bound after it. -/
structure Reading (α : Type) (bound : Nat) where
  value : α
  rest : List PlacedToken
  fits : rest.length < bound

abbrev Read (α : Type) (tokens : List PlacedToken) :=
  Except ReadingFault (Reading α tokens.length)

abbrev ReadAny (α : Type) (tokens : List PlacedToken) :=
  Except ReadingFault (Reading α (tokens.length + 1))

def firstToken (tokens : List PlacedToken) : Option Token :=
  tokens.head?.map PlacedToken.token

/-- The place of the first token. Only lists that begin with a token are asked for it. -/
def firstPosition (tokens : List PlacedToken) : Position :=
  (tokens.head?.map PlacedToken.position).getD .first

def readToken (wanted : Token) : (tokens : List PlacedToken) → Read Unit tokens
  | [] => .error (.syntaxBefore [] (.expectedToken wanted none))
  | token :: rest =>
    if token.token = wanted then .ok ⟨(), rest, by simp⟩
    else .error (.syntaxBefore (token :: rest) (.expectedToken wanted (some token.token)))

def readChain : (tokens : List PlacedToken) → ReadAny Chain tokens
  | ⟨.chain text, _⟩ :: rest =>
    match Chain.read text with
    | .ok chain => .ok ⟨chain, rest, by simp only [List.length_cons]; omega⟩
    | .error malformed => .error (.malformedChain malformed)
  | tokens => .ok ⟨[], tokens, by simp⟩

def endsBranch (tokens : List PlacedToken) : Bool :=
  match firstToken tokens with
  | none | some .bar | some .semicolon | some .closeParen | some .closeBracket => true
  | some _ => false

mutual

def readBranches (tokens : List PlacedToken) : Read (List Branch) tokens := do
  let first ← readBranch tokens
  match separated : first.rest with
  | ⟨.bar, _⟩ :: after =>
    have := first.fits
    have : after.length < first.rest.length := by simp [separated]
    let others ← readBranches after
    return ⟨first.value :: others.value, others.rest, by have := others.fits; omega⟩
  | _ => return ⟨[first.value], first.rest, first.fits⟩
termination_by 6 * tokens.length + 5

/-- Reads one branch: a label with a colon, if there is one, and at least one piece. -/
def readBranch (tokens : List PlacedToken) : Read Branch tokens :=
  match tokens with
  | ⟨.word label, _⟩ :: ⟨.colon, _⟩ :: body =>
    if endsBranch body then .error (.syntaxBefore body .emptyAlternative)
    else do
      let pieces ← readPieces body
      return ⟨⟨some ⟨label⟩, pieces.value⟩, pieces.rest, by
        have := pieces.fits
        simp only [List.length_cons]
        omega⟩
  | body =>
    if endsBranch body then .error (.syntaxBefore body .emptyAlternative)
    else do
      let pieces ← readPieces body
      return ⟨⟨none, pieces.value⟩, pieces.rest, pieces.fits⟩
termination_by 6 * tokens.length + 4

def readPieces (tokens : List PlacedToken) : Read (List Piece) tokens := do
  let first ← readPiece tokens
  if endsBranch first.rest then return ⟨[first.value], first.rest, first.fits⟩
  else
    have := first.fits
    let others ← readPieces first.rest
    return ⟨first.value :: others.value, others.rest, by have := others.fits; omega⟩
termination_by 6 * tokens.length + 3

def readPiece (tokens : List PlacedToken) : Read Piece tokens :=
  match tokens with
  | ⟨.caret, _⟩ :: rest => do
    let piece ← readJoined .glue rest
    return ⟨piece.value, piece.rest, by
      have := piece.fits
      simp only [List.length_cons]
      omega⟩
  | rest => readJoined .space rest
termination_by 6 * tokens.length + 2

/-- Reads a piece whose junction is known: an unfolded term, or terms with commas between them. -/
def readJoined (junction : Junction) (tokens : List PlacedToken) : Read Piece tokens :=
  match tokens with
  | ⟨.unfold, _⟩ :: rest => do
    let term ← readTerm rest
    have := term.fits
    let piece ← match term.value with
      | .group branches [] => pure (.unfoldGroup junction branches)
      | .optional branches [] => pure (.unfoldOptional junction branches)
      | .reference symbol [] => pure (.unfoldSymbol junction symbol (firstPosition rest))
      | .group _ _ | .optional _ _ | .reference _ _ =>
        throw (.syntaxBefore rest .unfoldWithChain)
      | .terminal _ | .epsilon => throw (.syntaxBefore rest .unfoldOfOther)
    return ⟨piece, term.rest, by simp only [List.length_cons]; omega⟩
  | rest => do
    let first ← readTerm rest
    have := first.fits
    let others ← readOthers first.rest
    return ⟨.plain junction first.value others.value, others.rest, by have := others.fits; omega⟩
termination_by 6 * tokens.length + 1

def readOthers (tokens : List PlacedToken) : ReadAny (List Term) tokens :=
  match tokens with
  | ⟨.comma, _⟩ :: rest => do
    let next ← readTerm rest
    have := next.fits
    let others ← readOthers next.rest
    return ⟨next.value :: others.value, others.rest, by
      have := others.fits
      simp only [List.length_cons]
      omega⟩
  | rest => return ⟨[], rest, by simp⟩
termination_by 6 * tokens.length + 1

def readTerm (tokens : List PlacedToken) : Read Term tokens :=
  match tokens with
  | ⟨.word text, _⟩ :: rest => do
    let chain ← readChain rest
    return ⟨.ofWord text chain.value, chain.rest, by have := chain.fits; simpa using this⟩
  | ⟨.quoted text, _⟩ :: rest => do
    let chain ← readChain rest
    return ⟨.terminal text, chain.rest, by have := chain.fits; simpa using this⟩
  | ⟨.openParen, _⟩ :: rest => do
    let branches ← readBranches rest
    let closed ← readToken .closeParen branches.rest
    let chain ← readChain closed.rest
    return ⟨.group branches.value chain.value, chain.rest, by
      have := branches.fits
      have := closed.fits
      have := chain.fits
      simp only [List.length_cons]
      omega⟩
  | ⟨.openBracket, _⟩ :: rest => do
    let branches ← readBranches rest
    let closed ← readToken .closeBracket branches.rest
    let chain ← readChain closed.rest
    return ⟨.optional branches.value chain.value, chain.rest, by
      have := branches.fits
      have := closed.fits
      have := chain.fits
      simp only [List.length_cons]
      omega⟩
  | rest => .error (.syntaxBefore rest (.expectedAtom (firstToken rest)))
termination_by 6 * tokens.length

end

/-- Reads definitions up to the end of the tokens. No symbol may be defined a second time. -/
def readDefinitions (defined : List Symbol) (tokens : List PlacedToken) :
    Except ReadingFault (List Definition) :=
  match tokens with
  | [] => .ok []
  | ⟨.word name, position⟩ :: rest =>
    if startsUppercase name.toList then
      if ⟨name⟩ ∈ defined then
        .error (.syntaxBefore (⟨.word name, position⟩ :: rest) (.definedTwice ⟨name⟩))
      else do
        let start ← readToken .define rest
        let branches ← readBranches start.rest
        let closed ← readToken .semicolon branches.rest
        have := start.fits
        have := branches.fits
        have := closed.fits
        let others ← readDefinitions (⟨name⟩ :: defined) closed.rest
        return ⟨⟨name⟩, branches.value⟩ :: others
    else .error (.syntaxBefore (⟨.word name, position⟩ :: rest) (.expectedName (some (.word name))))
  | other :: rest => .error (.syntaxBefore (other :: rest) (.expectedName (some other.token)))
termination_by tokens.length

/-- A fault with its place in the text. What is missing at the end is reported at the last token. -/
def ReadingFault.locate (tokens : List PlacedToken) : ReadingFault → GrammarTextFault
  | .malformedChain malformed => .malformedChain malformed
  | .syntaxBefore (token :: _) fault => .syntaxAt token.position fault
  | .syntaxBefore [] fault =>
    .syntaxAt ((tokens.getLast?.map PlacedToken.position).getD .first) fault

end GrammarText

def Definition.ofTokens (tokens : List PlacedToken) : Except GrammarTextFault (List Definition) :=
  (GrammarText.readDefinitions [] tokens).mapError (GrammarText.ReadingFault.locate tokens)

end SentenceGrammar
