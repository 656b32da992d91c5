import SentenceGrammar.GrammarText

/-! Parsing with a cursor. It is an index into the tokens that goes up as they are taken, and down
by one where a token turns out to be no atom. The tokens are gone through a second time if symbols
that are unfolded had to be left as references the first time. Everything that could keep such a
parser from its end has a name here, and nested calls and the rounds of loops are counted. -/

namespace SentenceGrammar

open Character

namespace GrammarText

/-- What would keep a parser from ending with a grammar or a fault. -/
inductive Stall where
  | tooManyNestedCalls
  | tooManyRounds
  | stepBackFromStart
  | noTokenToReport
deriving DecidableEq, Repr

inductive Halt where
  | stall (stall : Stall)
  | fault (fault : GrammarTextFault)

/-- The index of the next token, and how many unfolded symbols have been left as references. -/
structure Cursor where
  position : Nat
  deferred : Nat

abbrev Parsing (α : Type) := StateT Cursor (Except Halt) α

def skip (count : Nat) : Parsing Unit :=
  modify fun cursor => ⟨cursor.position + count, cursor.deferred⟩

def stepBack : Parsing Unit := do
  let cursor ← get
  match cursor.position with
  | 0 => throw (.stall .stepBackFromStart)
  | before + 1 => set (⟨before, cursor.deferred⟩ : Cursor)

def defer : Parsing Unit :=
  modify fun cursor => ⟨cursor.position, cursor.deferred + 1⟩

/-- One pass over tokens. The second pass has the rules of the first, to unfold symbols against. -/
structure Pass where
  tokens : List PlacedToken
  symbols : Option Rules

namespace Pass

variable (pass : Pass) {α β : Type}

def tokenAt (index : Nat) : Option Token :=
  pass.tokens[index]?.map PlacedToken.token

def peekAt (offset : Nat) : Parsing (Option Token) := do
  let cursor ← get
  return pass.tokenAt (cursor.position + offset)

def peek : Parsing (Option Token) :=
  pass.peekAt 0

def advance : Parsing (Option Token) := do
  match ← pass.peek with
  | some token =>
    skip 1
    return some token
  | none => return none

/-- Reports a fault at the token with an index, or at the last one. -/
def reportAt (index : Nat) (fault : SyntaxFault) : Parsing α :=
  match pass.tokens[index]?.or pass.tokens.getLast? with
  | some token => throw (.fault (.syntaxAt token.position fault))
  | none => throw (.stall .noTokenToReport)

def report (fault : SyntaxFault) : Parsing α := do
  let cursor ← get
  pass.reportAt cursor.position fault

def expect (wanted : Token) : Parsing Unit := do
  let found ← pass.peek
  if found = some wanted then skip 1 else pass.report (.expectedToken wanted found)

/-- Repeats a step as long as the next token tells it to go on, but not for more rounds than
given. -/
def loop (goesOn : Option Token → Bool) (round : α → Parsing α) : (rounds : Nat) → α → Parsing α
  | 0, value => do
    if goesOn (← pass.peek) then throw (.stall .tooManyRounds) else return value
  | rounds + 1, value => do
    if goesOn (← pass.peek) then
      let next ← round value
      loop goesOn round rounds next
    else return value

def chain : Parsing Chain := do
  match ← pass.peek with
  | some (.chain text) =>
    match Chain.read text with
    | .ok chain =>
      skip 1
      return chain
    | .error malformed => throw (.fault (.malformedChain malformed))
  | _ => return []

def junction : Parsing Junction := do
  if (← pass.peek) = some .caret then
    skip 1
    return .glue
  else return .space

def label : Parsing (Option Label) := do
  let first ← pass.peek
  let second ← pass.peekAt 1
  match first, second with
  | some (.word text), some .colon =>
    skip 2
    return some ⟨text⟩
  | _, _ => return none

section Levels

-- How productions are parsed that stand in parentheses or brackets.
variable (inner : Parsing (List Alternative))

/-- The rest of a group, with an alternative that is added to what is written. -/
def group (closing : Token) (added : List Alternative) : Parsing Atom := do
  let alternatives ← inner
  pass.expect closing
  let chain ← pass.chain
  return .group (alternatives ++ added) chain

def unitFrom : Token → Parsing Atom
  | .word text => do
    let chain ← pass.chain
    return if text = "_" then .epsilon
      else if startsUppercase text.toList then .reference ⟨text⟩ chain
      else .terminal text
  | .quoted text => do
    let _ ← pass.chain
    return .terminal text
  | .openParen => pass.group inner .closeParen []
  | .openBracket => pass.group inner .closeBracket [.nothing]
  | other => do
    stepBack
    pass.report (.expectedAtom (some other))

/-- An atom that is no positional choice. -/
def unit : Parsing Atom := do
  match ← pass.advance with
  | some token => pass.unitFrom inner token
  | none => pass.report (.expectedAtom none)

def nextChoice (choices : List Atom) : Parsing (List Atom) := do
  skip 1
  let choice ← pass.unit inner
  return choices ++ [choice]

/-- An atom. It is a positional choice if there are commas. -/
def atom : Parsing Atom := do
  let first ← pass.unit inner
  if (← pass.peek) = some .comma then
    let choices ← pass.loop (· == some .comma) (pass.nextChoice inner) pass.tokens.length [first]
    return .positional choices
  else return first

/-- What an unfolded atom stands for. Faults are reported at the token with an index. -/
def splice (junction : Junction) (index : Nat) : Atom → Parsing Fragment
  | .group alternatives [] => return .choice junction alternatives
  | .reference symbol [] =>
    match pass.symbols with
    | none => do
      defer
      return .part ⟨junction, .reference symbol []⟩
    | some rules =>
      match rules.lookup symbol with
      | some alternatives => return .choice junction alternatives
      | none => pass.reportAt index (.undefinedUnfold symbol)
  | .group _ _ | .reference _ _ => pass.reportAt index .unfoldWithChain
  | _ => pass.reportAt index .unfoldOfOther

def unfolded (junction : Junction) : Parsing Fragment := do
  let start ← get
  let atom ← pass.unit inner
  pass.splice junction start.position atom

def item : Parsing Fragment := do
  let junction ← pass.junction
  if (← pass.peek) = some .unfold then
    skip 1
    pass.unfolded inner junction
  else
    let atom ← pass.atom inner
    return .part ⟨junction, atom⟩

def nextItem (fragments : List Fragment) : Parsing (List Fragment) := do
  let fragment ← pass.item inner
  return fragments ++ [fragment]

def goesOn : Option Token → Bool
  | none | some .bar | some .semicolon | some .closeParen | some .closeBracket => false
  | some _ => true

def production : Parsing (List Alternative) := do
  let label ← pass.label
  let fragments ← pass.loop goesOn (pass.nextItem inner) pass.tokens.length []
  if fragments.isEmpty then pass.report .emptyAlternative
  else return Fragment.splice label fragments

def nextProduction (alternatives : List Alternative) : Parsing (List Alternative) := do
  skip 1
  let others ← pass.production inner
  return alternatives ++ others

end Levels

/-- Productions with bars between them, with room for so many calls of this one within each
other. -/
def productions : (room : Nat) → Parsing (List Alternative)
  | 0 => throw (.stall .tooManyNestedCalls)
  | room + 1 => do
    let first ← pass.production (productions room)
    pass.loop (· == some .bar) (pass.nextProduction (productions room)) pass.tokens.length first

def definition (begun : List Symbol × Rules) (symbol : Symbol) :
    Parsing (List Symbol × Rules) := do
  skip 1
  pass.expect .define
  let alternatives ← pass.productions pass.tokens.length
  pass.expect .semicolon
  return (symbol :: begun.1, begun.2.extend symbol alternatives)

def nextDefinition (begun : List Symbol × Rules) : Parsing (List Symbol × Rules) := do
  match ← pass.peek with
  | some (.word name) =>
    if startsUppercase name.toList then
      if ⟨name⟩ ∈ begun.1 then pass.report (.definedTwice ⟨name⟩)
      else pass.definition begun ⟨name⟩
    else pass.report (.expectedName (some (.word name)))
  | found => pass.report (.expectedName found)

def build (start : Symbol) (rules : Rules) : Parsing Grammar :=
  match Definition.startingFrom start rules with
  | .ok grammar => pure grammar
  | .error fault => throw (.fault fault)

def document (start : Symbol) : Parsing Grammar := do
  let definitions ← pass.loop Option.isSome pass.nextDefinition pass.tokens.length ([], .empty)
  build start definitions.2

end Pass

def Pass.outcome : Except Halt (Grammar × Cursor) → Except Stall (Except GrammarTextFault Grammar)
  | .ok (grammar, _) => .ok (.ok grammar)
  | .error (.fault reason) => .ok (.error reason)
  | .error (.stall reason) => .error reason

/-- Parses tokens, in a second pass if the first one has left unfolded symbols as references. -/
def parseTokens (tokens : List PlacedToken) (start : Symbol) : Except Stall GrammarReading := do
  let first := (Pass.mk tokens none).document start ⟨0, 0⟩
  match first with
  | .ok (grammar, ⟨_, references + 1⟩) =>
    let second := (Pass.mk tokens (some grammar.rules)).document start ⟨0, 0⟩
    return ⟨← Pass.outcome second, [.unfolding (references + 1)]⟩
  | _ => return ⟨← Pass.outcome first, []⟩

def parseText (text : String) (start : Symbol) : Except Stall GrammarReading :=
  match Token.tokenize text with
  | .ok tokens => parseTokens tokens start
  | .error fault => .ok ⟨.error fault, []⟩

end GrammarText

end SentenceGrammar
