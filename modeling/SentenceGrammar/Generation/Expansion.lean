import SentenceGrammar.Chain.Resolution
import SentenceGrammar.Grammar.Basic
import SentenceGrammar.Grammar.LabelIndex

/-! Expansion of alternatives into signals. One level of nesting is written against a function that
opens the alternatives of the next level; the levels are then stacked as high as the depth limit
allows. All choices are drawn from the run, and the selections of references and groups are scopes
in it. -/

namespace SentenceGrammar

inductive ExpansionFault where
  | undefinedSymbol (symbol : Symbol) (active : ActiveLabels)
  | limitExceeded (symbol : Symbol) (limit : Nat)
deriving DecidableEq

def ExpansionFault.message : ExpansionFault → String
  | .undefinedSymbol symbol active =>
    "Undefined non-terminal `" ++ symbol.name ++ "` (active selection: " ++ active.text ++ ")"
  | .limitExceeded symbol limit =>
    "Recursion limit of " ++ toString limit ++ " exceeded while expanding `" ++ symbol.name ++ "`"

/-- A step of a run that may fail. What it did to the run stays done when it fails. -/
abbrev Expansion (σ α : Type) := EStateM ExpansionFault (Run σ) α

variable {σ : Type} [RandomSource σ]

/-- Expands alternatives under a chain: in the scope that the chain opens, or in the present one if
the chain is empty. The symbol is the one they are expanded for. -/
def Expansion.under (openAlternatives : Symbol → List Alternative → Expansion σ (List Signal))
    (symbol : Symbol) (alternatives : List Alternative) (chain : Chain) :
    Expansion σ (List Signal) :=
  if chain.isEmpty then openAlternatives symbol alternatives
  else do
    let active ← modifyGet chain.resolve
    modify fun run => run.note (.opened symbol chain active)
    Run.within active (openAlternatives symbol alternatives)

mutual

/-- Expands an atom that stands in a sequence for the given symbol. The sequence has one slot for
its positional choices: the first of them to have any choice fills it, and each takes the choice
that the slot names, counted around its own length. A choice has a slot of its own. -/
def Atom.expand (grammar : Grammar)
    (openAlternatives : Symbol → List Alternative → Expansion σ (List Signal)) (symbol : Symbol)
    (slot : Option Nat) : Atom → Expansion σ (List Signal × Option Nat)
  | .terminal text => pure ([.word text], slot)
  | .reference name chain => do
    match grammar.lookup name with
    | some alternatives =>
      let signals ← Expansion.under openAlternatives name alternatives chain
      return (signals, slot)
    | none => do
      let run ← get
      throw (.undefinedSymbol name run.active)
  | .group alternatives chain => do
    let signals ← Expansion.under openAlternatives symbol alternatives chain
    return (signals, slot)
  | .positional [] => pure ([], slot)
  | .positional (first :: others) => do
    let position ← match slot with
      | some position => pure position
      | none => do
        let chosen ← modifyGet (Run.index others.length)
        pure chosen.val
    let signals ← Atom.expandNth grammar openAlternatives symbol
      (position % (others.length + 1)) (first :: others)
    return (signals, some position)
  | .epsilon => pure ([], slot)

def Atom.expandNth (grammar : Grammar)
    (openAlternatives : Symbol → List Alternative → Expansion σ (List Signal)) (symbol : Symbol) :
    Nat → List Atom → Expansion σ (List Signal)
  | _, [] => pure []
  | 0, atom :: _ => do
    let (signals, _) ← Atom.expand grammar openAlternatives symbol none atom
    return signals
  | position + 1, _ :: rest => Atom.expandNth grammar openAlternatives symbol position rest

end

def Part.expandList (grammar : Grammar)
    (openAlternatives : Symbol → List Alternative → Expansion σ (List Signal)) (symbol : Symbol) :
    Option Nat → List Part → Expansion σ (List Signal)
  | _, [] => pure []
  | slot, part :: rest => do
    let (signals, slot) ← part.atom.expand grammar openAlternatives symbol slot
    let later ← Part.expandList grammar openAlternatives symbol slot rest
    return part.junction.signals ++ signals ++ later

/-- Expands one of the eligible alternatives, with as many further levels of nesting as there is
room for. When none is eligible the expansion is empty. -/
def Alternative.expandOne (grammar : Grammar) (limit : Nat) :
    Nat → Symbol → List Alternative → Expansion σ (List Signal)
  | 0, symbol, _ => throw (.limitExceeded symbol limit)
  | room + 1, symbol, alternatives => do
    let eligible := Alternative.eligible (← get).active alternatives
    modify fun run => run.note (.eligible symbol eligible.length alternatives.length)
    let picked ← modifyGet (Run.pick eligible)
    let chosen := picked.elim Alternative.nothing eligible.get
    Part.expandList grammar (expandOne grammar limit room) symbol none chosen.parts

end SentenceGrammar
