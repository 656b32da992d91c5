import SentenceGrammar.Event
import SentenceGrammar.GrammarText.Fault
import SentenceGrammar.GrammarText.Splice
import SentenceGrammar.GrammarText.Tree

/-! The grammar that written definitions stand for. Unfolded groups are spliced in where they stand.
Unfolded symbols stand for the alternatives of their rules, with all symbols that those unfold in
turn left as references; so the rules are first made with every unfolded symbol as a reference, and
then once more with the alternatives found there. -/

namespace SentenceGrammar

mutual

/-- The atom that a term stands for, when it is known what unfolded symbols stand for. An optional
group has one more alternative, which generates nothing. -/
def Term.denote (unfold : Junction → Symbol → Fragment) : Term → Atom
  | .terminal text => .terminal text
  | .reference symbol chain => .reference symbol chain
  | .group branches chain => .group (Branch.denoteList unfold branches) chain
  | .optional branches chain =>
    .group (Branch.denoteList unfold branches ++ [.nothing]) chain
  | .epsilon => .epsilon

def Term.denoteList (unfold : Junction → Symbol → Fragment) : List Term → List Atom
  | [] => []
  | term :: rest => term.denote unfold :: Term.denoteList unfold rest

/-- The fragment that a piece stands for. A single term is not a positional choice. -/
def Piece.denote (unfold : Junction → Symbol → Fragment) : Piece → Fragment
  | .plain junction first [] => .part ⟨junction, first.denote unfold⟩
  | .plain junction first (second :: others) =>
    .part ⟨junction, .positional
      (first.denote unfold :: second.denote unfold :: Term.denoteList unfold others)⟩
  | .unfoldGroup junction branches => .choice junction (Branch.denoteList unfold branches)
  | .unfoldOptional junction branches =>
    .choice junction (Branch.denoteList unfold branches ++ [.nothing])
  | .unfoldSymbol junction symbol _ => unfold junction symbol

def Piece.denoteList (unfold : Junction → Symbol → Fragment) : List Piece → List Fragment
  | [] => []
  | piece :: rest => piece.denote unfold :: Piece.denoteList unfold rest

def Branch.denoteList (unfold : Junction → Symbol → Fragment) : List Branch → List Alternative
  | [] => []
  | ⟨label, pieces⟩ :: rest =>
    Fragment.splice label (Piece.denoteList unfold pieces) ++ Branch.denoteList unfold rest

end

namespace Definition

def rules (unfold : Junction → Symbol → Fragment) (definitions : List Definition) : Rules :=
  definitions.foldl
    (fun rules definition =>
      rules.extend definition.symbol (Branch.denoteList unfold definition.branches))
    .empty

/-- An unfolded symbol left as a reference to its rule. -/
def folded (junction : Junction) (symbol : Symbol) : Fragment :=
  .part ⟨junction, .reference symbol []⟩

/-- An unfolded symbol with the alternatives of its rule. -/
def unfolded (rules : Rules) (junction : Junction) (symbol : Symbol) : Fragment :=
  .choice junction ((rules.lookup symbol).getD [])

def startingFrom (start : Symbol) (rules : Rules) : Except GrammarTextFault Grammar :=
  (Grammar.ofRules rules start).mapError .startUndefined

/-- The grammar in which every symbol that is unfolded stands for its alternatives in the given
rules. The first such symbol that has no rule is an error. -/
def unfoldFrom (folded : Rules) (definitions : List Definition) (start : Symbol) :
    Except GrammarTextFault Grammar :=
  match (listUnfolds definitions).find? fun (symbol, _) => !folded.defines symbol with
  | some (symbol, position) => .error (.syntaxAt position (.undefinedUnfold symbol))
  | none => startingFrom start (rules (unfolded folded) definitions)

end Definition

/-- The outcome of reading a grammar, and what was logged meanwhile. -/
structure GrammarReading where
  result : Except GrammarTextFault Grammar
  events : List Event

def GrammarReading.ofDefinitions (definitions : List Definition) (start : Symbol) :
    GrammarReading :=
  let folded := Definition.rules Definition.folded definitions
  match Definition.startingFrom start folded, Definition.listUnfolds definitions with
  | .ok _, unfolds@(_ :: _) =>
    ⟨Definition.unfoldFrom folded definitions start, [.unfolding unfolds.length]⟩
  | result, _ => ⟨result, []⟩

end SentenceGrammar
