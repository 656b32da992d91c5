import SentenceGrammar.Chain
import SentenceGrammar.Grammar.Atom
import SentenceGrammar.GrammarText.Token

/-! What is written in a grammar text, before anything is unfolded. A branch is a written
alternative. Its pieces are plain ones, or unfolded ones whose alternatives will be spliced into the
branch. -/

namespace SentenceGrammar

mutual

/-- The smallest written form of an atom. Square brackets make what they enclose optional. -/
inductive Term where
  | terminal (text : String)
  | reference (symbol : Symbol) (chain : Chain)
  | group (branches : List Branch) (chain : Chain)
  | optional (branches : List Branch) (chain : Chain)
  | epsilon

/-- A member of a branch. Terms with commas between them are positional choices. The symbol after an
unfold sign is kept with its place, because only the whole text tells whether it is defined. -/
inductive Piece where
  | plain (junction : Junction) (first : Term) (others : List Term)
  | unfoldGroup (junction : Junction) (branches : List Branch)
  | unfoldOptional (junction : Junction) (branches : List Branch)
  | unfoldSymbol (junction : Junction) (symbol : Symbol) (position : Position)

structure Branch where
  label : Option Label
  pieces : List Piece

end

instance : Inhabited Term := ⟨.epsilon⟩

structure Definition where
  symbol : Symbol
  branches : List Branch

mutual

/-- The symbols that a term unfolds, with their places, in written order. -/
def Term.unfolds : Term → List (Symbol × Position)
  | .terminal _ => []
  | .reference _ _ => []
  | .group branches _ => Branch.listUnfolds branches
  | .optional branches _ => Branch.listUnfolds branches
  | .epsilon => []

def Term.listUnfolds : List Term → List (Symbol × Position)
  | [] => []
  | term :: rest => term.unfolds ++ Term.listUnfolds rest

def Piece.unfolds : Piece → List (Symbol × Position)
  | .plain _ first others => first.unfolds ++ Term.listUnfolds others
  | .unfoldGroup _ branches => Branch.listUnfolds branches
  | .unfoldOptional _ branches => Branch.listUnfolds branches
  | .unfoldSymbol _ symbol position => [(symbol, position)]

def Piece.listUnfolds : List Piece → List (Symbol × Position)
  | [] => []
  | piece :: rest => piece.unfolds ++ Piece.listUnfolds rest

def Branch.listUnfolds : List Branch → List (Symbol × Position)
  | [] => []
  | ⟨_, pieces⟩ :: rest => Piece.listUnfolds pieces ++ Branch.listUnfolds rest

end

def Definition.listUnfolds (definitions : List Definition) : List (Symbol × Position) :=
  definitions.flatMap fun definition => Branch.listUnfolds definition.branches

end SentenceGrammar
