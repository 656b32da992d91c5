import SentenceGrammar.ActiveLabels
import SentenceGrammar.Grammar.Atom

/-! Which alternatives are eligible. The positions of the alternatives are listed by label, so that
a selection reads off the lists of the active labels and merges them into one, in the order in which
the alternatives were written. -/

namespace SentenceGrammar

/-- The positions of unlabelled alternatives, and those of each label, all in increasing order. -/
structure LabelIndex where
  unlabelled : List Nat
  labelled : List (Label × List Nat)
deriving DecidableEq, Repr

namespace LabelIndex

def prepend (label : Label) (position : Nat) :
    List (Label × List Nat) → List (Label × List Nat)
  | [] => [(label, [position])]
  | (first, positions) :: rest =>
    if first = label then (first, position :: positions) :: rest
    else (first, positions) :: prepend label position rest

/-- Enters an alternative that stands before all those in the index. -/
def add (index : LabelIndex) (position : Nat) : Option Label → LabelIndex
  | none => { index with unlabelled := position :: index.unlabelled }
  | some label => { index with labelled := prepend label position index.labelled }

def build : Nat → List Alternative → LabelIndex
  | _, [] => ⟨[], []⟩
  | position, alternative :: rest => (build (position + 1) rest).add position alternative.label

def ofAlternatives (alternatives : List Alternative) : LabelIndex :=
  build 0 alternatives

def find (label : Label) : List (Label × List Nat) → List Nat
  | [] => []
  | (first, positions) :: rest => if first = label then positions else find label rest

/-- The positions of the unlabelled alternatives and of those with one of the labels. -/
def select (index : LabelIndex) (labels : List Label) : List Nat :=
  labels.foldl (fun positions label => positions.merge (find label index.labelled))
    index.unlabelled

end LabelIndex

namespace Alternative

/-- The positions of the eligible alternatives of a list. All of them are eligible while no label is
active, and then no index is built. -/
def eligiblePositions (active : ActiveLabels) (alternatives : List Alternative) : List Nat :=
  if active.isNone then List.range alternatives.length
  else (LabelIndex.ofAlternatives alternatives).select active.labels

def eligible (active : ActiveLabels) (alternatives : List Alternative) : List Alternative :=
  let table := alternatives.toArray
  (eligiblePositions active alternatives).filterMap fun position => table[position]?

end Alternative

def ActiveLabels.admitsAlternative (active : ActiveLabels) (alternative : Alternative) : Bool :=
  active.admits alternative.label

end SentenceGrammar
