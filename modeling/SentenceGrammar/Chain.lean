import SentenceGrammar.Names

/-! Selection chains. A chain such as `.one.(a|b)..two` stands after a reference or a group and
changes the active labels for its expansion. It is kept in the order in which it is written. -/

namespace SentenceGrammar

/-- One element of a chain: activate one label of a list, or start over with no label. -/
inductive Selector where
  | anyOf (labels : List Label)
  | reset
deriving DecidableEq, Repr

/-- The selectors of a chain in written order. The empty chain selects nothing. -/
abbrev Chain := List Selector

/-- A reset is a bare dot, a single label stands after its dot, and other lists of labels are
parenthesised. -/
def Selector.text : Selector → String
  | .reset => "."
  | .anyOf [label] => "." ++ label.name
  | .anyOf labels => ".(" ++ "|".intercalate (labels.map Label.name) ++ ")"

def Chain.text (chain : Chain) : String :=
  String.join (chain.map Selector.text)

def Chain.ofLabels (labels : List Label) : Chain :=
  labels.map fun label => .anyOf [label]

end SentenceGrammar
