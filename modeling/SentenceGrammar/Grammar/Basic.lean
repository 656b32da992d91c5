import SentenceGrammar.Grammar.Rules

/-! A grammar: rules, and a start symbol that is one of theirs. Its other symbols may be referred to
without being defined; the list of those is what a careful writer looks at. -/

namespace SentenceGrammar

/-- Rules with the symbol that generation starts from, which has a rule. -/
structure Grammar where
  rules : Rules
  start : Symbol
  startDefined : rules.defines start = true
deriving DecidableEq

structure StartUndefined where
  start : Symbol
deriving DecidableEq, Repr

def StartUndefined.message (fault : StartUndefined) : String :=
  "start symbol `" ++ fault.start.name ++ "` is not defined"

mutual

/-- The symbols that an atom refers to, at any depth of groups and positional choices. -/
def Atom.references : Atom → List Symbol
  | .terminal _ => []
  | .reference symbol _ => [symbol]
  | .group alternatives _ => Alternative.listReferences alternatives
  | .positional choices => Atom.listReferences choices
  | .epsilon => []

def Atom.listReferences : List Atom → List Symbol
  | [] => []
  | atom :: rest => atom.references ++ Atom.listReferences rest

def Part.listReferences : List Part → List Symbol
  | [] => []
  | ⟨_, atom⟩ :: rest => atom.references ++ Part.listReferences rest

def Alternative.listReferences : List Alternative → List Symbol
  | [] => []
  | ⟨_, parts⟩ :: rest => Part.listReferences parts ++ Alternative.listReferences rest

end

theorem Atom.listReferences_eq_flatMap (atoms : List Atom) :
    Atom.listReferences atoms = atoms.flatMap Atom.references := by
  induction atoms with
  | nil => rfl
  | cons atom rest ih => simp [Atom.listReferences, ih]

theorem Part.listReferences_eq_flatMap (parts : List Part) :
    Part.listReferences parts = parts.flatMap fun part => part.atom.references := by
  induction parts with
  | nil => rfl
  | cons part rest ih => cases part; simp [Part.listReferences, ih]

theorem Alternative.listReferences_eq_flatMap (alternatives : List Alternative) :
    Alternative.listReferences alternatives =
      alternatives.flatMap fun alternative => Part.listReferences alternative.parts := by
  induction alternatives with
  | nil => rfl
  | cons alternative rest ih => cases alternative; simp [Alternative.listReferences, ih]

namespace Rules

/-- The symbols that the rules refer to, in written order and with repeats. -/
def references (rules : Rules) : List Symbol :=
  rules.list.flatMap fun rule => Alternative.listReferences rule.alternatives

end Rules

namespace Grammar

def ofRules (rules : Rules) (start : Symbol) : Except StartUndefined Grammar :=
  if defined : rules.defines start = true then .ok ⟨rules, start, defined⟩
  else .error ⟨start⟩

def lookup (grammar : Grammar) (symbol : Symbol) : Option (List Alternative) :=
  grammar.rules.lookup symbol

def startAlternatives (grammar : Grammar) : List Alternative :=
  (grammar.lookup grammar.start).get grammar.startDefined

def nonTerminals (grammar : Grammar) : List Symbol :=
  grammar.rules.symbols

/-- The symbols that are referred to and have no rule, in increasing order and each once. -/
def undefinedSymbols (grammar : Grammar) : List Symbol :=
  Symbol.ordered (grammar.rules.references.filter fun symbol => !grammar.rules.defines symbol)

end Grammar

end SentenceGrammar
