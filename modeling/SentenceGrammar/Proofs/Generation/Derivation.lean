import SentenceGrammar.Grammar.Basic
import SentenceGrammar.Grammar.LabelIndex
import SentenceGrammar.Grammar.Settings
import SentenceGrammar.Text.Trim

/-! What a grammar generates, said without runs and random sources. A derivation chooses freely
where an expansion draws: among the admitted alternatives, among the labels of a selector, and among
the slots of a sequence. -/

namespace SentenceGrammar

/-- The labels that a chain may leave active when it is evaluated on top of others. -/
inductive Chain.MayLeave : Chain → ActiveLabels → ActiveLabels → Prop where
  | nil (active : ActiveLabels) : MayLeave [] active active
  | reset {later : Chain} {active between : ActiveLabels} (after : MayLeave later active between) :
    MayLeave (.reset :: later) active .none
  | noLabel {later : Chain} {active between : ActiveLabels}
    (after : MayLeave later active between) :
    MayLeave (.anyOf [] :: later) active between
  | label {later : Chain} {active between : ActiveLabels} {labels : List Label} {label : Label}
    (after : MayLeave later active between) (member : label ∈ labels) :
    MayLeave (.anyOf labels :: later) active (between.insert label)

def Atom.firstWidth : List Atom → Option Nat
  | [] => none
  | .positional (_ :: others) :: _ => some (others.length + 1)
  | _ :: rest => firstWidth rest

/-- A slot for a sequence of atoms is a position in the first of its positional atoms. -/
def Atom.SlotFits (slot : Nat) (atoms : List Atom) : Prop :=
  ∀ width, Atom.firstWidth atoms = some width → slot < width

/-- What a derivation may be of: one of several alternatives, a sequence with its slot, or an atom
in a sequence with that slot. -/
inductive Derivand where
  | oneOf (alternatives : List Alternative)
  | sequence (slot : Nat) (parts : List Part)
  | atom (slot : Nat) (atom : Atom)

/-- The signals that may be derived at a depth of nesting while labels are active. -/
inductive Derives (grammar : Grammar) (limit : Nat) :
    Nat → ActiveLabels → Derivand → List Signal → Prop where
  | picked {depth active alternatives alternative slot signals} (room : depth < limit)
    (member : alternative ∈ alternatives) (admitted : active.admits alternative.label = true)
    (fits : Atom.SlotFits slot (alternative.parts.map Part.atom))
    (sequence : Derives grammar limit (depth + 1) active (.sequence slot alternative.parts)
      signals) :
    Derives grammar limit depth active (.oneOf alternatives) signals
  | noneAdmitted {depth active alternatives} (room : depth < limit)
    (excluded : ∀ alternative ∈ alternatives, active.admits alternative.label = false) :
    Derives grammar limit depth active (.oneOf alternatives) []
  | nil {depth active slot} : Derives grammar limit depth active (.sequence slot []) []
  | cons {depth active slot part rest signals later}
    (first : Derives grammar limit depth active (.atom slot part.atom) signals)
    (others : Derives grammar limit depth active (.sequence slot rest) later) :
    Derives grammar limit depth active (.sequence slot (part :: rest))
      (part.junction.signals ++ signals ++ later)
  | terminal {depth active slot text} :
    Derives grammar limit depth active (.atom slot (.terminal text)) [.word text]
  | reference {depth active inner slot symbol chain alternatives signals}
    (defined : grammar.lookup symbol = some alternatives)
    (selected : Chain.MayLeave chain active inner)
    (expansion : Derives grammar limit depth inner (.oneOf alternatives) signals) :
    Derives grammar limit depth active (.atom slot (.reference symbol chain)) signals
  | group {depth active inner slot alternatives chain signals}
    (selected : Chain.MayLeave chain active inner)
    (expansion : Derives grammar limit depth inner (.oneOf alternatives) signals) :
    Derives grammar limit depth active (.atom slot (.group alternatives chain)) signals
  | noChoice {depth active slot} :
    Derives grammar limit depth active (.atom slot (.positional [])) []
  | choice {depth active slot inner choices choice signals}
    (taken : choices[slot % choices.length]? = some choice)
    (fits : Atom.SlotFits inner [choice])
    (expansion : Derives grammar limit depth active (.atom inner choice) signals) :
    Derives grammar limit depth active (.atom slot (.positional choices)) signals
  | epsilon {depth active slot} : Derives grammar limit depth active (.atom slot .epsilon) []

def Settings.finish (settings : Settings) (text : String) : String :=
  if settings.trimOutput then Text.trim text else text

end SentenceGrammar
