import SentenceGrammar.Chain
import SentenceGrammar.Text.Joining

/-! The right-hand sides of rules. An alternative is a sequence of parts, and a part is an atom with
the way it joins on to what stands before it. Atoms contain alternatives again, through groups, so
the three types are defined together. -/

namespace SentenceGrammar

inductive Junction where
  | space
  | glue
deriving DecidableEq, Repr

def Junction.signals : Junction → List Signal
  | .space => []
  | .glue => [.glue]

mutual

/-- What a part of an alternative expands to: a fixed text, an alternative of a rule, an alternative
of a group written in place, one of several atoms chosen by position, or nothing. -/
inductive Atom where
  | terminal (text : String)
  | reference (symbol : Symbol) (chain : Chain)
  | group (alternatives : List Alternative) (chain : Chain)
  | positional (choices : List Atom)
  | epsilon

structure Part where
  junction : Junction
  atom : Atom

/-- One of the sequences that a rule or a group may expand to, with the label that selections filter
it by. -/
structure Alternative where
  label : Option Label
  parts : List Part

end

instance : Inhabited Atom := ⟨.epsilon⟩

def Part.spaced (atom : Atom) : Part :=
  ⟨.space, atom⟩

def Alternative.nothing : Alternative :=
  ⟨none, [.spaced .epsilon]⟩

instance : Inhabited Part := ⟨.spaced .epsilon⟩

instance : Inhabited Alternative := ⟨.nothing⟩

mutual

def Atom.decideEq : (first second : Atom) → Decidable (first = second)
  | .terminal text, .terminal text' => decidable_of_iff (text = text') (by simp)
  | .reference symbol chain, .reference symbol' chain' =>
    decidable_of_iff (symbol = symbol' ∧ chain = chain') (by simp)
  | .group alternatives chain, .group alternatives' chain' =>
    have := Alternative.decideListEq alternatives alternatives'
    decidable_of_iff (alternatives = alternatives' ∧ chain = chain') (by simp)
  | .positional choices, .positional choices' =>
    have := Atom.decideListEq choices choices'
    decidable_of_iff (choices = choices') (by simp)
  | .epsilon, .epsilon => isTrue rfl
  | .terminal _, .reference _ _ | .terminal _, .group _ _ | .terminal _, .positional _
  | .terminal _, .epsilon | .reference _ _, .terminal _ | .reference _ _, .group _ _
  | .reference _ _, .positional _ | .reference _ _, .epsilon | .group _ _, .terminal _
  | .group _ _, .reference _ _ | .group _ _, .positional _ | .group _ _, .epsilon
  | .positional _, .terminal _ | .positional _, .reference _ _ | .positional _, .group _ _
  | .positional _, .epsilon | .epsilon, .terminal _ | .epsilon, .reference _ _
  | .epsilon, .group _ _ | .epsilon, .positional _ => isFalse nofun

def Atom.decideListEq : (first second : List Atom) → Decidable (first = second)
  | [], [] => isTrue rfl
  | [], _ :: _ | _ :: _, [] => isFalse nofun
  | atom :: rest, atom' :: rest' =>
    have := Atom.decideEq atom atom'
    have := Atom.decideListEq rest rest'
    decidable_of_iff (atom = atom' ∧ rest = rest') (by simp)

def Part.decideListEq : (first second : List Part) → Decidable (first = second)
  | [], [] => isTrue rfl
  | [], _ :: _ | _ :: _, [] => isFalse nofun
  | ⟨junction, atom⟩ :: rest, ⟨junction', atom'⟩ :: rest' =>
    have := Atom.decideEq atom atom'
    have := Part.decideListEq rest rest'
    decidable_of_iff (junction = junction' ∧ atom = atom' ∧ rest = rest') (by simp [and_assoc])

def Alternative.decideListEq : (first second : List Alternative) → Decidable (first = second)
  | [], [] => isTrue rfl
  | [], _ :: _ | _ :: _, [] => isFalse nofun
  | ⟨label, parts⟩ :: rest, ⟨label', parts'⟩ :: rest' =>
    have := Part.decideListEq parts parts'
    have := Alternative.decideListEq rest rest'
    decidable_of_iff (label = label' ∧ parts = parts' ∧ rest = rest') (by simp [and_assoc])

end

instance : DecidableEq Atom := Atom.decideEq

instance : DecidableEq Part := fun ⟨junction, atom⟩ ⟨junction', atom'⟩ =>
  decidable_of_iff (junction = junction' ∧ atom = atom') (by simp)

instance : DecidableEq Alternative := fun ⟨label, parts⟩ ⟨label', parts'⟩ =>
  decidable_of_iff (label = label' ∧ parts = parts') (by simp)

/-- A property of atoms holds of all of them if groups and positional choices inherit it from the
atoms they contain. -/
theorem Atom.induction {property : Atom → Prop}
    (terminal : ∀ text, property (.terminal text))
    (reference : ∀ symbol chain, property (.reference symbol chain))
    (group : ∀ alternatives chain,
      (∀ alternative ∈ alternatives, ∀ part ∈ alternative.parts, property part.atom) →
        property (.group alternatives chain))
    (positional : ∀ choices, (∀ choice ∈ choices, property choice) → property (.positional choices))
    (epsilon : property .epsilon) (atom : Atom) : property atom := by
  refine Atom.rec (motive_1 := property) (motive_2 := fun part => property part.atom)
    (motive_3 := fun alternative => ∀ part ∈ alternative.parts, property part.atom)
    (motive_4 := fun alternatives =>
      ∀ alternative ∈ alternatives, ∀ part ∈ alternative.parts, property part.atom)
    (motive_5 := fun choices => ∀ choice ∈ choices, property choice)
    (motive_6 := fun parts => ∀ part ∈ parts, property part.atom)
    terminal reference (fun alternatives chain => group alternatives chain)
    (fun choices => positional choices) epsilon ?_ ?_ ?_ ?_ ?_ ?_ ?_ ?_ atom
  · exact fun _ _ holds => holds
  · exact fun _ _ holds => holds
  · simp
  · simp only [List.forall_mem_cons]
    exact fun _ _ first rest => ⟨first, rest⟩
  · simp
  · simp only [List.forall_mem_cons]
    exact fun _ _ first rest => ⟨first, rest⟩
  · simp
  · simp only [List.forall_mem_cons]
    exact fun _ _ first rest => ⟨first, rest⟩

end SentenceGrammar
