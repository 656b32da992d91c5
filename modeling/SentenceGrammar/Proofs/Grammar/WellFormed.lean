import SentenceGrammar.Grammar.Basic
import SentenceGrammar.Proofs.Chain.RoundTrip

/-! The grammars that can be written. Names and labels are words, nothing that stands between bars
or brackets is empty, and a positional choice has several simple atoms to choose from. -/

namespace SentenceGrammar

open Character

def IsWord (text : String) : Prop :=
  text.toList ≠ [] ∧ ∀ c ∈ text.toList, isWordChar c = true

instance (text : String) : Decidable (IsWord text) :=
  decidable_of_iff ((!text.toList.isEmpty && text.toList.all isWordChar) = true)
    (by simp [IsWord])

def Symbol.WellFormed (symbol : Symbol) : Prop :=
  IsWord symbol.name ∧ startsUppercase symbol.name.toList = true

instance (symbol : Symbol) : Decidable symbol.WellFormed :=
  inferInstanceAs (Decidable (_ ∧ _))

def Atom.isPositional : Atom → Bool
  | .positional _ => true
  | _ => false

/-- An atom that can be written: every group in it has an alternative and every alternative a part,
and no positional choice is directly one of another. -/
inductive Atom.WellFormed : Atom → Prop where
  | terminal (text : String) : WellFormed (.terminal text)
  | reference {symbol : Symbol} {chain : Chain} (named : symbol.WellFormed)
    (chained : chain.WellFormed) : WellFormed (.reference symbol chain)
  | group {alternatives : List Alternative} {chain : Chain} (nonempty : alternatives ≠ [])
    (labelled : ∀ alternative ∈ alternatives, ∀ label, alternative.label = some label →
      IsWord label.name)
    (filled : ∀ alternative ∈ alternatives, alternative.parts ≠ [])
    (inside : ∀ alternative ∈ alternatives, ∀ part ∈ alternative.parts, WellFormed part.atom)
    (chained : chain.WellFormed) : WellFormed (.group alternatives chain)
  | positional {choices : List Atom} (several : 2 ≤ choices.length)
    (simple : ∀ choice ∈ choices, choice.isPositional = false)
    (inside : ∀ choice ∈ choices, WellFormed choice) : WellFormed (.positional choices)
  | epsilon : WellFormed .epsilon

structure Alternative.WellFormed (alternative : Alternative) : Prop where
  labelled : ∀ label, alternative.label = some label → IsWord label.name
  filled : alternative.parts ≠ []
  inside : ∀ part ∈ alternative.parts, part.atom.WellFormed

structure Alternative.ListWellFormed (alternatives : List Alternative) : Prop where
  nonempty : alternatives ≠ []
  each : ∀ alternative ∈ alternatives, alternative.WellFormed

/-- A grammar that can be written. Its start symbol has a rule, like that of every grammar. -/
structure Grammar.WellFormed (grammar : Grammar) : Prop where
  named : ∀ rule ∈ grammar.rules.list, rule.symbol.WellFormed
  ruled : ∀ rule ∈ grammar.rules.list, Alternative.ListWellFormed rule.alternatives

/-- An atom that can be written and chosen by position. -/
structure Atom.Simple (atom : Atom) : Prop where
  wellFormed : atom.WellFormed
  single : atom.isPositional = false

theorem Atom.wellFormed_positional {choices : List Atom} :
    (Atom.positional choices).WellFormed ↔
      2 ≤ choices.length ∧ ∀ choice ∈ choices, choice.Simple := by
  constructor
  · intro wellFormed
    cases wellFormed with
    | positional several simple inside =>
      exact ⟨several, fun choice member => ⟨inside choice member, simple choice member⟩⟩
  · rintro ⟨several, each⟩
    exact .positional several (fun choice member => (each choice member).single)
      fun choice member => (each choice member).wellFormed

theorem Atom.wellFormed_group {alternatives : List Alternative} {chain : Chain} :
    (Atom.group alternatives chain).WellFormed ↔
      Alternative.ListWellFormed alternatives ∧ chain.WellFormed := by
  constructor
  · intro wellFormed
    cases wellFormed with
    | group nonempty labelled filled inside chained =>
      refine ⟨⟨nonempty, fun alternative member => ?_⟩, chained⟩
      exact ⟨labelled alternative member, filled alternative member, inside alternative member⟩
  · rintro ⟨⟨nonempty, each⟩, chained⟩
    exact .group nonempty (fun alternative member => (each alternative member).labelled)
      (fun alternative member => (each alternative member).filled)
      (fun alternative member => (each alternative member).inside) chained

namespace Alternative

theorem wellFormed_nothing : nothing.WellFormed where
  labelled := nofun
  filled := List.cons_ne_nil _ _
  inside := List.forall_mem_singleton.mpr .epsilon

theorem wellFormed_singleton {junction : Junction} {atom : Atom} (wellFormed : atom.WellFormed) :
    WellFormed ⟨none, [⟨junction, atom⟩]⟩ where
  labelled := nofun
  filled := List.cons_ne_nil _ _
  inside := List.forall_mem_singleton.mpr wellFormed

namespace ListWellFormed

variable {first later : List Alternative}

theorem singleton {alternative : Alternative} (wellFormed : alternative.WellFormed) :
    ListWellFormed [alternative] :=
  ⟨List.cons_ne_nil _ _, List.forall_mem_singleton.mpr wellFormed⟩

theorem append (before : ListWellFormed first) (after : ListWellFormed later) :
    ListWellFormed (first ++ later) :=
  ⟨List.append_ne_nil_of_left_ne_nil before.nonempty _,
    List.forall_mem_append.mpr ⟨before.each, after.each⟩⟩

theorem map {change : Alternative → Alternative} (before : ListWellFormed first)
    (keeps : ∀ alternative, alternative.WellFormed → (change alternative).WellFormed) :
    ListWellFormed (first.map change) :=
  ⟨by simpa using before.nonempty,
    List.forall_mem_map.mpr fun alternative member => keeps alternative (before.each _ member)⟩

end ListWellFormed

end Alternative

end SentenceGrammar
