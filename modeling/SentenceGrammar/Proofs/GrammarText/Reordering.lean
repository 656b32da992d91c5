import Mathlib.Data.List.Perm.Basic
import SentenceGrammar.Proofs.GrammarText.Cutting
import SentenceGrammar.Proofs.GrammarText.Inlining

/-! The order of definitions. A text is a row of definitions with gaps around them. What unfolded
symbols stand for depends on which definitions there are, and not on where they stand; so the same
definitions make the same grammar in every order. -/

namespace SentenceGrammar

open Token

namespace GrammarText

namespace DefinitionDerivation

def body (definition : DefinitionDerivation) : List Token :=
  .word definition.symbol.name :: .define :: definition.branches.yield

theorem semicolon_notMem_body (definition : DefinitionDerivation) :
    .semicolon ∉ definition.body := by
  simp [body, Derivation.not_mem_yield]

theorem listYield_eq_body (definition : DefinitionDerivation) (later : List DefinitionDerivation) :
    listYield (definition :: later) = definition.body ++ .semicolon :: listYield later :=
  listYield_cons definition later

section Reorder

variable {definitions others : List DefinitionDerivation}

theorem map_find_eq_of_perm (reordered : others.Perm definitions)
    (distinct : (others.map symbol).Nodup) (unfolded : Symbol → List Alternative) (name : Symbol) :
    (find name others).map (Derivation.meaning unfolded) =
      (find name definitions).map (Derivation.meaning unfolded) := by
  rw [← find_rules, ← find_rules]
  apply Rules.find_eq_of_perm (reordered.map (rule unfolded))
  rw [List.map_map]
  exact distinct

/-- What unfolded symbols stand for, and so every rule, is the same in every order. -/
theorem rules_eq_of_perm (reordered : others.Perm definitions)
    (distinct : (others.map symbol).Nodup) : rules others = rules definitions := by
  have same : unfolded others = unfolded definitions := by
    funext name
    rw [unfolded, unfolded, map_find_eq_of_perm reordered distinct]
  apply Rules.eq_of_lookup
  intro name
  rw [rules, rules, lookup_insertAll distinct,
    lookup_insertAll ((reordered.map symbol).nodup_iff.mp distinct), same,
    map_find_eq_of_perm reordered distinct]

theorem Accept.reorder {tokens kept : List PlacedToken} {start : Symbol}
    (accept : Accept definitions tokens start) (reordered : others.Perm definitions)
    (spelled : kept.map PlacedToken.token = listYield others) : Accept others kept start where
  spelled := spelled
  distinct := (reordered.map symbol).nodup_iff.mpr accept.distinct
  readable := by
    intro text member
    apply accept.readable text
    rw [accept.spelled, listYield]
    rw [spelled, listYield] at member
    exact (reordered.flatMap_right yield).mem_iff.mp member
  unfolds := by
    intro sign member
    have unfolded := List.mem_map_of_mem (f := Prod.fst) member
    rw [map_unfoldSigns, spelled, unfoldedSymbols_listYield,
      (reordered.flatMap_right _).mem_iff, ← unfoldedSymbols_listYield, ← accept.spelled,
      ← map_unfoldSigns] at unfolded
    obtain ⟨other, found, same⟩ := List.mem_map.mp unfolded
    rw [← same]
    exact (reordered.map symbol).mem_iff.mpr (accept.unfolds other found)
  start := (reordered.map symbol).mem_iff.mpr accept.start

end Reorder

end DefinitionDerivation

theorem eq_of_append_semicolon {first second later rest : List Token}
    (absent : .semicolon ∉ first) (absentToo : .semicolon ∉ second)
    (same : first ++ .semicolon :: later = second ++ .semicolon :: rest) :
    first = second ∧ later = rest := by
  induction first generalizing second with
  | nil =>
    cases second with
    | nil => exact ⟨rfl, (List.cons.inj same).2⟩
    | cons token second =>
      obtain ⟨rfl, _⟩ := List.cons.inj same
      exact absurd List.mem_cons_self absentToo
  | cons token first ih =>
    cases second with
    | nil =>
      obtain ⟨rfl, _⟩ := List.cons.inj same
      exact absurd List.mem_cons_self absent
    | cons other second =>
      obtain ⟨rfl, behind⟩ := List.cons.inj same
      obtain ⟨rfl, rfl⟩ := ih (fun member => absent (List.mem_cons_of_mem _ member))
        (fun member => absentToo (List.mem_cons_of_mem _ member)) behind
      exact ⟨rfl, rfl⟩

/-- A text that holds one definition: its tokens end with a semicolon, which is the only one. -/
def HoldsDefinition (text : List Char) : Prop :=
  ∃ body, .semicolon ∉ body ∧ Cuts text (body ++ [.semicolon])

/-- A text that consists of the texts of definitions, in their order, and of gaps around them. -/
inductive Arranges : List (List Char) → List Char → Prop where
  | nothing {gap : List Char} (blank : Cuts gap []) : Arranges [] gap
  | next {gap definition rest : List Char} {definitions : List (List Char)} (blank : Cuts gap [])
    (holds : HoldsDefinition definition) (later : Arranges definitions rest) :
    Arranges (definition :: definitions) (gap ++ (definition ++ rest))

theorem cuts_next {gap definition rest : List Char} {body later : List Token}
    (blank : Cuts gap []) (holds : Cuts definition (body ++ [.semicolon]))
    (cuts : Cuts rest later) :
    Cuts (gap ++ (definition ++ rest)) (body ++ .semicolon :: later) := by
  have behind := CutsAfter.append holds (Nat.zero_le _) (by simp) cuts
  rw [List.append_assoc] at behind
  have gapped : CutsAfter 0 _ ([] ++ _) := CutsAfter.append blank (Nat.zero_le _) nofun behind
  exact gapped

theorem exists_arranges {definitions : List DefinitionDerivation} {text : List Char}
    (cuts : Cuts text (DefinitionDerivation.listYield definitions)) :
    ∃ texts, Arranges texts text := by
  induction definitions generalizing text with
  | nil => exact ⟨[], .nothing cuts⟩
  | cons definition later ih =>
    rw [DefinitionDerivation.listYield_eq_body] at cuts
    obtain ⟨before, behind, rfl, holds, further⟩ := CutsAfter.split cuts
    obtain ⟨texts, arranged⟩ := ih further
    exact ⟨before :: texts,
      .next cuts_nil ⟨definition.body, definition.semicolon_notMem_body, holds⟩ arranged⟩

namespace Arranges

variable {texts : List (List Char)} {text : List Char} {definitions : List DefinitionDerivation}

theorem exists_cuts (arranged : Arranges texts text) : ∃ tokens, Cuts text tokens := by
  induction arranged with
  | nothing blank => exact ⟨[], blank⟩
  | next blank holds _ ih =>
    obtain ⟨body, _, cuts⟩ := holds
    obtain ⟨later, further⟩ := ih
    exact ⟨body ++ .semicolon :: later, cuts_next blank cuts further⟩

theorem forall₂_yield (arranged : Arranges texts text)
    (cuts : Cuts text (DefinitionDerivation.listYield definitions)) :
    List.Forall₂ (fun text definition => Cuts text definition.yield) texts definitions := by
  induction arranged generalizing definitions with
  | nothing blank =>
    cases definitions with
    | nil => exact .nil
    | cons definition later => nomatch CutsAfter.unique blank cuts
  | next blank holds arranged ih =>
    obtain ⟨body, absent, holds⟩ := holds
    obtain ⟨tokens, further⟩ := arranged.exists_cuts
    have whole := CutsAfter.unique (cuts_next blank holds further) cuts
    cases definitions with
    | nil => simp [DefinitionDerivation.listYield] at whole
    | cons definition later =>
      rw [DefinitionDerivation.listYield_eq_body] at whole
      obtain ⟨rfl, rfl⟩ := eq_of_append_semicolon absent definition.semicolon_notMem_body whole
      exact .cons holds (ih further)

theorem cuts_listYield (arranged : Arranges texts text)
    (each : List.Forall₂ (fun text definition => Cuts text definition.yield) texts definitions) :
    Cuts text (DefinitionDerivation.listYield definitions) := by
  induction arranged generalizing definitions with
  | nothing blank =>
    cases each
    exact blank
  | next blank _ _ ih =>
    cases each with
    | cons here later =>
      rw [DefinitionDerivation.listYield_eq_body]
      exact cuts_next blank here (ih later)

end Arranges

end GrammarText

namespace Grammar

open GrammarText

/-- The order of definitions is irrelevant. A text that makes a grammar consists of texts of
definitions with gaps around them; and however it is taken apart into such texts, every text in
which they stand in another order, with any gaps around them, makes the same grammar. -/
theorem ofText_reordered {text : String} {start : Symbol} {grammar : Grammar}
    (made : ofText text start = .ok grammar) :
    (∃ definitions, Arranges definitions text.toList) ∧
      ∀ (definitions others : List (List Char)) (other : String),
        Arranges definitions text.toList → others.Perm definitions →
          Arranges others other.toList → ofText other start = .ok grammar := by
  obtain ⟨tokens, derivations, cut, accept, rfl⟩ := exists_accept_of_ofText made
  have cuts : Cuts text.toList (DefinitionDerivation.listYield derivations) :=
    accept.spelled ▸ cutsAfter_of_scan cut
  refine ⟨exists_arranges cuts, fun definitions others other arranged reordered arrangedToo => ?_⟩
  obtain ⟨reorderedToo, each, same⟩ :=
    List.perm_comp_forall₂ reordered (arranged.forall₂_yield cuts)
  obtain ⟨kept, cutToo, spelled⟩ := arrangedToo.cuts_listYield each .first
  have acceptToo := accept.reorder same spelled
  rw [ofText_of_accept cutToo acceptToo]
  have rules := DefinitionDerivation.rules_eq_of_perm same acceptToo.distinct
  simp only [DefinitionDerivation.Accept.grammar, rules]

/-- A rule that unfolds itself and the next one, which unfolds it in turn. -/
def cyclicUnfolds : List DefinitionDerivation :=
  [⟨⟨"A"⟩, by decide, .nextBranch
      (.sequence none (.lastPiece (.unfoldSymbol .space "B" (by decide))))
      (.lastBranch (.sequence none (.nextPiece (.unfoldSymbol .space "A" (by decide))
        (.lastPiece (.plain .space (.word "b" none) .noOther)))))⟩,
    ⟨⟨"B"⟩, by decide, .nextBranch
      (.sequence none (.lastPiece (.unfoldSymbol .space "A" (by decide))))
      (.lastBranch (.sequence none (.lastPiece (.plain .space (.word "a" none) .noOther))))⟩]

theorem ofText_reordered_cyclicUnfolds :
    ∃ grammar : Grammar, ofText "A::=>B|>A b;B::=>A|a;" ⟨"A"⟩ = .ok grammar ∧
      ofText "B::=>A|a; (* ; *) A::=>B|>A b;" ⟨"A"⟩ = .ok grammar := by
  obtain ⟨tokens, cut⟩ :
      ∃ tokens, Token.tokenize "A::=>B|>A b;B::=>A|a;" = .ok tokens := ⟨_, rfl⟩
  have spelled : tokens.map PlacedToken.token = DefinitionDerivation.listYield cyclicUnfolds := by
    cases cut
    rfl
  have accept : DefinitionDerivation.Accept cyclicUnfolds tokens ⟨"A"⟩ := {
    spelled
    distinct := by decide
    readable := by
      intro text member
      rw [spelled] at member
      simp [cyclicUnfolds, DefinitionDerivation.listYield, DefinitionDerivation.yield, labelTokens,
        junctionTokens, chainTokens] at member
    unfolds := by
      cases cut
      decide
    start := by decide }
  have made := ofText_of_accept cut accept
  have first : HoldsDefinition "A::=>B|>A b;".toList :=
    ⟨[.word "A", .define, .unfold, .word "B", .bar, .unfold, .word "A", .word "b"], by decide,
      fun _ => ⟨_, rfl, rfl⟩⟩
  have second : HoldsDefinition "B::=>A|a;".toList :=
    ⟨[.word "B", .define, .unfold, .word "A", .bar, .word "a"], by decide, fun _ => ⟨_, rfl, rfl⟩⟩
  have comment : Token.Cuts " (* ; *) ".toList [] := fun _ => ⟨_, rfl, rfl⟩
  have arranged : Arranges ["A::=>B|>A b;".toList, "B::=>A|a;".toList]
      ([] ++ ("A::=>B|>A b;".toList ++ ([] ++ ("B::=>A|a;".toList ++ [])))) :=
    .next Token.cuts_nil first (.next Token.cuts_nil second (.nothing Token.cuts_nil))
  have arrangedToo : Arranges ["B::=>A|a;".toList, "A::=>B|>A b;".toList]
      ([] ++ ("B::=>A|a;".toList ++ (" (* ; *) ".toList ++ ("A::=>B|>A b;".toList ++ [])))) :=
    .next Token.cuts_nil second (.next comment first (.nothing Token.cuts_nil))
  exact ⟨_, made, (ofText_reordered made).2 _ _ _ arranged (List.Perm.swap _ _ []) arrangedToo⟩

end Grammar

end SentenceGrammar
