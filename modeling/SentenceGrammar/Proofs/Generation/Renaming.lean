import SentenceGrammar.Proofs.Generation.Evaluation
import SentenceGrammar.Proofs.Generation.Faults
import SentenceGrammar.Proofs.Generation.Lockstep
import SentenceGrammar.Proofs.Grammar.Lookup

/-! Labels and symbols are opaque, and active labels are a set. A grammar with other names for its
labels and symbols generates the same texts from the same random state, in whatever order the labels
became active. -/

namespace SentenceGrammar

variable {σ : Type}

open Expansion

/-- Other names for labels and for symbols, different ones for different labels and symbols. -/
structure Renaming where
  label : Label → Label
  symbol : Symbol → Symbol
  label_injective : Function.Injective label
  symbol_injective : Function.Injective symbol

namespace Renaming

variable (names : Renaming)

def identity : Renaming :=
  ⟨id, id, Function.injective_id, Function.injective_id⟩

def selector : Selector → Selector
  | .anyOf labels => .anyOf (labels.map names.label)
  | .reset => .reset

def chain (chain : Chain) : Chain :=
  chain.map names.selector

mutual

def atom : Atom → Atom
  | .terminal text => .terminal text
  | .reference symbol chain => .reference (names.symbol symbol) (names.chain chain)
  | .group inner chain => .group (alternatives inner) (names.chain chain)
  | .positional choices => .positional (atoms choices)
  | .epsilon => .epsilon

def atoms : List Atom → List Atom
  | [] => []
  | first :: rest => atom first :: atoms rest

def parts : List Part → List Part
  | [] => []
  | ⟨junction, first⟩ :: rest => ⟨junction, atom first⟩ :: parts rest

def alternatives : List Alternative → List Alternative
  | [] => []
  | ⟨label, sequence⟩ :: rest =>
    ⟨label.map names.label, parts sequence⟩ :: alternatives rest

end

def rule (rule : Rule) : Rule :=
  ⟨names.symbol rule.symbol, names.alternatives rule.alternatives⟩

def rules (rules : Rules) : Rules :=
  Rules.empty.insertAll (rules.list.map names.rule)

variable {names}

theorem find_map_rule (list : List Rule) (symbol : Symbol) :
    Rules.find (names.symbol symbol) (list.map names.rule) =
      (Rules.find symbol list).map names.alternatives := by
  induction list with
  | nil => rfl
  | cons first rest ih =>
    have same : (names.rule first).symbol = names.symbol symbol ↔ first.symbol = symbol :=
      names.symbol_injective.eq_iff
    rw [List.map_cons, Rules.find, Rules.find, ih]
    simp only [same]
    split <;> rfl

theorem lookup_rules (rules : Rules) (symbol : Symbol) :
    (names.rules rules).lookup (names.symbol symbol) =
      (rules.lookup symbol).map names.alternatives := by
  have distinct : ((rules.list.map names.rule).map Rule.symbol).Nodup := by
    have symbols : (rules.symbols.map names.symbol).Nodup :=
      List.Pairwise.map names.symbol
        (fun _ _ different same => different (names.symbol_injective same)) rules.nodup_symbols
    rw [Rules.symbols, List.map_map] at symbols
    rw [List.map_map]
    exact symbols
  rw [Renaming.rules, Rules.lookup_insertAll distinct, find_map_rule, Rules.lookup_empty,
    Option.or_none]
  rfl

def grammar (names : Renaming) (grammar : Grammar) : Grammar where
  rules := names.rules grammar.rules
  start := names.symbol grammar.start
  startDefined := by
    rw [Rules.defines, lookup_rules, Option.isSome_map]
    exact grammar.startDefined

theorem lookup_grammar (names : Renaming) (grammar : Grammar) (symbol : Symbol) :
    (names.grammar grammar).lookup (names.symbol symbol) =
      (grammar.lookup symbol).map names.alternatives :=
  lookup_rules grammar.rules symbol

theorem startAlternatives_grammar (grammar : Grammar) :
    (names.grammar grammar).startAlternatives = names.alternatives grammar.startAlternatives := by
  have found := (lookup_grammar names grammar grammar.start).symm.trans
    (names.grammar grammar).lookup_start
  rw [grammar.lookup_start] at found
  exact (Option.some.inj found).symm

theorem forall₂_atoms {related : Atom → Atom → Prop} {atoms : List Atom}
    (each : ∀ atom ∈ atoms, related atom (names.atom atom)) :
    List.Forall₂ related atoms (names.atoms atoms) := by
  induction atoms with
  | nil => exact .nil
  | cons first rest ih =>
    obtain ⟨here, later⟩ := List.forall_mem_cons.mp each
    exact .cons here (ih later)

theorem matches_parts (parts : List Part) :
    List.Forall₂ (Part.Matches fun atom other => other = names.atom atom)
      parts (names.parts parts) := by
  induction parts with
  | nil => exact .nil
  | cons part rest ih =>
    obtain ⟨junction, atom⟩ := part
    exact .cons (.mk rfl) ih

theorem matches_alternatives (alternatives : List Alternative) :
    List.Forall₂ (Alternative.Matches (fun label other => other = label.map names.label)
        fun atom other => other = names.atom atom)
      alternatives (names.alternatives alternatives) := by
  induction alternatives with
  | nil => exact .nil
  | cons alternative rest ih =>
    obtain ⟨label, parts⟩ := alternative
    exact .cons (.mk rfl (matches_parts parts)) ih

/-- A fault of a renamed grammar: of the same kind, with the other name of the symbol. A limit is
the same, and the labels that are reported as active may stand in another order. -/
inductive Fault (names : Renaming) : ExpansionFault → ExpansionFault → Prop where
  | undefinedSymbol {symbol : Symbol} {active other : ActiveLabels}
    (reordered : other.labels.Perm (active.labels.map names.label)) :
    Fault names (.undefinedSymbol symbol active) (.undefinedSymbol (names.symbol symbol) other)
  | limitExceeded {symbol : Symbol} {limit : Nat} :
    Fault names (.limitExceeded symbol limit) (.limitExceeded (names.symbol symbol) limit)

theorem admits_eq {active other : ActiveLabels}
    (reordered : other.labels.Perm (active.labels.map names.label)) (label : Option Label) :
    other.admits (label.map names.label) = active.admits label := by
  cases label with
  | none => rfl
  | some label =>
    have noneActive : other.isNone = active.isNone := by
      rw [ActiveLabels.isNone, ActiveLabels.isNone, reordered.isEmpty_eq, List.isEmpty_map]
    have member : names.label label ∈ other.labels ↔ label ∈ active.labels := by
      rw [reordered.mem_iff, List.mem_map_of_injective names.label_injective]
    simp only [ActiveLabels.admits, ActiveLabels.contains, Option.map_some, noneActive, member]

/-- Runs of a grammar and of the renamed one correspond up to the names and the order of labels. -/
def coupling (names : Renaming) : Coupling where
  active active other := other.labels.Perm (active.labels.map names.label)
  labels label other := other = label.map names.label
  admits := by
    rintro active other label _ reordered rfl
    exact (admits_eq reordered label).symm
  faults := Fault names
  forgives _ := False

theorem insert_perm {active other : ActiveLabels}
    (reordered : other.labels.Perm (active.labels.map names.label)) (label : Label) :
    (other.insert (names.label label)).labels.Perm ((active.insert label).labels.map names.label) :=
  by
  have member : names.label label ∈ other.labels ↔ label ∈ active.labels := by
    rw [reordered.mem_iff, List.mem_map_of_injective names.label_injective]
  unfold ActiveLabels.insert
  by_cases present : label ∈ active.labels
  · rwa [dif_pos present, dif_pos (member.mpr present)]
  · rw [dif_neg present, dif_neg (mt member.mp present), List.map_append]
    exact reordered.append_right _

theorem chain_identity (chain : Chain) : identity.chain chain = chain := by
  have same : identity.selector = id := by
    funext selector
    cases selector with
    | anyOf labels => exact congrArg Selector.anyOf (List.map_id labels)
    | reset => rfl
  rw [Renaming.chain, same, List.map_id]

theorem atoms_identity {atoms : List Atom} (each : ∀ atom ∈ atoms, identity.atom atom = atom) :
    identity.atoms atoms = atoms := by
  induction atoms with
  | nil => rfl
  | cons first rest ih =>
    obtain ⟨here, later⟩ := List.forall_mem_cons.mp each
    rw [Renaming.atoms, here, ih later]

theorem parts_identity {parts : List Part}
    (each : ∀ part ∈ parts, identity.atom part.atom = part.atom) :
    identity.parts parts = parts := by
  induction parts with
  | nil => rfl
  | cons part rest ih =>
    obtain ⟨here, later⟩ := List.forall_mem_cons.mp each
    obtain ⟨junction, atom⟩ := part
    rw [Renaming.parts, ih later]
    exact congrArg (fun atom => ⟨junction, atom⟩ :: rest) here

theorem alternatives_identity {alternatives : List Alternative}
    (each : Alternative.EachAtom (fun atom => identity.atom atom = atom) alternatives) :
    identity.alternatives alternatives = alternatives := by
  induction alternatives with
  | nil => rfl
  | cons alternative rest ih =>
    obtain ⟨here, later⟩ := List.forall_mem_cons.mp each
    obtain ⟨label, parts⟩ := alternative
    rw [Renaming.alternatives, ih later, parts_identity here]
    exact congrArg (fun label => ⟨label, parts⟩ :: rest) Option.map_id'

theorem atom_identity (atom : Atom) : identity.atom atom = atom := by
  induction atom using Atom.induction with
  | terminal text => rfl
  | reference name chain => exact congrArg (Atom.reference name) (chain_identity chain)
  | group alternatives chain ih =>
    rw [Renaming.atom, alternatives_identity ih, chain_identity]
  | positional choices ih => rw [Renaming.atom, atoms_identity ih]
  | epsilon => rfl

theorem grammar_identity (grammar : Grammar) : identity.grammar grammar = grammar := by
  have same : identity.rule = id := by
    funext rule
    have alternatives : identity.alternatives rule.alternatives = rule.alternatives :=
      alternatives_identity fun _ _ _ _ => atom_identity _
    simp only [Renaming.rule, alternatives]
    rfl
  have rules : identity.rules grammar.rules = grammar.rules := by
    rw [Renaming.rules, same, List.map_id]
    exact Rules.insertAll_perm (.refl _)
  simp only [Renaming.grammar, rules]
  rfl

variable [RandomSource σ]

theorem chains (chain : Chain) : (coupling names).Chains σ chain (names.chain chain) := by
  refine ⟨by simp [Renaming.chain], ?_⟩
  intro active others first second reordered source
  induction chain with
  | nil => exact ⟨reordered, source⟩
  | cons selector later ih =>
    obtain ⟨between, drawn⟩ := ih
    rw [Renaming.chain, List.map_cons]
    simp only [Chain.applyTo]
    rcases selector with ⟨_ | ⟨label, rest⟩⟩ | _
    · exact ⟨between, drawn⟩
    · have same : (Chain.applyTo (later.map names.selector) others second).2.source =
          (Chain.applyTo later active first).2.source := drawn.symm
      simp only [selector, Selector.apply, List.map_cons, Run.index, RandomSource.index,
        List.length_map, List.get_eq_getElem, same]
      refine ⟨?_, trivial⟩
      simp only [← List.map_cons, List.getElem_map]
      exact insert_perm between _
    · exact ⟨.nil, drawn⟩

theorem lockstep_expandOne (grammar : Grammar) (limit room : Nat) (symbol : Symbol)
    (alternatives : List Alternative) :
    Lockstep (coupling names) (· = ·)
      (Alternative.expandOne grammar limit room symbol alternatives)
      (Alternative.expandOne (names.grammar grammar) limit room (names.symbol symbol)
        (names.alternatives alternatives) : Expansion σ (List Signal)) := by
  induction room generalizing symbol alternatives with
  | zero => exact lockstep_throw .limitExceeded
  | succ room ih =>
    have keeps := Alternative.keepsScopes_expandOne (σ := σ) grammar limit room
    have keepsToo := Alternative.keepsScopes_expandOne (σ := σ) (names.grammar grammar) limit room
    refine Alternative.lockstep_expandOne ?_ ?_ (matches_alternatives alternatives)
    · rfl
    rintro atom _ rfl slot
    induction atom using Atom.induction generalizing slot with
    | terminal text => exact lockstep_pure rfl
    | reference name chain =>
      cases defined : grammar.lookup name with
      | some options =>
        have renamed := lookup_grammar names grammar name
        rw [defined] at renamed
        exact Atom.lockstep_reference keeps keepsToo defined renamed (chains chain)
          (ih name options) slot
      | none =>
        have renamed := lookup_grammar names grammar name
        rw [defined] at renamed
        exact Atom.lockstep_undefined defined renamed
          (fun active => .inl (Fault.undefinedSymbol active)) slot
    | group options chain _ =>
      exact Atom.lockstep_group keeps keepsToo (chains chain) (ih symbol options) slot
    | positional choices each =>
      exact Atom.lockstep_positional keeps keepsToo
        (forall₂_atoms fun choice member => each choice member none) slot
    | epsilon => exact lockstep_pure rfl

theorem lockstep_generate (names : Renaming) (grammar : Grammar) (settings : Settings) :
    Lockstep (coupling names) (· = ·) (grammar.generate settings : Expansion σ String)
      ((names.grammar grammar).generate settings) := by
  refine Grammar.lockstep_generate rfl ?_
  rw [startAlternatives_grammar]
  exact lockstep_expandOne grammar settings.maxDepth settings.maxDepth grammar.start _

end Renaming

variable [RandomSource σ]

theorem Grammar.effect_generate_of_perm {grammar : Grammar} {settings : Settings}
    {run other : Run σ} (source : run.source = other.source)
    (reordered : other.active.labels.Perm run.active.labels) {text : String} {final : σ}
    (success : (grammar.generate settings).effect run = (.ok text, final)) :
    (grammar.generate settings).effect other = (.ok text, final) := by
  have lockstep := Renaming.lockstep_generate (σ := σ) .identity grammar settings
  rw [Renaming.grammar_identity] at lockstep
  have labels : other.active.labels.Perm (run.active.labels.map Renaming.identity.label) := by
    rwa [Renaming.identity, List.map_id]
  exact (lockstep run other ⟨source, labels⟩).eq_ok success

/-- Names are opaque and active labels are a set. Take other names for all labels and symbols of a
grammar, and a run with the same random state in whose innermost scope the other names of the same
labels are active, in any order. Then the same text is generated, or there is a fault of the same
kind with the other name of the symbol and the same limit; and the random state is the same
afterwards. With no other names, the order of the active labels alone changes no text. -/
theorem Grammar.generate_renamed (names : Renaming) (grammar : Grammar) (settings : Settings)
    (run other : Run σ) (source : run.source = other.source)
    (reordered : other.active.labels.Perm (run.active.labels.map names.label)) :
    (∀ text final, (grammar.generate settings).effect run = (.ok text, final) →
      ((names.grammar grammar).generate settings).effect other = (.ok text, final)) ∧
    (∀ fault final, (grammar.generate settings).effect run = (.error fault, final) →
      ∃ renamed, names.Fault fault renamed ∧
        ((names.grammar grammar).generate settings).effect other = (.error renamed, final)) ∧
    ∀ another : Run σ, run.source = another.source →
      another.active.labels.Perm run.active.labels → ∀ text final,
        (grammar.generate settings).effect run = (.ok text, final) ↔
          (grammar.generate settings).effect another = (.ok text, final) := by
  have outcomes := names.lockstep_generate grammar settings run other ⟨source, reordered⟩
  refine ⟨fun text final success => outcomes.eq_ok success, fun fault final failed => ?_, ?_⟩
  · exact (outcomes.of_error failed).resolve_left id
  · intro another source reordered text final
    exact ⟨effect_generate_of_perm source reordered,
      effect_generate_of_perm source.symm reordered.symm⟩

def Renaming.marked : Renaming where
  label label := ⟨label.name ++ "+"⟩
  symbol symbol := ⟨symbol.name ++ "+"⟩
  label_injective := by
    intro label other same
    exact congrArg Label.mk (String.append_left_inj "+" |>.mp (Label.mk.inj same))
  symbol_injective := by
    intro symbol other same
    exact congrArg Symbol.mk (String.append_left_inj "+" |>.mp (Symbol.mk.inj same))

def Grammar.threeLabels : Grammar :=
  ⟨(Rules.empty.insert ⟨"S"⟩
      [⟨none, [.spaced (.reference ⟨"A"⟩ [.anyOf [⟨"x"⟩, ⟨"y"⟩]])]⟩]).insert ⟨"A"⟩
      [⟨some ⟨"x"⟩, [.spaced (.terminal "1")]⟩, ⟨some ⟨"y"⟩, [.spaced (.terminal "2")]⟩,
        ⟨some ⟨"z"⟩, [.spaced (.terminal "3")]⟩],
    ⟨"S"⟩, by decide⟩

theorem Grammar.generate_renamed_threeLabels :
    ∃ final, (threeLabels.generate .standard).effect
          (Run.onZeros.enter (.ofList [⟨"y"⟩, ⟨"z"⟩])) = (.ok "1", final) ∧
        ((Renaming.marked.grammar threeLabels).generate .standard).effect
          (Run.onZeros.enter (.ofList [⟨"z+"⟩, ⟨"y+"⟩])) = (.ok "1", final) := by
  have text : ((threeLabels.generate .standard).effect
      (Run.onZeros.enter (.ofList [⟨"y"⟩, ⟨"z"⟩]))).1 = .ok "1" := by
    rw [generate_eq_expandAdmitted]
    rfl
  have renamed := generate_renamed .marked threeLabels .standard
    (Run.onZeros.enter (.ofList [⟨"y"⟩, ⟨"z"⟩])) (Run.onZeros.enter (.ofList [⟨"z+"⟩, ⟨"y+"⟩]))
    rfl (by decide)
  exact ⟨_, Prod.ext text rfl, renamed.1 _ _ (Prod.ext text rfl)⟩

end SentenceGrammar
