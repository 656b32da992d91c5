import SentenceGrammar.Proofs.Generation.Evaluation
import SentenceGrammar.Proofs.Generation.Faults
import SentenceGrammar.Proofs.Generation.Lockstep
import SentenceGrammar.Proofs.Grammar.Lookup

/-! A chain is a nesting of scopes, its right end outermost. What stands under a chain can be put
into a group under the left part of it, with the right part behind the group: the same is generated,
one level of nesting deeper. -/

namespace SentenceGrammar

open Expansion

variable {σ α β : Type}

namespace Expansion

theorem effect_map (action : Expansion σ α) (change : α → β) (run : Run σ) :
    effect (do return change (← action)) run =
      ((action.effect run).1.map change, (action.effect run).2) := by
  unfold effect
  rw [bind_apply]
  cases action run <;> rfl

theorem effect_bind {action : Expansion σ α} {next : α → Expansion σ β}
    (keeps : KeepsScopes action) (isLocal : ∀ result, Local (next result)) {run : Run σ}
    {result : α} {source : σ} (success : action.effect run = (.ok result, source)) :
    effect (action >>= next) run = (next result).effect ⟨0, source, [run.active], []⟩ := by
  unfold effect at success ⊢
  rw [bind_apply]
  cases outcome : action run with
  | error fault middle => simp [outcome] at success
  | ok between middle =>
    simp only [outcome, Prod.mk.injEq, Except.ok.injEq] at success
    obtain ⟨rfl, rfl⟩ := success
    rw [← keeps.active_eq outcome]
    exact (isLocal between).effect_eq middle

end Expansion

variable [RandomSource σ]

namespace Chain

theorem applyTo_enter (chain : Chain) (active scope : ActiveLabels) (run : Run σ) :
    chain.applyTo active (run.enter scope) =
      ((chain.applyTo active run).1, (chain.applyTo active run).2.enter scope) := by
  induction chain with
  | nil => rfl
  | cons selector later ih =>
    rw [applyTo, ih, applyTo]
    rcases selector with ⟨_ | ⟨label, others⟩⟩ | _ <;> rfl

/-- A chain is evaluated as its left part in the scope that its right part opens. -/
theorem resolve_append (inner outer : Chain) :
    (do
      let active ← modifyGet outer.resolve
      Run.within active (modifyGet inner.resolve)) =
        (modifyGet (inner ++ outer).resolve : Expansion σ ActiveLabels) := by
  funext run
  change EStateM.Result.ok _ _ = EStateM.Result.ok _ _
  simp only [applyTo_append, Run.active_enter, applyTo_enter, Run.leave_enter]

end Chain

namespace Expansion

theorem effect_under {openAlternatives : Symbol → List Alternative → Expansion σ (List Signal)}
    {symbol : Symbol} {alternatives : List Alternative}
    (opens : Local (openAlternatives symbol alternatives)) (chain : Chain) (run : Run σ) :
    (Expansion.under openAlternatives symbol alternatives chain).effect run =
      (openAlternatives symbol alternatives).effect
        ⟨0, (chain.resolve run).2.source, [(chain.resolve run).1], []⟩ := by
  unfold Expansion.under
  split
  · rename_i empty
    rw [List.isEmpty_iff.mp empty]
    exact opens.effect_eq run
  · have scope := effect_within (chain.resolve run).1 (openAlternatives symbol alternatives)
      ((chain.resolve run).2.note (.opened symbol chain (chain.resolve run).1))
    exact scope.trans (opens.effect_eq _)

end Expansion

section Levels

variable (grammar : Grammar) (limit room : Nat)

theorem Alternative.local_expandOne (symbol : Symbol) (alternatives : List Alternative) :
    Local (Alternative.expandOne grammar limit room symbol alternatives :
      Expansion σ (List Signal)) :=
  (compatible_local grammar).expandOne (Atom.hereditary_true grammar)
    (grammar.agreesOn_self _) limit limit
    (fun _ _ => local_throw _) (Nat.le_refl room) symbol fun _ _ _ _ => trivial

theorem Part.local_expandList (symbol : Symbol) (slot : Option Nat) (parts : List Part) :
    Local (Part.expandList grammar (Alternative.expandOne grammar limit room) symbol slot parts :
      Expansion σ (List Signal)) :=
  (compatible_local grammar).expandParts _ (Alternative.expandOne grammar limit room)
    (Atom.hereditary_true grammar) (grammar.agreesOn_self _)
    (fun symbol alternatives _ =>
      Alternative.local_expandOne grammar limit room symbol alternatives)
    symbol (fun _ _ => trivial) slot

theorem Atom.local_expand (symbol : Symbol) (atom : Atom) (slot : Option Nat) :
    Local (atom.expand grammar (Alternative.expandOne grammar limit room) symbol slot :
      Expansion σ (List Signal × Option Nat)) :=
  (compatible_local grammar).expandAtom _ (Alternative.expandOne grammar limit room)
    (Atom.hereditary_true grammar) (grammar.agreesOn_self _)
    (fun symbol alternatives _ =>
      Alternative.local_expandOne grammar limit room symbol alternatives)
    symbol trivial slot

/-- An atom as the only part of the only alternative, which has no label, so that nothing is drawn
for the choice of it. -/
def Alternative.onlyAtom (atom : Atom) : List Alternative :=
  [⟨none, [.spaced atom]⟩]

theorem Alternative.effect_expandOne_onlyAtom (symbol : Symbol) (atom : Atom) (run : Run σ) :
    (Alternative.expandOne grammar limit (room + 1) symbol (onlyAtom atom)).effect run =
      (((atom.expand grammar (Alternative.expandOne grammar limit room) symbol none).effect
          run).1.map Prod.fst,
        ((atom.expand grammar (Alternative.expandOne grammar limit room) symbol none).effect
          run).2) := by
  have chosen : (Alternative.choose symbol (onlyAtom atom)).effect run =
      (.ok ⟨none, [.spaced atom]⟩, run.source) := by
    rw [Alternative.effect_choose, Alternative.eligible_eq_filter]
    rfl
  rw [Alternative.expandOne_succ, effect_bind (Alternative.keepsScopes_choose _ _)
    (fun _ => Part.local_expandList grammar limit room symbol none _) chosen]
  have only : Part.expandList grammar (Alternative.expandOne grammar limit room) symbol none
      [.spaced atom] = (do
        return (← atom.expand grammar (Alternative.expandOne grammar limit room) symbol none).1 :
          Expansion σ (List Signal)) := by
    simp [Part.expandList, Part.spaced, Junction.signals]
  rw [only, effect_map, ← (Atom.local_expand grammar limit room symbol atom none).effect_eq run]

theorem Alternative.effect_under_append (symbol : Symbol) (alternatives : List Alternative)
    (inner outer : Chain) (run : Run σ) :
    (Expansion.under (Alternative.expandOne grammar limit room) symbol alternatives
        (inner ++ outer)).effect run =
      (Expansion.under (Alternative.expandOne grammar limit room) symbol alternatives inner).effect
        ⟨0, (outer.resolve run).2.source, [(outer.resolve run).1], []⟩ := by
  have opens := Alternative.local_expandOne (σ := σ) grammar limit room symbol alternatives
  have parts : (inner ++ outer).resolve run =
      inner.applyTo (outer.resolve run).1 (outer.resolve run).2 :=
    Chain.applyTo_append inner outer run.active run
  have same : (outer.resolve run).2.source = Run.source
      ⟨0, (outer.resolve run).2.source, [(outer.resolve run).1], []⟩ := rfl
  obtain ⟨active, source⟩ := inner.applyTo_source same (outer.resolve run).1
  rw [effect_under opens, effect_under opens, parts, active, source]
  rfl

/-- An atom under a chain has the effect that it has under the left part of the chain, if that
stands in a group under the right part one level of nesting further out. -/
theorem Atom.effect_expand_nested {symbol : Symbol} (name : Symbol)
    (alternatives : List Alternative) {atom : Chain → Atom}
    (expands : ∀ (room : Nat) (slot : Option Nat) (chain : Chain),
      (atom chain).expand grammar (Alternative.expandOne grammar limit room) symbol slot = (do
        return (← Expansion.under (Alternative.expandOne grammar limit room) name alternatives
          chain, slot) : Expansion σ (List Signal × Option Nat)))
    (inner outer : Chain) (slot : Option Nat) :
    ((atom (inner ++ outer)).expand grammar (Alternative.expandOne grammar limit room) symbol
        slot : Expansion σ _).effect =
      ((Atom.group (Alternative.onlyAtom (atom inner)) outer).expand grammar
        (Alternative.expandOne grammar limit (room + 1)) symbol slot).effect := by
  funext run
  change _ = effect (do return (← Expansion.under _ _ _ _, slot)) run
  rw [expands, effect_map, Alternative.effect_under_append, effect_map,
    effect_under (Alternative.local_expandOne grammar limit (room + 1) symbol _),
    Alternative.effect_expandOne_onlyAtom, expands, effect_map]
  cases (effect _ _).1 <;> rfl

theorem Atom.effect_reference_nested {name : Symbol} {alternatives : List Alternative}
    (defined : grammar.lookup name = some alternatives) (symbol : Symbol) (inner outer : Chain)
    (slot : Option Nat) :
    ((Atom.reference name (inner ++ outer)).expand grammar
        (Alternative.expandOne grammar limit room) symbol slot : Expansion σ _).effect =
      ((Atom.group (Alternative.onlyAtom (.reference name inner)) outer).expand grammar
        (Alternative.expandOne grammar limit (room + 1)) symbol slot).effect := by
  refine effect_expand_nested grammar limit room name alternatives ?_ inner outer slot
  intro room slot chain
  simp only [Atom.expand, defined]

theorem Atom.effect_group_nested (alternatives : List Alternative) (symbol : Symbol)
    (inner outer : Chain) (slot : Option Nat) :
    ((Atom.group alternatives (inner ++ outer)).expand grammar
        (Alternative.expandOne grammar limit room) symbol slot : Expansion σ _).effect =
      ((Atom.group (Alternative.onlyAtom (.group alternatives inner)) outer).expand grammar
        (Alternative.expandOne grammar limit (room + 1)) symbol slot).effect :=
  effect_expand_nested grammar limit room symbol alternatives (fun _ _ _ => rfl) inner outer slot

end Levels

/-- Atoms that are the same but for items under a chain, any number of which stand in the second
atom under the left part of their chain, in a group of their own under the right part. An item is a
group or a reference to a symbol that has a rule. -/
inductive Atom.Nested (grammar : Grammar) : Atom → Atom → Prop where
  | terminal {text : String} : Nested grammar (.terminal text) (.terminal text)
  | reference {symbol : Symbol} {chain : Chain} :
    Nested grammar (.reference symbol chain) (.reference symbol chain)
  | group {alternatives others : List Alternative} {chain : Chain}
    (inside : List.Forall₂ (Alternative.Matches (· = ·) (Nested grammar)) alternatives others) :
    Nested grammar (.group alternatives chain) (.group others chain)
  | positional {choices others : List Atom} (each : List.Forall₂ (Nested grammar) choices others) :
    Nested grammar (.positional choices) (.positional others)
  | epsilon : Nested grammar .epsilon .epsilon
  | nestReference {symbol : Symbol} {inner outer : Chain}
    (defined : (grammar.lookup symbol).isSome = true) :
    Nested grammar (.reference symbol (inner ++ outer))
      (.group (Alternative.onlyAtom (.reference symbol inner)) outer)
  | nestGroup {alternatives others : List Alternative} {inner outer : Chain}
    (inside : List.Forall₂ (Alternative.Matches (· = ·) (Nested grammar)) alternatives others) :
    Nested grammar (.group alternatives (inner ++ outer))
      (.group (Alternative.onlyAtom (.group others inner)) outer)

abbrev Alternative.Nested (grammar : Grammar) : List Alternative → List Alternative → Prop :=
  List.Forall₂ (Alternative.Matches (· = ·) (Atom.Nested grammar))

structure Grammar.Nested (grammar nested : Grammar) : Prop where
  start : grammar.start = nested.start
  rules : ∀ symbol,
    Option.Rel (Alternative.Nested grammar) (grammar.lookup symbol) (nested.lookup symbol)

theorem Alternative.nested_of_each {grammar : Grammar} {alternatives : List Alternative}
    (each : Alternative.EachAtom (fun atom => Atom.Nested grammar atom atom) alternatives) :
    Alternative.Nested grammar alternatives alternatives := by
  refine List.forall₂_same.mpr fun alternative member => ?_
  obtain ⟨label, parts⟩ := alternative
  refine .mk rfl (List.forall₂_same.mpr fun part within => ?_)
  obtain ⟨junction, atom⟩ := part
  exact .mk (each _ member _ within)

theorem Atom.nested_refl (grammar : Grammar) (atom : Atom) : Atom.Nested grammar atom atom := by
  induction atom using Atom.induction with
  | terminal text => exact .terminal
  | reference name chain => exact .reference
  | group alternatives chain ih => exact .group (Alternative.nested_of_each ih)
  | positional choices ih => exact .positional (List.forall₂_same.mpr ih)
  | epsilon => exact .epsilon

theorem Alternative.nested_refl (grammar : Grammar) (alternatives : List Alternative) :
    Alternative.Nested grammar alternatives alternatives :=
  nested_of_each fun _ _ _ _ => Atom.nested_refl grammar _

/-- Runs with the same active labels, of which the first one may fail for any reason. -/
def Coupling.successes : Coupling where
  active := Eq
  labels := Eq
  admits := by
    rintro active _ label _ rfl rfl
    rfl
  faults _ _ := False
  forgives _ := True

theorem Coupling.chains_successes (chain : Chain) : successes.Chains σ chain chain := by
  refine ⟨rfl, ?_⟩
  rintro active _ first second rfl source
  exact chain.applyTo_source source active

theorem Alternative.Matches.flip {atoms : Atom → Atom → Prop} {alternative other : Alternative}
    (same : Alternative.Matches Eq atoms alternative other) :
    Alternative.Matches Eq (fun atom another => atoms another atom) other alternative := by
  obtain ⟨labelled, inside⟩ := same
  refine .mk labelled.symm (inside.flip.imp fun part another matched => ?_)
  obtain ⟨related⟩ := matched
  exact .mk related

namespace Grammar.Nested

variable {grammar nested : Grammar}

theorem startAlternatives (same : grammar.Nested nested) :
    Alternative.Nested grammar grammar.startAlternatives nested.startAlternatives :=
  related_startAlternatives same.start same.rules

theorem lookup_cases (same : grammar.Nested nested) (symbol : Symbol) :
    (grammar.lookup symbol = none ∧ nested.lookup symbol = none) ∨
      ∃ alternatives others, grammar.lookup symbol = some alternatives ∧
        nested.lookup symbol = some others ∧ Alternative.Nested grammar alternatives others := by
  have rules := same.rules symbol
  cases defined : grammar.lookup symbol with
  | none =>
    cases definedToo : nested.lookup symbol with
    | none => exact .inl ⟨rfl, rfl⟩
    | some others =>
      rw [defined, definedToo] at rules
      cases rules
  | some alternatives =>
    cases definedToo : nested.lookup symbol with
    | none =>
      rw [defined, definedToo] at rules
      cases rules
    | some others =>
      rw [defined, definedToo] at rules
      cases rules with
      | some inside => exact .inr ⟨alternatives, others, rfl, rfl, inside⟩

variable {limit limitToo room more : Nat}

theorem lockstep_noRoom {symbol : Symbol} {alternatives : List Alternative} {chain : Chain}
    {slot : Option Nat} (other : Expansion σ (List Signal × Option Nat)) :
    Lockstep .successes (· = ·) ((Atom.group alternatives chain).expand grammar
      (Alternative.expandOne grammar limit 0) symbol slot) other := by
  intro first second _
  change Coupling.Outcomes _ _ (effect (do return (← Expansion.under _ _ _ _, slot)) first) _
  rw [effect_map, effect_under (Alternative.local_expandOne grammar limit 0 symbol _)]
  exact .forgiven trivial

theorem lockstep_expandAtom_of_nested (same : grammar.Nested nested)
    (opens : ∀ fewer ≤ room, ∀ symbol alternatives others,
      Alternative.Nested grammar alternatives others →
        Lockstep .successes (· = ·) (Alternative.expandOne nested limit fewer symbol others)
          (Alternative.expandOne grammar limitToo more symbol alternatives :
            Expansion σ (List Signal)))
    (symbol : Symbol) {atom other : Atom} (related : Atom.Nested grammar atom other)
    (slot : Option Nat) :
    Lockstep .successes (· = ·)
      (other.expand nested (Alternative.expandOne nested limit room) symbol slot)
      (atom.expand grammar (Alternative.expandOne grammar limitToo more) symbol slot :
        Expansion σ (List Signal × Option Nat)) := by
  have keeps := Alternative.keepsScopes_expandOne (σ := σ) nested limit
  have keepsToo := Alternative.keepsScopes_expandOne (σ := σ) grammar limitToo more
  induction atom using Atom.induction generalizing other slot with
  | terminal text =>
    cases related
    exact lockstep_pure rfl
  | reference name chain =>
    rcases same.lookup_cases name with
      ⟨missing, missingToo⟩ | ⟨alternatives, others, defined, definedToo, inside⟩
    · cases related with
      | reference =>
        exact Atom.lockstep_undefined missingToo missing (fun _ => .inr trivial) slot
      | nestReference defined =>
        rw [missing] at defined
        cases defined
    · cases related with
      | reference =>
        exact Atom.lockstep_reference (keeps room) keepsToo definedToo defined
          (Coupling.chains_successes chain) (opens room (Nat.le_refl _) name _ _ inside) slot
      | nestReference =>
        rcases room with _ | room
        · exact lockstep_noRoom _
        · refine Lockstep.congr ?_
            (Atom.effect_reference_nested nested limit room definedToo symbol _ _ slot) rfl
          exact Atom.lockstep_reference (keeps room) keepsToo definedToo defined
            (Coupling.chains_successes _) (opens room (Nat.le_succ _) name _ _ inside) slot
  | group alternatives chain _ =>
    cases related with
    | group inside =>
      exact Atom.lockstep_group (keeps room) keepsToo (Coupling.chains_successes chain)
        (opens room (Nat.le_refl _) symbol _ _ inside) slot
    | nestGroup inside =>
      rcases room with _ | room
      · exact lockstep_noRoom _
      · refine Lockstep.congr ?_ (Atom.effect_group_nested nested limit room _ symbol _ _ slot) rfl
        exact Atom.lockstep_group (keeps room) keepsToo (Coupling.chains_successes _)
          (opens room (Nat.le_succ _) symbol _ _ inside) slot
  | positional choices ih =>
    cases related with
    | positional each =>
      refine Atom.lockstep_positional (keeps room) keepsToo ?_ slot
      exact ((List.forall₂_and_left _ _).mpr ⟨ih, each⟩).flip.imp fun _ _ both => both.1 both.2 none
  | epsilon =>
    cases related
    exact lockstep_pure rfl

/-- What the nested grammar generates the original one generates with no more room. -/
theorem lockstep_expandOne_of_nested (same : grammar.Nested nested) (fits : room ≤ more)
    (symbol : Symbol) {alternatives others : List Alternative}
    (inside : Alternative.Nested grammar alternatives others) :
    Lockstep .successes (· = ·) (Alternative.expandOne nested limit room symbol others)
      (Alternative.expandOne grammar limitToo more symbol alternatives :
        Expansion σ (List Signal)) := by
  induction room using Nat.strongRecOn generalizing more symbol alternatives others with
  | _ room ih =>
    rcases room with _ | room
    · exact lockstep_of_forgiven trivial _
    obtain ⟨more, rfl⟩ : ∃ rest, more = rest + 1 := ⟨more - 1, by omega⟩
    refine Alternative.lockstep_expandOne ?_ ?_ (inside.flip.imp fun _ _ matched => matched.flip)
    · exact .epsilon
    intro other atom related slot
    refine same.lockstep_expandAtom_of_nested ?_ symbol related slot
    intro fewer lower symbol alternatives others inside
    exact ih fewer (by omega) (by omega) symbol inside

/-- Atoms of the original grammar generate what those of the nested one generate with more room, if
alternatives do, also with room for one level less. -/
theorem lockstep_expandAtom_to_nested (same : grammar.Nested nested)
    (opens : ∀ enough, enough ≤ more + 1 → more ≤ enough → ∀ symbol alternatives others,
      Alternative.Nested grammar alternatives others →
        Lockstep .successes (· = ·) (Alternative.expandOne grammar limit room symbol alternatives)
          (Alternative.expandOne nested limitToo enough symbol others :
            Expansion σ (List Signal)))
    (symbol : Symbol) {atom other : Atom} (related : Atom.Nested grammar atom other)
    (slot : Option Nat) :
    Lockstep .successes (· = ·)
      (atom.expand grammar (Alternative.expandOne grammar limit room) symbol slot)
      (other.expand nested (Alternative.expandOne nested limitToo (more + 1)) symbol slot :
        Expansion σ (List Signal × Option Nat)) := by
  have keeps := Alternative.keepsScopes_expandOne (σ := σ) grammar limit room
  have keepsToo := Alternative.keepsScopes_expandOne (σ := σ) nested limitToo
  induction atom using Atom.induction generalizing other slot with
  | terminal text =>
    cases related
    exact lockstep_pure rfl
  | reference name chain =>
    rcases same.lookup_cases name with
      ⟨missing, missingToo⟩ | ⟨alternatives, others, defined, definedToo, inside⟩
    · cases related with
      | reference =>
        exact Atom.lockstep_undefined missing missingToo (fun _ => .inr trivial) slot
      | nestReference defined =>
        rw [missing] at defined
        cases defined
    · cases related with
      | reference =>
        exact Atom.lockstep_reference keeps (keepsToo (more + 1)) defined definedToo
          (Coupling.chains_successes chain)
          (opens _ (Nat.le_refl _) (Nat.le_succ _) name _ _ inside) slot
      | nestReference =>
        refine Lockstep.congr ?_ rfl
          (Atom.effect_reference_nested nested limitToo more definedToo symbol _ _ slot)
        exact Atom.lockstep_reference keeps (keepsToo more) defined definedToo
          (Coupling.chains_successes _)
          (opens _ (Nat.le_succ _) (Nat.le_refl _) name _ _ inside) slot
  | group alternatives chain _ =>
    cases related with
    | group inside =>
      exact Atom.lockstep_group keeps (keepsToo (more + 1)) (Coupling.chains_successes chain)
        (opens _ (Nat.le_refl _) (Nat.le_succ _) symbol _ _ inside) slot
    | nestGroup inside =>
      refine Lockstep.congr ?_ rfl (Atom.effect_group_nested nested limitToo more _ symbol _ _ slot)
      exact Atom.lockstep_group keeps (keepsToo more) (Coupling.chains_successes _)
        (opens _ (Nat.le_succ _) (Nat.le_refl _) symbol _ _ inside) slot
  | positional choices ih =>
    cases related with
    | positional each =>
      refine Atom.lockstep_positional keeps (keepsToo (more + 1)) ?_ slot
      exact ((List.forall₂_and_left _ _).mpr ⟨ih, each⟩).imp fun _ _ both => both.1 both.2 none
  | epsilon =>
    cases related
    exact lockstep_pure rfl

/-- What the original grammar generates the nested one generates with twice the room. -/
theorem lockstep_expandOne_to_nested (same : grammar.Nested nested) (fits : 2 * room ≤ more)
    (symbol : Symbol) {alternatives others : List Alternative}
    (inside : Alternative.Nested grammar alternatives others) :
    Lockstep .successes (· = ·) (Alternative.expandOne grammar limit room symbol alternatives)
      (Alternative.expandOne nested limitToo more symbol others :
        Expansion σ (List Signal)) := by
  induction room generalizing more symbol alternatives others with
  | zero => exact lockstep_of_forgiven trivial _
  | succ room ih =>
    obtain ⟨more, rfl⟩ : ∃ rest, more = rest + 2 := ⟨more - 2, by omega⟩
    refine Alternative.lockstep_expandOne .epsilon ?_ inside
    intro atom other related slot
    refine same.lockstep_expandAtom_to_nested ?_ symbol related slot
    intro enough _ lower symbol alternatives others inside
    exact ih (by omega) symbol inside

end Grammar.Nested

/-- A chain is the nesting of its parts, the right part outermost. To evaluate it is to evaluate its
right part and then its left part in the scope that this opens. A grammar in which any number of
items stand under the left part of their chain, in groups under the right part, generates no text
that the original grammar does not generate from the same run with the same limit, and within twice
the limit it generates all of them; the random state is the same afterwards. -/
theorem Grammar.generate_nested :
    (∀ inner outer : Chain, (do
        let active ← modifyGet outer.resolve
        Run.within active (modifyGet inner.resolve)) =
      (modifyGet (inner ++ outer).resolve : Expansion σ ActiveLabels)) ∧
    ∀ {grammar nested : Grammar}, grammar.Nested nested →
      ∀ (limit : Nat) (trim : Bool) (run : Run σ) (text : String) (final : σ),
      ((nested.generate ⟨limit, trim⟩).effect run = (.ok text, final) →
        (grammar.generate ⟨limit, trim⟩).effect run = (.ok text, final)) ∧
      ((grammar.generate ⟨limit, trim⟩).effect run = (.ok text, final) →
        (nested.generate ⟨2 * limit, trim⟩).effect run = (.ok text, final)) := by
  refine ⟨Chain.resolve_append, fun {grammar nested} same limit trim run text final => ⟨?_, ?_⟩⟩
  · have lockstep : Lockstep .successes (· = ·) (nested.generate ⟨limit, trim⟩)
        (grammar.generate ⟨limit, trim⟩ : Expansion σ String) := by
      refine lockstep_generate rfl ?_
      rw [← same.start]
      exact same.lockstep_expandOne_of_nested (Nat.le_refl _) _ same.startAlternatives
    exact (lockstep run run ⟨rfl, rfl⟩).eq_ok
  · have lockstep : Lockstep .successes (· = ·) (grammar.generate ⟨limit, trim⟩)
        (nested.generate ⟨2 * limit, trim⟩ : Expansion σ String) := by
      refine lockstep_generate rfl ?_
      rw [← same.start]
      exact same.lockstep_expandOne_to_nested (Nat.le_refl _) _ same.startAlternatives
    exact (lockstep run run ⟨rfl, rfl⟩).eq_ok

/-- A reference under two selectors, to a rule with an alternative for each of two labels. -/
def Grammar.twoSelectors : Grammar :=
  ⟨(Rules.empty.insert ⟨"S"⟩
      [⟨none, [.spaced (.reference ⟨"A"⟩ [.anyOf [⟨"x"⟩, ⟨"y"⟩], .reset])]⟩]).insert ⟨"A"⟩
      [⟨some ⟨"x"⟩, [.spaced (.terminal "1")]⟩, ⟨some ⟨"y"⟩, [.spaced (.terminal "2")]⟩],
    ⟨"S"⟩, by decide⟩

def Grammar.twoScopes : Grammar :=
  ⟨twoSelectors.rules.insert ⟨"S"⟩ [⟨none, [.spaced (.group
      (Alternative.onlyAtom (.reference ⟨"A"⟩ [.anyOf [⟨"x"⟩, ⟨"y"⟩]])) [.reset])]⟩],
    ⟨"S"⟩, by decide⟩

theorem Grammar.nested_twoScopes : twoSelectors.Nested twoScopes := by
  refine ⟨rfl, fun symbol => ?_⟩
  have scopes : twoScopes.lookup symbol = if (⟨"S"⟩ : Symbol) = symbol then _ else
      twoSelectors.lookup symbol := Rules.lookup_insert _ _ _ _
  rw [scopes]
  split
  · rename_i start
    subst start
    have item : Atom.Nested twoSelectors
        (.reference ⟨"A"⟩ ([.anyOf [⟨"x"⟩, ⟨"y"⟩]] ++ [.reset])) _ := .nestReference (by decide)
    exact .some (.cons (.mk rfl (.cons (.mk item) .nil)) .nil)
  · cases twoSelectors.lookup symbol with
    | none => exact .none
    | some alternatives => exact .some (Alternative.nested_refl _ alternatives)

theorem Grammar.generate_nested_twoScopes :
    ∃ final, (twoSelectors.generate ⟨2, true⟩).effect Run.onZeros = (.ok "1", final) ∧
      (twoScopes.generate ⟨4, true⟩).effect Run.onZeros = (.ok "1", final) := by
  have text : ((twoSelectors.generate ⟨2, true⟩).effect Run.onZeros).1 = .ok "1" := by
    rw [generate_eq_expandAdmitted]
    rfl
  exact ⟨_, Prod.ext text rfl,
    (generate_nested.2 nested_twoScopes 2 true _ _ _).2 (Prod.ext text rfl)⟩

end SentenceGrammar
