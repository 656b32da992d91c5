import SentenceGrammar.Proofs.Generation.Soundness
import SentenceGrammar.Proofs.Random.Reachability

/-! Whatever can be derived is emitted on some sequence of random words. The words that an expansion
needs are found from its end: for any words that are to follow there are words to begin with. -/

namespace SentenceGrammar

open Expansion

variable {α β : Type}

/-- An action that, while the given labels are active, has a certain result on some words, with any
words left over. The words do not depend on the rest of the run. -/
def Expansion.Yields (active : ActiveLabels) (action : Expansion (Nat → UInt64) α) (result : α) :
    Prop :=
  ∀ rest, ∃ words, ∀ run : Run (Nat → UInt64), run.active = active →
    ∃ events, action { run with source := words } = .ok result { run with source := rest, events }

namespace Expansion

variable {active : ActiveLabels}

theorem yields_pure (result : α) : Yields active (pure result) result :=
  fun rest => ⟨rest, fun run _ => ⟨run.events, rfl⟩⟩

theorem yields_note (event : Run (Nat → UInt64) → Event) :
    Yields active (modify fun run => run.note (event run)) () :=
  fun rest => ⟨rest, fun _ _ => ⟨_, rfl⟩⟩

theorem Yields.bind {action : Expansion (Nat → UInt64) α} {next : α → Expansion (Nat → UInt64) β}
    {between : α} {result : β} (first : Yields active action between)
    (second : Yields active (next between) result) : Yields active (action >>= next) result := by
  intro rest
  obtain ⟨middle, continues⟩ := second rest
  obtain ⟨words, begins⟩ := first middle
  refine ⟨words, fun run same => ?_⟩
  obtain ⟨early, beginning⟩ := begins run same
  obtain ⟨late, continuation⟩ := continues { run with events := early } same
  exact ⟨late, bind_eq_ok.mpr ⟨between, _, beginning, continuation⟩⟩

theorem Yields.get_active {next : ActiveLabels → Expansion (Nat → UInt64) β} {result : β}
    (known : Yields active (next active) result) :
    Yields active (get >>= fun run => next run.active) result := by
  intro rest
  obtain ⟨words, succeeds⟩ := known rest
  refine ⟨words, fun run same => ?_⟩
  obtain ⟨events, success⟩ := succeeds run same
  subst same
  exact ⟨events, bind_eq_ok.mpr ⟨_, _, rfl, success⟩⟩

theorem Yields.within {inner : ActiveLabels} {action : Expansion (Nat → UInt64) α} {result : α}
    (inside : Yields inner action result) : Yields active (Run.within inner action) result := by
  intro rest
  obtain ⟨words, succeeds⟩ := inside rest
  refine ⟨words, fun run _ => ?_⟩
  obtain ⟨events, success⟩ := succeeds (run.enter inner) rfl
  refine ⟨events, ?_⟩
  have entered : action (({ run with source := words } : Run _).enter inner) = _ := success
  simp only [Run.within, entered]
  rfl

theorem yields_modifyGet {operation : Run (Nat → UInt64) → α × Run (Nat → UInt64)} {result : α}
    (returns : ∀ rest, ∃ words, ∀ run : Run (Nat → UInt64), run.active = active → ∃ events,
      operation { run with source := words } = (result, { run with source := rest, events })) :
    Yields active (modifyGet operation) result := by
  intro rest
  obtain ⟨words, returned⟩ := returns rest
  refine ⟨words, fun run same => ?_⟩
  obtain ⟨events, outcome⟩ := returned run same
  have success : (modifyGet operation : Expansion _ α) { run with source := words } =
    .ok (operation { run with source := words }).1 (operation { run with source := words }).2 := rfl
  exact ⟨events, by rw [success, outcome]⟩

theorem yields_index {last : Nat} (chosen : Fin (last + 1)) :
    Yields active (modifyGet (Run.index last)) chosen := by
  refine yields_modifyGet fun rest => ?_
  obtain ⟨words, drawn⟩ := RandomSource.exists_index last chosen rest
  exact ⟨words, fun run _ => ⟨run.events, by simp only [Run.index, drawn]⟩⟩

theorem yields_pick {eligible : List Alternative} (chosen : Fin eligible.length) :
    Yields active (modifyGet (Run.pick eligible)) (some chosen) := by
  cases eligible with
  | nil => exact chosen.elim0
  | cons first others =>
    refine yields_modifyGet fun rest => ?_
    obtain ⟨words, drawn⟩ := RandomSource.exists_index others.length chosen rest
    refine ⟨words, fun run _ =>
      ⟨(Run.pick (first :: others) { run with source := words }).2.events, ?_⟩⟩
    simp only [Run.pick, Run.index, drawn]
    rfl

theorem yields_pick_nil : Yields active (modifyGet (Run.pick [])) none :=
  fun rest => ⟨rest, fun _ _ => ⟨_, rfl⟩⟩

end Expansion

theorem Chain.MayLeave.exists_applyTo {chain : Chain} {active inner : ActiveLabels}
    (leaves : Chain.MayLeave chain active inner) (rest : Nat → UInt64) :
    ∃ words, ∀ run : Run (Nat → UInt64),
      chain.applyTo active { run with source := words } = (inner, { run with source := rest }) := by
  induction leaves generalizing rest with
  | nil active => exact ⟨rest, fun _ => rfl⟩
  | reset after ih =>
    obtain ⟨words, applied⟩ := ih rest
    exact ⟨words, fun run => by simp only [Chain.applyTo, applied, Selector.apply]⟩
  | noLabel after ih =>
    obtain ⟨words, applied⟩ := ih rest
    exact ⟨words, fun run => by simp only [Chain.applyTo, applied, Selector.apply]⟩
  | @label later active between labels label after member ih =>
    cases labels with
    | nil => exact absurd member List.not_mem_nil
    | cons first others =>
      obtain ⟨position, inside, rfl⟩ := List.mem_iff_getElem.mp member
      obtain ⟨middle, drawn⟩ :=
        RandomSource.exists_index others.length ⟨position, inside⟩ rest
      obtain ⟨words, applied⟩ := ih middle
      refine ⟨words, fun run => ?_⟩
      simp only [Chain.applyTo, applied, Selector.apply, Run.index, drawn]
      rfl

theorem Expansion.yields_resolve {chain : Chain} {active inner : ActiveLabels}
    (leaves : Chain.MayLeave chain active inner) :
    Yields active (modifyGet chain.resolve) inner := by
  refine yields_modifyGet fun rest => ?_
  obtain ⟨words, applied⟩ := leaves.exists_applyTo rest
  refine ⟨words, fun run same => ⟨run.events, ?_⟩⟩
  subst same
  exact applied run

variable {openAlternatives : Symbol → List Alternative → Expansion (Nat → UInt64) (List Signal)}

theorem Expansion.yields_under {symbol : Symbol} {alternatives : List Alternative} {chain : Chain}
    {active inner : ActiveLabels} {signals : List Signal}
    (leaves : Chain.MayLeave chain active inner)
    (inside : Yields inner (openAlternatives symbol alternatives) signals) :
    Yields active (Expansion.under openAlternatives symbol alternatives chain) signals := by
  unfold Expansion.under
  split
  · rename_i empty
    obtain rfl := List.isEmpty_iff.mp empty
    cases leaves
    exact inside
  · exact (yields_resolve leaves).bind ((yields_note _).bind inside.within)

def Alternative.expandEligible (grammar : Grammar) (limit room : Nat) (symbol : Symbol)
    (alternatives : List Alternative) (active : ActiveLabels) :
    Expansion (Nat → UInt64) (List Signal) := do
  let eligible := Alternative.eligible active alternatives
  modify fun run => run.note (.eligible symbol eligible.length alternatives.length)
  let picked ← modifyGet (Run.pick eligible)
  let chosen := picked.elim Alternative.nothing eligible.get
  Part.expandList grammar (Alternative.expandOne grammar limit room) symbol none chosen.parts

theorem Expansion.yields_expandOne {grammar : Grammar} {limit depth : Nat} (room : depth < limit)
    {symbol : Symbol} {alternatives : List Alternative} {active : ActiveLabels}
    {signals : List Signal}
    (inside : Yields active (Alternative.expandEligible grammar limit (limit - (depth + 1)) symbol
      alternatives active) signals) :
    Yields active (Alternative.expandOne grammar limit (limit - depth) symbol alternatives)
      signals := by
  rw [show limit - depth = limit - (depth + 1) + 1 by omega]
  exact Yields.get_active inside

/-- What is to be shown of a derivation: the corresponding step of an expansion yields its signals.
A slot that is not yet filled may be filled with any position that fits. -/
def Derivand.Yields (grammar : Grammar) (limit depth : Nat) (active : ActiveLabels) :
    Derivand → List Signal → Prop
  | .oneOf alternatives, signals => ∀ symbol,
    Expansion.Yields active
      (Alternative.expandOne grammar limit (limit - depth) symbol alternatives) signals
  | .sequence slot parts, signals => ∀ symbol filled,
    filled = some slot ∨ filled = none ∧ Atom.SlotFits slot (parts.map Part.atom) →
      Expansion.Yields active
        (Part.expandList grammar (Alternative.expandOne grammar limit (limit - depth)) symbol
          filled parts) signals
  | .atom slot single, signals => ∀ symbol filled,
    filled = some slot ∨ filled = none ∧ Atom.SlotFits slot [single] →
      Expansion.Yields active
        (Atom.expand grammar (Alternative.expandOne grammar limit (limit - depth)) symbol
          filled single)
        (signals, if (Atom.firstWidth [single]).isSome then some slot else filled)

theorem Derives.yields {grammar : Grammar} {limit depth : Nat} {active : ActiveLabels}
    {derivand : Derivand} {signals : List Signal}
    (derivation : Derives grammar limit depth active derivand signals) :
    derivand.Yields grammar limit depth active signals := by
  induction derivation with
  | @picked depth active alternatives alternative slot signals room member admitted fits sequence
      ih =>
    intro symbol
    refine yields_expandOne room ((yields_note _).bind ?_)
    have present := Alternative.mem_eligible.mpr ⟨member, admitted⟩
    obtain ⟨position, inside, rfl⟩ := List.mem_iff_getElem.mp present
    exact (yields_pick ⟨position, inside⟩).bind (ih symbol none (.inr ⟨rfl, fits⟩))
  | @noneAdmitted depth active alternatives room excluded =>
    intro symbol
    refine yields_expandOne room ((yields_note _).bind ?_)
    have exhausted : Alternative.eligible active alternatives = [] := by
      rw [Alternative.eligible_eq_filter, List.filter_eq_nil_iff]
      intro alternative member
      exact Bool.not_eq_true _ |>.mpr (excluded alternative member)
    rw [exhausted]
    exact yields_pick_nil.bind ((yields_pure _).bind ((yields_pure _).bind (yields_pure _)))
  | nil => exact fun _ _ _ => yields_pure _
  | @cons depth active slot part rest signals later first others firstIh othersIh =>
    intro symbol filled ready
    have begins : filled = some slot ∨ filled = none ∧ Atom.SlotFits slot [part.atom] := by
      refine ready.imp_right fun ⟨empty, fits⟩ => ⟨empty, fun width single => ?_⟩
      exact (Atom.slotFits_cons_of_some single).mp fits
    refine (firstIh symbol filled begins).bind ?_
    refine (othersIh symbol _ ?_).bind (yields_pure _)
    cases single : Atom.firstWidth [part.atom] with
    | none => exact ready.imp_right fun ⟨empty, fits⟩ =>
        ⟨empty, (Atom.slotFits_cons_of_none single).mp fits⟩
    | some width => exact .inl rfl
  | terminal => exact fun _ _ _ => yields_pure _
  | reference defined selected expansion ih =>
    intro symbol filled ready
    simp only [Atom.expand, defined]
    exact (yields_under selected (ih _)).bind (yields_pure _)
  | group selected expansion ih =>
    intro symbol filled ready
    exact (yields_under selected (ih _)).bind (yields_pure _)
  | noChoice => exact fun _ _ _ => yields_pure _
  | @choice depth active slot inner choices choice signals taken fits expansion ih =>
    intro symbol filled ready
    cases choices with
    | nil => cases taken
    | cons first others =>
      have inside : slot % (others.length + 1) < (first :: others).length :=
        Nat.mod_lt _ (Nat.succ_pos _)
      have here : (first :: others)[slot % (others.length + 1)] = choice := by
        rw [← Option.some.injEq, ← List.getElem?_eq_getElem inside]
        exact taken
      have chooses : Expansion.Yields active (do
          let signals ← Atom.expandNth grammar
            (Alternative.expandOne grammar limit (limit - depth)) symbol
            (slot % (others.length + 1)) (first :: others)
          return (signals, some slot)) (signals, some slot) := by
        rw [Atom.expandNth_of_lt symbol inside, here]
        have expands : Expansion.Yields active (Prod.fst <$> choice.expand grammar
            (Alternative.expandOne grammar limit (limit - depth)) symbol none) signals :=
          (ih symbol none (.inr ⟨rfl, fits⟩)).bind (yields_pure _)
        exact expands.bind (yields_pure _)
      rcases ready with rfl | ⟨rfl, slotFits⟩
      · exact chooses
      · have below : slot < others.length + 1 := slotFits _ rfl
        exact (yields_index ⟨slot, below⟩).bind chooses
  | epsilon => exact fun _ _ _ => yields_pure _

/-- A text is generated on some words while some labels are active exactly if it joins signals that
can be derived from the start symbol under those labels. -/
theorem Grammar.generated_iff_derivable (grammar : Grammar) (settings : Settings) (seed : UInt64)
    (scopes : List ActiveLabels) (events : List Event) (text : String) :
    (∃ (words : Nat → UInt64) (final : Run (Nat → UInt64)),
      grammar.generate settings ⟨seed, words, scopes, events⟩ = .ok text final) ↔
    ∃ signals, Derives grammar settings.maxDepth 0 (scopes.head?.getD .none)
        (.oneOf grammar.startAlternatives) signals ∧
      text = settings.finish (Signal.join signals) := by
  constructor
  · intro generated
    rcases generated with ⟨words, final, success⟩
    obtain ⟨_, started, noted, success⟩ := bind_eq_ok.mp success
    cases noted
    obtain ⟨signals, last, expanded, finished⟩ := bind_eq_ok.mp success
    cases finished
    have derivation := Alternative.derives_of_expandOne grammar settings.maxDepth
      settings.maxDepth (Nat.le_refl _) _ _ _ _ _ expanded
    rw [Nat.sub_self] at derivation
    exact ⟨signals, derivation, rfl⟩
  · intro derivable
    rcases derivable with ⟨signals, derivation, rfl⟩
    have generates : Expansion.Yields (scopes.head?.getD .none) (grammar.generate settings)
        (settings.finish (Signal.join signals)) :=
      (yields_note _).bind ((derivation.yields grammar.start).bind (yields_pure _))
    obtain ⟨words, succeeds⟩ := generates fun _ => 0
    obtain ⟨later, success⟩ := succeeds ⟨seed, words, scopes, events⟩ rfl
    exact ⟨words, _, success⟩

theorem Grammar.exists_generate_iff (grammar : Grammar) (trim : Bool) (seed : UInt64)
    (scopes : List ActiveLabels) (events : List Event) (text : String) :
    (∃ (limit : Nat) (words : Nat → UInt64) (final : Run (Nat → UInt64)),
      grammar.generate ⟨limit, trim⟩ ⟨seed, words, scopes, events⟩ = .ok text final) ↔
    ∃ limit signals, Derives grammar limit 0 (scopes.head?.getD .none)
        (.oneOf grammar.startAlternatives) signals ∧
      text = Settings.finish ⟨limit, trim⟩ (Signal.join signals) := by
  constructor
  · rintro ⟨limit, words, final, success⟩
    obtain ⟨_, _, noted, success⟩ := bind_eq_ok.mp success
    cases noted
    obtain ⟨signals, _, expanded, finished⟩ := bind_eq_ok.mp success
    cases finished
    have derivation := Alternative.derives_of_expandOne grammar limit limit (Nat.le_refl _)
      _ _ _ _ _ expanded
    rw [Nat.sub_self] at derivation
    exact ⟨limit, signals, derivation, rfl⟩
  · rintro ⟨limit, signals, derivation, rfl⟩
    have generates : Expansion.Yields (scopes.head?.getD .none) (grammar.generate ⟨limit, trim⟩)
        (Settings.finish ⟨limit, trim⟩ (Signal.join signals)) :=
      (yields_note _).bind ((derivation.yields grammar.start).bind
        (yields_pure _))
    obtain ⟨words, succeeds⟩ := generates fun _ => 0
    obtain ⟨_, success⟩ := succeeds ⟨seed, words, scopes, events⟩ rfl
    exact ⟨limit, words, _, success⟩

end SentenceGrammar
