import SentenceGrammar.Proofs.Generation.Steps

/-! Generation leaves the seed and the open scopes of a run as it found them, whether it succeeds or
fails. What keeps them is closed under the operations from which expansions are made. -/

namespace SentenceGrammar

variable {σ α β : Type}

namespace Expansion

/-- An action after which the seed and the scopes are what they were before. -/
def KeepsScopes (action : Expansion σ α) : Prop :=
  ∀ run, (finalRun (action run)).seed = run.seed ∧ (finalRun (action run)).scopes = run.scopes

theorem KeepsScopes.scopes_eq {action : Expansion σ α} (keeps : KeepsScopes action)
    {run final : Run σ} {result : α} (success : action run = .ok result final) :
    final.scopes = run.scopes := by
  have kept := (keeps run).2
  rwa [success] at kept

theorem KeepsScopes.active_eq {action : Expansion σ α} (keeps : KeepsScopes action)
    {run final : Run σ} {result : α} (success : action run = .ok result final) :
    final.active = run.active := by
  rw [Run.active, Run.active, keeps.scopes_eq success]

theorem keepsScopes_pure (result : α) : KeepsScopes (pure result : Expansion σ α) :=
  fun _ => ⟨rfl, rfl⟩

theorem keepsScopes_throw (fault : ExpansionFault) :
    KeepsScopes (throw fault : Expansion σ α) :=
  fun _ => ⟨rfl, rfl⟩

theorem keepsScopes_get : KeepsScopes (get : Expansion σ (Run σ)) :=
  fun _ => ⟨rfl, rfl⟩

theorem keepsScopes_note (event : Run σ → Event) :
    KeepsScopes (modify fun run => run.note (event run) : Expansion σ Unit) :=
  fun _ => ⟨rfl, rfl⟩

theorem keepsScopes_modifyGet {operation : Run σ → α × Run σ}
    (keeps : ∀ run, (operation run).2.seed = run.seed ∧ (operation run).2.scopes = run.scopes) :
    KeepsScopes (modifyGet operation : Expansion σ α) :=
  keeps

theorem KeepsScopes.bind {action : Expansion σ α} {next : α → Expansion σ β}
    (first : KeepsScopes action)
    (second : ∀ result, Returns action result → KeepsScopes (next result)) :
    KeepsScopes (action >>= next) := by
  intro run
  have before := first run
  rw [bind_apply]
  cases outcome : action run with
  | ok result middle =>
    rw [outcome] at before
    have after := second result ⟨run, middle, outcome⟩ middle
    exact ⟨after.1.trans before.1, after.2.trans before.2⟩
  | error fault middle =>
    rw [outcome] at before
    exact before

theorem KeepsScopes.within {action : Expansion σ α} (keeps : KeepsScopes action)
    (active : ActiveLabels) : KeepsScopes (Run.within active action) := by
  intro run
  have inner := keeps (run.enter active)
  unfold Run.within
  cases outcome : action (run.enter active) with
  | ok result final =>
    rw [outcome] at inner
    exact ⟨inner.1, congrArg List.tail inner.2⟩
  | error fault final =>
    rw [outcome] at inner
    exact ⟨inner.1, congrArg List.tail inner.2⟩

end Expansion

variable [RandomSource σ]

theorem Run.index_keeps (last : Nat) (run : Run σ) :
    (run.index last).2.seed = run.seed ∧ (run.index last).2.scopes = run.scopes :=
  ⟨rfl, rfl⟩

theorem Run.pick_keeps (eligible : List Alternative) (run : Run σ) :
    (Run.pick eligible run).2.seed = run.seed ∧
      (Run.pick eligible run).2.scopes = run.scopes := by
  cases eligible with
  | nil => exact ⟨rfl, rfl⟩
  | cons first others => exact ⟨rfl, rfl⟩

theorem Selector.apply_run (selector : Selector) (active : ActiveLabels) (run : Run σ) :
    (selector.apply active run).2 =
      { run with source := (selector.apply active run).2.source } := by
  rcases selector with ⟨_ | ⟨first, others⟩⟩ | _
  · rfl
  · rfl
  · rfl

theorem Chain.applyTo_run (chain : Chain) (active : ActiveLabels) (run : Run σ) :
    (chain.applyTo active run).2 = { run with source := (chain.applyTo active run).2.source } := by
  induction chain with
  | nil => rfl
  | cons selector later ih =>
    have last := selector.apply_run (Chain.applyTo later active run).1
      (Chain.applyTo later active run).2
    simp only [Chain.applyTo]
    rw [last, ih]

open Expansion

variable {grammar : Grammar}
  {openAlternatives : Symbol → List Alternative → Expansion σ (List Signal)}

theorem Expansion.keepsScopes_resolve (chain : Chain) :
    KeepsScopes (modifyGet chain.resolve : Expansion σ ActiveLabels) := by
  refine keepsScopes_modifyGet fun run => ?_
  rw [Chain.resolve, Chain.applyTo_run]
  exact ⟨rfl, rfl⟩

theorem Expansion.keepsScopes_under {symbol : Symbol} {alternatives : List Alternative}
    (opens : KeepsScopes (openAlternatives symbol alternatives)) (chain : Chain) :
    KeepsScopes (Expansion.under openAlternatives symbol alternatives chain) := by
  unfold Expansion.under
  split
  · exact opens
  · refine (keepsScopes_resolve chain).bind fun active _ => ?_
    exact (keepsScopes_note _).bind fun _ _ => opens.within active

theorem Alternative.keepsScopes_choose (symbol : Symbol) (alternatives : List Alternative) :
    KeepsScopes (Alternative.choose symbol alternatives : Expansion σ Alternative) := by
  refine keepsScopes_get.bind fun run _ => (keepsScopes_note _).bind fun _ _ => ?_
  exact (keepsScopes_modifyGet (Run.pick_keeps _)).bind fun _ _ => keepsScopes_pure _

theorem Expansion.compatible_keepsScopes (grammar : Grammar) :
    Compatible grammar (fun _ => True) fun _ (action : Expansion σ _) _ => KeepsScopes action where
  pure := keepsScopes_pure
  bind first second := first.bind second
  started := keepsScopes_note _
  index _ _ := keepsScopes_modifyGet (Run.index_keeps _)
  choose := Alternative.keepsScopes_choose
  undefined _ _ := keepsScopes_get.bind fun _ _ => keepsScopes_throw _
  under _ _ opens := keepsScopes_under opens _

theorem Atom.hereditary_true (grammar : Grammar) : Atom.Hereditary grammar fun _ => True :=
  ⟨trivial, fun _ _ _ => trivial, fun _ _ _ _ _ _ => trivial⟩

theorem Atom.keepsScopes_expand
    (opens : ∀ symbol alternatives, KeepsScopes (openAlternatives symbol alternatives))
    (symbol : Symbol) (atom : Atom) (slot : Option Nat) :
    KeepsScopes (Atom.expand grammar openAlternatives symbol slot atom) :=
  (compatible_keepsScopes grammar).expandAtom openAlternatives openAlternatives
    (Atom.hereditary_true grammar) (grammar.agreesOn_self _)
    (fun inner options _ => opens inner options) symbol trivial slot

theorem Part.keepsScopes_expandList
    (opens : ∀ symbol alternatives, KeepsScopes (openAlternatives symbol alternatives))
    (symbol : Symbol) (parts : List Part) (slot : Option Nat) :
    KeepsScopes (Part.expandList grammar openAlternatives symbol slot parts) :=
  (compatible_keepsScopes grammar).expandParts openAlternatives openAlternatives
    (Atom.hereditary_true grammar) (grammar.agreesOn_self _)
    (fun inner options _ => opens inner options) symbol (fun _ _ => trivial) slot

theorem Alternative.keepsScopes_expandOne (grammar : Grammar) (limit room : Nat) (symbol : Symbol)
    (alternatives : List Alternative) :
    KeepsScopes (Alternative.expandOne grammar limit room symbol alternatives :
      Expansion σ (List Signal)) :=
  (compatible_keepsScopes grammar).expandOne (Atom.hereditary_true grammar)
    (grammar.agreesOn_self _) limit limit
    (fun _ _ => keepsScopes_throw _) (Nat.le_refl room) symbol fun _ _ _ _ => trivial

end SentenceGrammar
