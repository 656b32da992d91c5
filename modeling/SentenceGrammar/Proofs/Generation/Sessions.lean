import SentenceGrammar.Proofs.Generation.Scopes

/-! What an expansion does depends on the random state and on the labels that are active, and on
nothing else of the run; and it ends with the scopes that it began with. Both hold of every step and
pass on to whole generations, and to all that a caller may do with a run by nesting scopes around
them. -/

namespace SentenceGrammar

variable {σ α β : Type}

/-- Two runs that go on with the same random state under the same active labels. -/
structure Run.Alike (first second : Run σ) : Prop where
  source : first.source = second.source
  active : first.active = second.active

theorem Run.Alike.enter {first second : Run σ} (alike : first.Alike second)
    (active : ActiveLabels) : (first.enter active).Alike (second.enter active) :=
  ⟨alike.source, rfl⟩

namespace Expansion

/-- What an action returns or fails with, and the random state that it leaves. -/
def effect (action : Expansion σ α) (run : Run σ) : Except ExpansionFault α × σ :=
  match action run with
  | .ok result final => (.ok result, final.source)
  | .error fault final => (.error fault, final.source)

theorem exists_eq_ok_of_effect {action : Expansion σ α} {run : Run σ} {result : α}
    (success : (action.effect run).1 = .ok result) : ∃ final, action run = .ok result final := by
  unfold effect at success
  cases outcome : action run with
  | ok found final =>
    rw [outcome] at success
    cases success
    exact ⟨final, rfl⟩
  | error fault final =>
    rw [outcome] at success
    cases success

/-- An action that keeps the scopes and has the same effect on runs that are alike. -/
structure Local (action : Expansion σ α) : Prop where
  keeps : KeepsScopes action
  reads : ∀ {first second : Run σ}, first.Alike second → action.effect first = action.effect second

theorem Local.effect_eq {action : Expansion σ α} (isLocal : Local action) (run : Run σ) :
    action.effect run = action.effect ⟨0, run.source, [run.active], []⟩ :=
  isLocal.reads ⟨rfl, rfl⟩

theorem local_pure (result : α) : Local (pure result : Expansion σ α) :=
  ⟨keepsScopes_pure result, fun alike => congrArg (Prod.mk _) alike.source⟩

theorem local_throw (fault : ExpansionFault) : Local (throw fault : Expansion σ α) :=
  ⟨keepsScopes_throw fault, fun alike => congrArg (Prod.mk _) alike.source⟩

theorem local_note (event : Run σ → Event) :
    Local (modify fun run => run.note (event run) : Expansion σ Unit) :=
  ⟨keepsScopes_note event, fun alike => congrArg (Prod.mk _) alike.source⟩

theorem Local.bind {action : Expansion σ α} {next : α → Expansion σ β} (first : Local action)
    (second : ∀ result, Returns action result → Local (next result)) :
    Local (action >>= next) := by
  refine ⟨first.keeps.bind fun result returned => (second result returned).keeps, ?_⟩
  intro run other alike
  have same := first.reads alike
  unfold effect at same ⊢
  rw [bind_apply, bind_apply]
  cases here : action run with
  | ok result middle =>
    cases there : action other with
    | ok result' middle' =>
      simp only [here, there, Prod.mk.injEq, Except.ok.injEq] at same
      obtain ⟨rfl, source⟩ := same
      have active : middle.active = middle'.active :=
        (first.keeps.active_eq here).trans (alike.active.trans (first.keeps.active_eq there).symm)
      exact (second result ⟨run, middle, here⟩).reads ⟨source, active⟩
    | error fault middle' => simp [here, there] at same
  | error fault middle =>
    cases there : action other with
    | ok result' middle' => simp [here, there] at same
    | error fault' middle' => simpa only [here, there, Prod.mk.injEq, Except.error.injEq] using same

theorem local_get_active {next : ActiveLabels → Expansion σ β}
    (continues : ∀ active, Local (next active)) : Local (get >>= fun run => next run.active) := by
  refine ⟨keepsScopes_get.bind fun run _ => (continues run.active).keeps, ?_⟩
  intro first second alike
  change (next first.active).effect first = (next second.active).effect second
  rw [alike.active]
  exact (continues second.active).reads alike

theorem local_modifyGet {operation : Run σ → α × Run σ}
    (keeps : KeepsScopes (modifyGet operation : Expansion σ α))
    (reads : ∀ {first second : Run σ}, first.Alike second →
      (operation first).1 = (operation second).1 ∧
        (operation first).2.source = (operation second).2.source) :
    Local (modifyGet operation : Expansion σ α) := by
  refine ⟨keeps, fun {first second} alike => ?_⟩
  obtain ⟨result, source⟩ := reads alike
  change (Except.ok (operation first).1, (operation first).2.source) =
    (Except.ok (operation second).1, (operation second).2.source)
  rw [result, source]

theorem effect_within (active : ActiveLabels) (action : Expansion σ α) (run : Run σ) :
    effect (Run.within active action) run = action.effect (run.enter active) := by
  simp only [effect, Run.within]
  cases action (run.enter active) <;> rfl

theorem Local.within {action : Expansion σ α} (inside : Local action) (active : ActiveLabels) :
    Local (Run.within active action) := by
  refine ⟨inside.keeps.within active, fun alike => ?_⟩
  rw [effect_within, effect_within]
  exact inside.reads (alike.enter active)

/-- The outcome of an action as a value, with which its caller may go on. -/
def attempt (action : Expansion σ α) : Expansion σ (Except ExpansionFault α) := fun run =>
  match action run with
  | .ok result final => .ok (.ok result) final
  | .error fault final => .ok (.error fault) final

theorem finalRun_attempt (action : Expansion σ α) (run : Run σ) :
    finalRun (action.attempt run) = finalRun (action run) := by
  simp only [attempt]
  cases action run <;> rfl

theorem effect_attempt (action : Expansion σ α) (run : Run σ) :
    action.attempt.effect run = (.ok (action.effect run).1, (action.effect run).2) := by
  simp only [effect, attempt]
  cases action run <;> rfl

theorem Local.attempt {action : Expansion σ α} (isLocal : Local action) : Local action.attempt := by
  refine ⟨fun run => ?_, fun alike => ?_⟩
  · rw [finalRun_attempt]
    exact isLocal.keeps run
  · rw [effect_attempt, effect_attempt, isLocal.reads alike]

end Expansion

open Expansion

variable [RandomSource σ]

theorem Run.index_alike {first second : Run σ} (alike : first.Alike second) (last : Nat) :
    (first.index last).1 = (second.index last).1 ∧
      (first.index last).2.source = (second.index last).2.source := by
  simp [Run.index, alike.source]

theorem Run.pick_alike {first second : Run σ} (alike : first.Alike second)
    (eligible : List Alternative) :
    (Run.pick eligible first).1 = (Run.pick eligible second).1 ∧
      (Run.pick eligible first).2.source = (Run.pick eligible second).2.source := by
  cases eligible with
  | nil => exact ⟨rfl, alike.source⟩
  | cons option others =>
    obtain ⟨chosen, source⟩ := Run.index_alike alike others.length
    exact ⟨congrArg some chosen, source⟩

theorem Selector.apply_source {first second : Run σ} (source : first.source = second.source)
    (selector : Selector) (active : ActiveLabels) :
    (selector.apply active first).1 = (selector.apply active second).1 ∧
      (selector.apply active first).2.source = (selector.apply active second).2.source := by
  rcases selector with ⟨_ | ⟨label, others⟩⟩ | _
  · exact ⟨rfl, source⟩
  · simp [Selector.apply, Run.index, source]
  · exact ⟨rfl, source⟩

theorem Chain.applyTo_source {first second : Run σ} (source : first.source = second.source)
    (chain : Chain) (active : ActiveLabels) :
    (chain.applyTo active first).1 = (chain.applyTo active second).1 ∧
      (chain.applyTo active first).2.source = (chain.applyTo active second).2.source := by
  induction chain with
  | nil => exact ⟨rfl, source⟩
  | cons selector later ih =>
    simp only [Chain.applyTo]
    rw [ih.1]
    exact selector.apply_source ih.2 _

theorem Expansion.local_resolve (chain : Chain) :
    Local (modifyGet chain.resolve : Expansion σ ActiveLabels) := by
  refine local_modifyGet (keepsScopes_resolve chain) fun {first second} alike => ?_
  unfold Chain.resolve
  rw [alike.active]
  exact chain.applyTo_source alike.source _

theorem Expansion.compatible_local (grammar : Grammar) :
    Compatible grammar (fun _ => True) fun _ (action : Expansion σ _) _ => Local action where
  pure := local_pure
  bind first second := first.bind second
  started := local_note _
  index _ last := local_modifyGet (keepsScopes_modifyGet (Run.index_keeps _)) fun alike =>
    Run.index_alike alike last
  choose symbol alternatives := by
    refine local_get_active fun active => (local_note _).bind fun _ _ => ?_
    refine Local.bind (local_modifyGet (keepsScopes_modifyGet (Run.pick_keeps _)) ?_) fun _ _ =>
      local_pure _
    exact fun alike => Run.pick_alike alike _
  undefined _ _ := local_get_active fun _ => local_throw _
  under _ _ opens := by
    unfold Expansion.under
    split
    · exact opens
    · refine (local_resolve _).bind fun active _ => ?_
      exact (local_note _).bind fun _ _ => opens.within active

theorem Grammar.local_generate (grammar : Grammar) (settings : Settings) :
    Local (grammar.generate settings : Expansion σ String) :=
  (compatible_local grammar).generate (Atom.hereditary_true grammar) (fun _ _ => local_throw _)
    (Nat.le_refl _) rfl fun _ _ _ _ => trivial

/-- What a caller may do with a run: draw numbers, evaluate chains, generate, and do any of this in
a scope of its own. What follows depends on what came out, and it may hand on a fault. -/
inductive Session : Type → Type 1 where
  | done {α : Type} (result : α) : Session α
  | fail {α : Type} (fault : ExpansionFault) : Session α
  | number {α : Type} (low high : Nat) (next : Nat → Session α) : Session α
  | resolve {α : Type} (chain : Chain) (next : ActiveLabels → Session α) : Session α
  | generate {α : Type} (grammar : Grammar) (settings : Settings)
    (next : Except ExpansionFault String → Session α) : Session α
  | within {α β : Type} (active : ActiveLabels) (body : Session β)
    (next : Except ExpansionFault β → Session α) : Session α

namespace Session

def perform {α : Type} : Session α → Expansion σ α
  | done result => pure result
  | fail fault => throw fault
  | number low high next => do
    let value ← modifyGet (Run.number low high)
    (next value).perform
  | resolve chain next => do
    let active ← modifyGet chain.resolve
    (next active).perform
  | generate grammar settings next => do
    let outcome ← (grammar.generate settings).attempt
    (next outcome).perform
  | within active body next => do
    let outcome ← Expansion.attempt (Run.within active body.perform)
    (next outcome).perform

theorem local_perform {α : Type} (session : Session α) :
    Local (session.perform : Expansion σ α) := by
  induction session with
  | done result => exact local_pure result
  | fail fault => exact local_throw fault
  | number low high next ih =>
    refine (local_modifyGet (keepsScopes_modifyGet fun _ => ⟨rfl, rfl⟩) ?_).bind fun value _ =>
      ih value
    intro first second alike
    simp [Run.number, alike.source]
  | resolve chain next ih => exact (local_resolve chain).bind fun active _ => ih active
  | generate grammar settings next ih =>
    exact (grammar.local_generate settings).attempt.bind fun outcome _ => ih outcome
  | within active body next bodyIh nextIh =>
    exact (bodyIh.within active).attempt.bind fun outcome _ => nextIh outcome

end Session

/-- A generation leaves the seed and all open scopes as they were, whatever comes of it. What comes
of it, and the random state after it, are determined by the grammar, the settings, the random state
before it and the labels of the innermost scope; outer scopes have no part in it. Whatever else a
caller does in nested scopes leaves them as they were, too. -/
theorem Grammar.generate_reads_innermost_scope :
    (∀ (grammar : Grammar) (settings : Settings) (run : Run σ),
      (finalRun (grammar.generate settings run)).seed = run.seed ∧
        (finalRun (grammar.generate settings run)).scopes = run.scopes) ∧
    (∃ outcome : Grammar → Settings → σ → ActiveLabels → Except ExpansionFault String × σ,
      ∀ grammar settings (run : Run σ),
        effect (grammar.generate settings) run = outcome grammar settings run.source run.active) ∧
    ∀ (α : Type) (session : Session α) (run : Run σ),
      (finalRun (session.perform run)).seed = run.seed ∧
        (finalRun (session.perform run)).scopes = run.scopes := by
  refine ⟨fun grammar settings => (grammar.local_generate settings).keeps, ?_, fun _ session =>
    session.local_perform.keeps⟩
  refine ⟨fun grammar settings source active =>
    effect (grammar.generate settings) ⟨0, source, [active], []⟩, ?_⟩
  exact fun grammar settings run => (grammar.local_generate settings).effect_eq run

end SentenceGrammar
