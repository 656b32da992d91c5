import Mathlib.Data.List.Forall2
import SentenceGrammar.Proofs.Generation.Sessions

/-! Two expansions side by side, of different grammars or in different runs. They are in lockstep if
they draw the same numbers and have corresponding outcomes. What corresponds is a parameter; for
each step of an expansion there is a lemma that says what has to correspond for the step to be in
lockstep. -/

namespace SentenceGrammar

variable {σ α β γ δ : Type}

inductive Part.Matches (atoms : Atom → Atom → Prop) : Part → Part → Prop where
  | mk {junction : Junction} {atom other : Atom} (related : atoms atom other) :
    Matches atoms ⟨junction, atom⟩ ⟨junction, other⟩

inductive Alternative.Matches (labels : Option Label → Option Label → Prop)
    (atoms : Atom → Atom → Prop) : Alternative → Alternative → Prop where
  | mk {label other : Option Label} {parts others : List Part} (labelled : labels label other)
    (inside : List.Forall₂ (Part.Matches atoms) parts others) :
    Matches labels atoms ⟨label, parts⟩ ⟨other, others⟩

/-- What corresponds in two runs side by side: labels that are active, and the labels of
alternatives, so that they are admitted alike; and faults. After some faults of the first run
nothing is asked of the second one. -/
structure Coupling where
  active : ActiveLabels → ActiveLabels → Prop
  labels : Option Label → Option Label → Prop
  admits : ∀ {first second : ActiveLabels} {label other : Option Label}, active first second →
    labels label other → first.admits label = second.admits other
  faults : ExpansionFault → ExpansionFault → Prop
  forgives : ExpansionFault → Prop

namespace Coupling

/-- Corresponding outcomes, after which the random state is the same. -/
inductive Outcomes (coupling : Coupling) (results : α → β → Prop) :
    Except ExpansionFault α × σ → Except ExpansionFault β × σ → Prop where
  | ok {result : α} {other : β} {source another : σ} (related : results result other)
    (same : source = another) : Outcomes coupling results (.ok result, source) (.ok other, another)
  | error {fault other : ExpansionFault} {source another : σ}
    (related : coupling.faults fault other) (same : source = another) :
    Outcomes coupling results (.error fault, source) (.error other, another)
  | forgiven {fault : ExpansionFault} {source : σ} {outcome : Except ExpansionFault β × σ}
    (forgiven : coupling.forgives fault) :
    Outcomes coupling results (.error fault, source) outcome

theorem Outcomes.eq_ok {coupling : Coupling} {outcome other : Except ExpansionFault α × σ}
    (outcomes : coupling.Outcomes (· = ·) outcome other) {result : α} {source : σ}
    (success : outcome = (.ok result, source)) : other = (.ok result, source) := by
  cases outcomes with
  | ok related same => rw [← related, ← same, success]
  | error related same => cases success
  | forgiven forgiven => cases success

theorem Outcomes.of_error {coupling : Coupling} {results : α → β → Prop}
    {outcome : Except ExpansionFault α × σ} {other : Except ExpansionFault β × σ}
    (outcomes : coupling.Outcomes results outcome other) {fault : ExpansionFault} {source : σ}
    (failure : outcome = (.error fault, source)) :
    coupling.forgives fault ∨
      ∃ another, coupling.faults fault another ∧ other = (.error another, source) := by
  cases outcomes with
  | ok related same => cases failure
  | error related same =>
    cases failure
    exact .inr ⟨_, related, same ▸ rfl⟩
  | forgiven forgiven =>
    cases failure
    exact .inl forgiven

/-- Two runs that go on with the same random state under corresponding labels. -/
structure Runs (coupling : Coupling) (first second : Run σ) : Prop where
  source : first.source = second.source
  active : coupling.active first.active second.active

/-- Chains that leave corresponding labels active and draw the same numbers for that. -/
structure Chains (coupling : Coupling) (σ : Type) [RandomSource σ] (chain other : Chain) :
    Prop where
  empty : chain.isEmpty = other.isEmpty
  labels : ∀ {active others : ActiveLabels} {first second : Run σ}, coupling.active active others →
    first.source = second.source →
    coupling.active (chain.applyTo active first).1 (other.applyTo others second).1 ∧
      (chain.applyTo active first).2.source = (other.applyTo others second).2.source

end Coupling

namespace Expansion

variable {coupling : Coupling} {results : α → β → Prop}

/-- Actions with corresponding outcomes on corresponding runs. -/
def Lockstep (coupling : Coupling) (results : α → β → Prop) (action : Expansion σ α)
    (other : Expansion σ β) : Prop :=
  ∀ first second : Run σ, coupling.Runs first second →
    coupling.Outcomes results (action.effect first) (other.effect second)

theorem lockstep_pure {result : α} {other : β} (related : results result other) :
    Lockstep coupling results (pure result : Expansion σ α) (pure other) :=
  fun _ _ runs => .ok related runs.source

theorem lockstep_throw {fault other : ExpansionFault} (related : coupling.faults fault other) :
    Lockstep coupling results (throw fault : Expansion σ α) (throw other) :=
  fun _ _ runs => .error related runs.source

theorem lockstep_of_forgiven {fault : ExpansionFault} (forgiven : coupling.forgives fault)
    (other : Expansion σ β) : Lockstep coupling results (throw fault : Expansion σ α) other :=
  fun _ _ _ => .forgiven forgiven

theorem lockstep_note (event another : Run σ → Event) :
    Lockstep coupling (fun _ _ => True) (modify fun run => run.note (event run) : Expansion σ Unit)
      (modify fun run => run.note (another run)) :=
  fun _ _ runs => .ok trivial runs.source

theorem Lockstep.bind {between : γ → δ → Prop} {action : Expansion σ γ} {other : Expansion σ δ}
    {next : γ → Expansion σ α} {following : δ → Expansion σ β}
    (first : Lockstep coupling between action other) (keeps : KeepsScopes action)
    (keepsToo : KeepsScopes other)
    (second : ∀ result another, between result another →
      Lockstep coupling results (next result) (following another)) :
    Lockstep coupling results (action >>= next) (other >>= following) := by
  intro run another runs
  have outcomes := first _ _ runs
  unfold effect at outcomes ⊢
  rw [bind_apply, bind_apply]
  cases here : action run with
  | error fault middle =>
    cases there : other another with
    | ok result last =>
      rw [here, there] at outcomes
      cases outcomes with
      | forgiven forgiven => exact .forgiven forgiven
    | error otherFault last =>
      rw [here, there] at outcomes
      cases outcomes with
      | error related same => exact .error related same
      | forgiven forgiven => exact .forgiven forgiven
  | ok result middle =>
    cases there : other another with
    | error fault last =>
      rw [here, there] at outcomes
      cases outcomes
    | ok result' last =>
      rw [here, there] at outcomes
      cases outcomes with
      | ok related same =>
        refine second result result' related _ _ ⟨same, ?_⟩
        rw [keeps.active_eq here, keepsToo.active_eq there]
        exact runs.active

theorem Lockstep.map {action : Expansion σ γ} {other : Expansion σ γ}
    (first : Lockstep coupling (· = ·) action other) (keeps : KeepsScopes action)
    (keepsToo : KeepsScopes other) (change : γ → α) :
    Lockstep coupling (· = ·) (do return change (← action)) (do return change (← other)) := by
  refine first.bind keeps keepsToo fun result another same => ?_
  exact lockstep_pure (congrArg change same)

theorem Lockstep.within {active others : ActiveLabels} {action : Expansion σ α}
    {other : Expansion σ β} (inside : Lockstep coupling results action other)
    (corresponds : coupling.active active others) :
    Lockstep coupling results (Run.within active action) (Run.within others other) := by
  intro first second runs
  rw [effect_within, effect_within]
  exact inside _ _ ⟨runs.source, corresponds⟩

theorem Lockstep.congr {action replaced : Expansion σ α} {other replacing : Expansion σ β}
    (first : Lockstep coupling results action other) (left : action.effect = replaced.effect)
    (right : other.effect = replacing.effect) : Lockstep coupling results replaced replacing := by
  intro run another runs
  rw [← left, ← right]
  exact first _ _ runs

variable [RandomSource σ]

theorem lockstep_index {last other : Nat} (same : last = other) :
    Lockstep coupling (fun chosen another => chosen.val = another.val)
      (modifyGet (Run.index last) : Expansion σ (Fin (last + 1)))
      (modifyGet (Run.index other)) := by
  intro first second runs
  subst same
  change coupling.Outcomes _ (.ok (first.index last).1, (first.index last).2.source)
    (.ok (second.index last).1, (second.index last).2.source)
  simp only [Run.index, runs.source]
  exact .ok rfl rfl

theorem lockstep_resolve {chain other : Chain} (chains : coupling.Chains σ chain other) :
    Lockstep coupling coupling.active (modifyGet chain.resolve : Expansion σ ActiveLabels)
      (modifyGet other.resolve) := by
  intro first second runs
  obtain ⟨active, source⟩ := chains.labels runs.active runs.source
  exact .ok active source

theorem lockstep_under {openAlternatives openOthers : Symbol → List Alternative →
      Expansion σ (List Signal)} {symbol another : Symbol} {alternatives others : List Alternative}
    {chain other : Chain} (chains : coupling.Chains σ chain other)
    (opens : Lockstep coupling (· = ·) (openAlternatives symbol alternatives)
      (openOthers another others)) :
    Lockstep coupling (· = ·) (Expansion.under openAlternatives symbol alternatives chain)
      (Expansion.under openOthers another others other) := by
  unfold Expansion.under
  rw [chains.empty]
  split
  · exact opens
  · refine (lockstep_resolve chains).bind (keepsScopes_resolve _) (keepsScopes_resolve _) ?_
    intro active others corresponds
    refine (lockstep_note _ _).bind (keepsScopes_note _) (keepsScopes_note _) fun _ _ _ => ?_
    exact opens.within corresponds

end Expansion

open Expansion

variable [RandomSource σ] {coupling : Coupling} {atoms : Atom → Atom → Prop}

def Alternative.draw : List Alternative → σ → Alternative × σ
  | [], source => (.nothing, source)
  | first :: others, source =>
    let (chosen, source) := RandomSource.index others.length source
    ((first :: others).get chosen, source)

theorem Alternative.effect_choose (symbol : Symbol) (alternatives : List Alternative)
    (run : Run σ) :
    (Alternative.choose symbol alternatives).effect run =
      (.ok (Alternative.draw (Alternative.eligible run.active alternatives) run.source).1,
        (Alternative.draw (Alternative.eligible run.active alternatives) run.source).2) := by
  change (Alternative.chooseEligible symbol alternatives run.active).effect run = _
  unfold Alternative.chooseEligible
  generalize Alternative.eligible run.active alternatives = eligible
  cases eligible <;> rfl

theorem Alternative.draw_related {related : Alternative → Alternative → Prop}
    (nothing : related .nothing .nothing) {alternatives others : List Alternative}
    (each : List.Forall₂ related alternatives others) (source : σ) :
    related (draw alternatives source).1 (draw others source).1 ∧
      (draw alternatives source).2 = (draw others source).2 := by
  cases each with
  | nil => exact ⟨nothing, rfl⟩
  | @cons first other rest later head tail =>
    obtain ⟨lengths, positions⟩ := List.forall₂_iff_get.mp (List.Forall₂.cons head tail)
    have same : later.length = rest.length := tail.length_eq.symm
    simp only [draw, RandomSource.index, same]
    exact ⟨positions _ _ _, trivial⟩

theorem Alternative.eligible_matches {active other : ActiveLabels}
    (corresponds : coupling.active active other) {alternatives others : List Alternative}
    (each : List.Forall₂ (Alternative.Matches coupling.labels atoms) alternatives others) :
    List.Forall₂ (Alternative.Matches coupling.labels atoms)
      (Alternative.eligible active alternatives) (Alternative.eligible other others) := by
  rw [eligible_eq_filter, eligible_eq_filter]
  induction each with
  | nil => exact .nil
  | @cons first second rest later head tail ih =>
    have same : active.admitsAlternative first = other.admitsAlternative second := by
      cases head with
      | mk labelled _ => exact coupling.admits corresponds labelled
    rw [List.filter_cons, List.filter_cons, same]
    split
    · exact .cons head ih
    · exact ih

def Alternative.PartsMatch (atoms : Atom → Atom → Prop) (alternative other : Alternative) : Prop :=
  List.Forall₂ (Part.Matches atoms) alternative.parts other.parts

theorem Alternative.Matches.parts {labels : Option Label → Option Label → Prop}
    {alternative other : Alternative} (same : Alternative.Matches labels atoms alternative other) :
    Alternative.PartsMatch atoms alternative other := by
  cases same with
  | mk _ inside => exact inside

theorem Alternative.lockstep_choose (epsilon : atoms .epsilon .epsilon) (symbol another : Symbol)
    {alternatives others : List Alternative}
    (each : List.Forall₂ (Alternative.Matches coupling.labels atoms) alternatives others) :
    Lockstep coupling (Alternative.PartsMatch atoms)
      (Alternative.choose symbol alternatives : Expansion σ Alternative)
      (Alternative.choose another others) := by
  intro first second runs
  have eligible := (Alternative.eligible_matches runs.active each).imp
    fun _ _ => Alternative.Matches.parts
  have nothing : Alternative.PartsMatch atoms .nothing .nothing := .cons (.mk epsilon) .nil
  obtain ⟨related, source⟩ := Alternative.draw_related nothing eligible first.source
  rw [Alternative.effect_choose, Alternative.effect_choose, ← runs.source]
  exact .ok related source

section Levels

variable {grammar second : Grammar}
  {openAlternatives openOthers : Symbol → List Alternative → Expansion σ (List Signal)}
  {symbol another : Symbol}

theorem Part.lockstep_expandList
    (keeps : ∀ symbol alternatives, KeepsScopes (openAlternatives symbol alternatives))
    (keepsToo : ∀ symbol alternatives, KeepsScopes (openOthers symbol alternatives))
    (expands : ∀ {atom other : Atom}, atoms atom other → ∀ slot,
      Lockstep coupling (· = ·) (atom.expand grammar openAlternatives symbol slot)
        (other.expand second openOthers another slot))
    {parts others : List Part} (each : List.Forall₂ (Part.Matches atoms) parts others)
    (slot : Option Nat) :
    Lockstep coupling (· = ·) (Part.expandList grammar openAlternatives symbol slot parts)
      (Part.expandList second openOthers another slot others) := by
  induction each generalizing slot with
  | nil => exact lockstep_pure rfl
  | @cons part other rest later head tail ih =>
    cases head with
    | @mk junction atom same related =>
      refine (expands related slot).bind (Atom.keepsScopes_expand keeps _ _ _)
        (Atom.keepsScopes_expand keepsToo _ _ _) ?_
      rintro outcome _ rfl
      exact (ih outcome.2).map (Part.keepsScopes_expandList keeps _ _ _)
        (Part.keepsScopes_expandList keepsToo _ _ _) _

/-- Matching alternatives are in lockstep if related atoms are at the next level of nesting. -/
theorem Alternative.lockstep_expandOne (epsilon : atoms .epsilon .epsilon)
    {limit higher room more : Nat} (expands : ∀ {atom other : Atom}, atoms atom other → ∀ slot,
      Lockstep coupling (· = ·)
        (atom.expand grammar (Alternative.expandOne grammar limit room) symbol slot)
        (other.expand second (Alternative.expandOne second higher more) another slot :
          Expansion σ (List Signal × Option Nat)))
    {alternatives others : List Alternative}
    (each : List.Forall₂ (Alternative.Matches coupling.labels atoms) alternatives others) :
    Lockstep coupling (· = ·)
      (Alternative.expandOne grammar limit (room + 1) symbol alternatives)
      (Alternative.expandOne second higher (more + 1) another others :
        Expansion σ (List Signal)) := by
  rw [Alternative.expandOne_succ, Alternative.expandOne_succ]
  refine (Alternative.lockstep_choose epsilon symbol another each).bind
    (Alternative.keepsScopes_choose _ _) (Alternative.keepsScopes_choose _ _) fun _ _ parts => ?_
  exact Part.lockstep_expandList (Alternative.keepsScopes_expandOne grammar limit room)
    (Alternative.keepsScopes_expandOne second higher more) expands parts none

theorem Atom.lockstep_group
    (keeps : ∀ symbol alternatives, KeepsScopes (openAlternatives symbol alternatives))
    (keepsToo : ∀ symbol alternatives, KeepsScopes (openOthers symbol alternatives))
    {alternatives others : List Alternative} {chain other : Chain}
    (chains : coupling.Chains σ chain other)
    (opens : Lockstep coupling (· = ·) (openAlternatives symbol alternatives)
      (openOthers another others)) (slot : Option Nat) :
    Lockstep coupling (· = ·)
      (Atom.expand grammar openAlternatives symbol slot (.group alternatives chain))
      (Atom.expand second openOthers another slot (.group others other)) :=
  (lockstep_under chains opens).map (keepsScopes_under (keeps _ _) _)
    (keepsScopes_under (keepsToo _ _) _) _

theorem Atom.lockstep_reference
    (keeps : ∀ symbol alternatives, KeepsScopes (openAlternatives symbol alternatives))
    (keepsToo : ∀ symbol alternatives, KeepsScopes (openOthers symbol alternatives))
    {name otherName : Symbol} {alternatives others : List Alternative} {chain other : Chain}
    (defined : grammar.lookup name = some alternatives)
    (definedToo : second.lookup otherName = some others) (chains : coupling.Chains σ chain other)
    (opens : Lockstep coupling (· = ·) (openAlternatives name alternatives)
      (openOthers otherName others)) (slot : Option Nat) :
    Lockstep coupling (· = ·)
      (Atom.expand grammar openAlternatives symbol slot (.reference name chain))
      (Atom.expand second openOthers another slot (.reference otherName other)) := by
  simp only [Atom.expand, defined, definedToo]
  exact (lockstep_under chains opens).map (keepsScopes_under (keeps _ _) _)
    (keepsScopes_under (keepsToo _ _) _) _

theorem Atom.lockstep_undefined {name otherName : Symbol} {chain other : Chain}
    (undefined : grammar.lookup name = none) (undefinedToo : second.lookup otherName = none)
    (faults : ∀ {active others : ActiveLabels}, coupling.active active others →
      coupling.faults (.undefinedSymbol name active) (.undefinedSymbol otherName others) ∨
        coupling.forgives (.undefinedSymbol name active)) (slot : Option Nat) :
    Lockstep coupling (· = ·)
      (Atom.expand grammar openAlternatives symbol slot (.reference name chain))
      (Atom.expand second openOthers another slot (.reference otherName other)) := by
  simp only [Atom.expand, undefined, undefinedToo]
  intro first second runs
  change coupling.Outcomes _ (.error (.undefinedSymbol name first.active), first.source)
    (.error (.undefinedSymbol otherName second.active), second.source)
  rcases faults runs.active with related | forgiven
  · exact .error related runs.source
  · exact .forgiven forgiven

theorem Atom.lockstep_positional
    (keeps : ∀ symbol alternatives, KeepsScopes (openAlternatives symbol alternatives))
    (keepsToo : ∀ symbol alternatives, KeepsScopes (openOthers symbol alternatives))
    {choices others : List Atom} (each : List.Forall₂ (fun choice other =>
      Lockstep coupling (· = ·) (Atom.expand grammar openAlternatives symbol none choice)
        (Atom.expand second openOthers another none other)) choices others) (slot : Option Nat) :
    Lockstep coupling (· = ·)
      (Atom.expand grammar openAlternatives symbol slot (.positional choices))
      (Atom.expand second openOthers another slot (.positional others)) := by
  obtain ⟨lengths, positions⟩ := List.forall₂_iff_get.mp each
  rcases choices with _ | ⟨first, rest⟩
  · obtain rfl := List.length_eq_zero_iff.mp lengths.symm
    exact lockstep_pure rfl
  rcases others with _ | ⟨other, later⟩
  · cases lengths
  have same : rest.length = later.length := Nat.succ.inj lengths
  have continues : ∀ position, Lockstep coupling (fun outcome another => outcome = another) (do
        let signals ← Atom.expandNth grammar openAlternatives symbol
          (position % (rest.length + 1)) (first :: rest)
        return (signals, some position))
      (do
        let signals ← Atom.expandNth second openOthers another
          (position % (later.length + 1)) (other :: later)
        return (signals, some position)) := by
    intro position
    have inside : position % (later.length + 1) < (first :: rest).length :=
      lengths ▸ Nat.mod_lt _ (Nat.succ_pos _)
    have insideToo : position % (later.length + 1) < (other :: later).length :=
      Nat.mod_lt _ (Nat.succ_pos _)
    rw [same, Atom.expandNth_of_lt symbol inside, Atom.expandNth_of_lt another insideToo]
    have chosen := (positions _ inside insideToo).map (Atom.keepsScopes_expand keeps _ _ _)
      (Atom.keepsScopes_expand keepsToo _ _ _) Prod.fst
    refine chosen.map ?_ ?_ _
    · exact (Atom.keepsScopes_expand keeps _ _ _).bind fun _ _ => keepsScopes_pure _
    · exact (Atom.keepsScopes_expand keepsToo _ _ _).bind fun _ _ => keepsScopes_pure _
  cases slot with
  | some position => exact continues position
  | none =>
    refine (lockstep_index same).bind (keepsScopes_modifyGet (Run.index_keeps _))
      (keepsScopes_modifyGet (Run.index_keeps _)) fun chosen drawn position => ?_
    rw [position]
    exact continues drawn.val

end Levels

/-- Generations that trim alike are in lockstep if the start symbols are expanded in lockstep. -/
theorem Grammar.lockstep_generate {grammar second : Grammar} {settings others : Settings}
    (trims : settings.trimOutput = others.trimOutput)
    (opens : Lockstep coupling (· = ·)
      (Alternative.expandOne grammar settings.maxDepth settings.maxDepth grammar.start
        grammar.startAlternatives)
      (Alternative.expandOne second others.maxDepth others.maxDepth second.start
        second.startAlternatives : Expansion σ (List Signal))) :
    Lockstep coupling (· = ·) (grammar.generate settings : Expansion σ String)
      (second.generate others) := by
  unfold Grammar.generate
  rw [trims]
  refine (lockstep_note _ _).bind (keepsScopes_note _) (keepsScopes_note _) fun _ _ _ => ?_
  exact opens.map (Alternative.keepsScopes_expandOne _ _ _ _ _)
    (Alternative.keepsScopes_expandOne _ _ _ _ _) _

end SentenceGrammar
