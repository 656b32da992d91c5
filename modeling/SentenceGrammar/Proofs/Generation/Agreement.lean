import SentenceGrammar.Proofs.Generation.Evaluation
import SentenceGrammar.Proofs.Generation.Faults
import SentenceGrammar.Proofs.Generation.Soundness

/-! Agreement of labels. Once labels are active, everything that is expanded in their scope goes by
them: as long as no chain on the way starts over or activates a label of the same category, no
alternative is picked under another label of that category. -/

namespace SentenceGrammar

variable {σ α β : Type}

/-- A chain that neither starts over nor activates a label of a category. -/
def Chain.Spares (category : Label → Prop) (chain : Chain) : Prop :=
  .reset ∉ chain ∧ ∀ labels, .anyOf labels ∈ chain → ∀ label ∈ labels, ¬category label

theorem Chain.Spares.later {category : Label → Prop} {selector : Selector} {later : Chain}
    (spares : Chain.Spares category (selector :: later)) : later.Spares category :=
  ⟨fun resets => spares.1 (List.mem_cons_of_mem _ resets),
    fun labels listed => spares.2 labels (List.mem_cons_of_mem _ listed)⟩

/-- The chains that an expansion of an atom may come to: the atom's own, and those in the
alternatives that it opens, through any number of groups, positional choices and rules. -/
inductive Atom.Reaches (grammar : Grammar) (chain : Chain) : Atom → Prop where
  | own {atom : Atom} {alternatives : List Alternative}
    (opening : atom.opening grammar = some (alternatives, chain)) : Reaches grammar chain atom
  | choice {choices : List Atom} {choice : Atom} (member : choice ∈ choices)
    (inner : Reaches grammar chain choice) : Reaches grammar chain (.positional choices)
  | inside {atom : Atom} {alternatives : List Alternative} {outer : Chain}
    {alternative : Alternative} {part : Part}
    (opening : atom.opening grammar = some (alternatives, outer))
    (member : alternative ∈ alternatives) (placed : part ∈ alternative.parts)
    (inner : Reaches grammar chain part.atom) : Reaches grammar chain atom

def Atom.Spares (grammar : Grammar) (category : Label → Prop) (atom : Atom) : Prop :=
  ∀ chain, atom.Reaches grammar chain → chain.Spares category

theorem Atom.hereditary_spares (grammar : Grammar) (category : Label → Prop) :
    Atom.Hereditary grammar (Atom.Spares grammar category) where
  epsilon chain reaches := by
    cases reaches with
    | own opening => cases opening
    | inside opening => cases opening
  choice spares choice member chain reaches := spares chain (.choice member reaches)
  opening spares opening alternative member part placed chain reaches :=
    spares chain (.inside opening member placed reaches)

/-- Some labels are active, and all of a category that are were already active in a scope. -/
structure ActiveLabels.Agrees (scope : ActiveLabels) (category : Label → Prop)
    (active : ActiveLabels) : Prop where
  someActive : active.isNone = false
  inScope : ∀ label ∈ active.labels, category label → label ∈ scope.labels

section Scope

variable {scope active : ActiveLabels} {category : Label → Prop}

theorem ActiveLabels.isNone_insert (active : ActiveLabels) (label : Label) :
    (active.insert label).isNone = false := by
  have present : label ∈ (active.insert label).labels := mem_insert.mpr (.inr rfl)
  cases labels : (active.insert label).labels with
  | nil => simp [labels] at present
  | cons first others => simp [isNone, labels]

theorem Chain.MayLeave.agrees {chain : Chain} {inner : ActiveLabels}
    (leaves : Chain.MayLeave chain active inner) (spares : chain.Spares category)
    (agrees : scope.Agrees category active) : scope.Agrees category inner := by
  induction leaves with
  | nil active => exact agrees
  | reset after ih => exact absurd List.mem_cons_self spares.1
  | noLabel after ih => exact ih spares.later agrees
  | @label later active between labels label after member ih =>
    have inner := ih spares.later agrees
    refine ⟨ActiveLabels.isNone_insert _ _, fun other active named => ?_⟩
    rcases ActiveLabels.mem_insert.mp active with earlier | rfl
    · exact inner.inScope other earlier named
    · exact absurd named (spares.2 labels List.mem_cons_self _ member)

theorem ActiveLabels.Agrees.mem_of_admits (agrees : scope.Agrees category active) {label : Label}
    (admitted : active.admits (some label) = true) (named : category label) :
    label ∈ scope.labels := by
  simp only [admits, agrees.someActive, Bool.false_or, contains, decide_eq_true_eq] at admitted
  exact agrees.inScope label admitted named

end Scope

def Event.pickedLabel : Event → Option Label
  | .picked label _ _ _ => label
  | _ => none

/-- An event that tells of no picked alternative with a label of a category outside a scope. -/
def Event.Fits (scope : ActiveLabels) (category : Label → Prop) (event : Event) : Prop :=
  ∀ label, event.pickedLabel = some label → category label → label ∈ scope.labels

namespace Expansion

def Logs (property : Event → Prop) (action : Expansion σ α) (run : Run σ) : Prop :=
  ∃ added, (finalRun (action run)).events = added ++ run.events ∧ ∀ event ∈ added, property event

variable {property : Event → Prop} {run : Run σ}

theorem logs_of_events_eq {action : Expansion σ α}
    (silent : (finalRun (action run)).events = run.events) : Logs property action run :=
  ⟨[], silent, fun _ member => absurd member List.not_mem_nil⟩

theorem Logs.imp {weaker : Event → Prop} {action : Expansion σ α}
    (logged : Logs property action run) (implies : ∀ event, property event → weaker event) :
    Logs weaker action run := by
  obtain ⟨added, appended, holds⟩ := logged
  exact ⟨added, appended, fun event member => implies event (holds event member)⟩

theorem logs_note {event : Run σ → Event} (holds : property (event run)) :
    Logs property (modify fun run => run.note (event run)) run :=
  ⟨[event run], rfl, fun _ member => List.mem_singleton.mp member ▸ holds⟩

theorem Logs.bind {action : Expansion σ α} {next : α → Expansion σ β}
    (first : Logs property action run)
    (second : ∀ result middle, action run = .ok result middle →
      Logs property (next result) middle) : Logs property (action >>= next) run := by
  obtain ⟨added, appended, holds⟩ := first
  unfold Logs
  rw [bind_apply]
  cases outcome : action run with
  | ok result middle =>
    rw [outcome] at appended
    obtain ⟨later, appendedLater, holdsLater⟩ := second result middle outcome
    refine ⟨later ++ added, ?_, List.forall_mem_append.mpr ⟨holdsLater, holds⟩⟩
    rw [appendedLater, List.append_assoc]
    exact congrArg _ appended
  | error fault middle =>
    rw [outcome] at appended
    exact ⟨added, appended, holds⟩

theorem Logs.within {action : Expansion σ α} {active : ActiveLabels}
    (inside : Logs property action (run.enter active)) :
    Logs property (Run.within active action) run := by
  obtain ⟨added, appended, holds⟩ := inside
  refine ⟨added, ?_, holds⟩
  unfold Run.within
  cases outcome : action (run.enter active) <;> (rw [outcome] at appended; exact appended)

/-- An action that keeps the scopes and, under labels that agree with a scope, picks nothing with
another label of a category. -/
structure PicksWithin (scope : ActiveLabels) (category : Label → Prop) (action : Expansion σ α) :
    Prop where
  keeps : KeepsScopes action
  picks : ∀ run, scope.Agrees category run.active → Logs (Event.Fits scope category) action run

variable {scope : ActiveLabels} {category : Label → Prop}

theorem picksWithin_of_events_eq {action : Expansion σ α} (keeps : KeepsScopes action)
    (silent : ∀ run, (finalRun (action run)).events = run.events) :
    PicksWithin scope category action :=
  ⟨keeps, fun run _ => logs_of_events_eq (silent run)⟩

theorem PicksWithin.bind {action : Expansion σ α} {next : α → Expansion σ β}
    (first : PicksWithin scope category action)
    (second : ∀ result, Returns action result → PicksWithin scope category (next result)) :
    PicksWithin scope category (action >>= next) := by
  refine ⟨first.keeps.bind fun result returned => (second result returned).keeps, ?_⟩
  intro run agrees
  refine (first.picks run agrees).bind fun result middle outcome => ?_
  apply (second result ⟨run, middle, outcome⟩).picks
  rwa [first.keeps.active_eq outcome]

variable [RandomSource σ]

theorem logs_resolve (property : Event → Prop) (chain : Chain) (run : Run σ) :
    Logs property (modifyGet chain.resolve) run := by
  apply logs_of_events_eq
  change (chain.resolve run).2.events = run.events
  rw [Chain.resolve, Chain.applyTo_run]

theorem logs_under {openAlternatives : Symbol → List Alternative → Expansion σ (List Signal)}
    {symbol : Symbol} {alternatives : List Alternative} {chain : Chain} {run : Run σ}
    (opens : ∀ inner : Run σ, inner.active = (chain.resolve run).1 →
      Logs (Event.Fits scope category) (openAlternatives symbol alternatives) inner) :
    Logs (Event.Fits scope category)
      (Expansion.under openAlternatives symbol alternatives chain) run := by
  unfold Expansion.under
  split
  · rename_i empty
    obtain rfl := List.isEmpty_iff.mp empty
    exact opens run rfl
  · refine (logs_resolve _ chain run).bind fun active middle resolved => ?_
    cases resolved
    refine (logs_note fun _ named => nomatch named).bind fun _ noted _ => ?_
    exact Logs.within (opens _ rfl)

theorem logs_pick (eligible : List Alternative) (run : Run σ) :
    Logs (fun event => ∀ label, event.pickedLabel = some label →
        ∃ alternative ∈ eligible, alternative.label = some label)
      (modifyGet (Run.pick eligible)) run := by
  cases eligible with
  | nil => exact ⟨[.nothingEligible run.active], rfl, by simp [Event.pickedLabel]⟩
  | cons first others =>
    refine ⟨[_], rfl, List.forall_mem_singleton.mpr fun label named => ?_⟩
    exact ⟨_, List.get_mem _ _, named⟩

theorem picks_choose (symbol : Symbol) (alternatives : List Alternative) (run : Run σ)
    (agrees : scope.Agrees category run.active) :
    Logs (Event.Fits scope category) (Alternative.choose symbol alternatives) run := by
  refine (logs_of_events_eq rfl).bind fun current same got => ?_
  cases got
  refine (logs_note fun _ named => nomatch named).bind fun _ noted logged => ?_
  refine Logs.bind ?_ fun _ _ _ => logs_of_events_eq rfl
  refine (logs_pick _ noted).imp fun event fits label named inCategory => ?_
  obtain ⟨alternative, eligible, labelled⟩ := fits label named
  have admitted := (Alternative.mem_eligible.mp eligible).2
  exact agrees.mem_of_admits (labelled ▸ admitted) inCategory

/-- Every step of an expansion picks within the scope, if no chain that it comes to starts over or
activates a label of the category. -/
theorem compatible_picksWithin (grammar : Grammar) (scope : ActiveLabels)
    (category : Label → Prop) :
    Compatible grammar (Atom.Spares grammar category) fun _ (action : Expansion σ _) _ =>
      PicksWithin scope category action where
  pure result := picksWithin_of_events_eq (keepsScopes_pure result) fun _ => rfl
  bind first second := first.bind second
  started := ⟨keepsScopes_note _, fun _ _ => logs_note fun _ named => nomatch named⟩
  index _ last :=
    picksWithin_of_events_eq (keepsScopes_modifyGet (Run.index_keeps last)) fun _ => rfl
  choose symbol alternatives :=
    ⟨Alternative.keepsScopes_choose symbol alternatives, picks_choose symbol alternatives⟩
  undefined _ _ :=
    picksWithin_of_events_eq (keepsScopes_get.bind fun _ _ => keepsScopes_throw _) fun _ => rfl
  under {_ _ chain _ _ _} spares opening opens := by
    refine ⟨keepsScopes_under opens.keeps _, fun run agrees => ?_⟩
    refine logs_under fun inner entered => opens.picks inner ?_
    rw [entered]
    exact (chain.mayLeave_applyTo run.active run).agrees (spares _ (.own opening)) agrees

theorem picksWithin_expandOne (grammar : Grammar) (limit room : Nat) (symbol : Symbol)
    {alternatives : List Alternative}
    (spares : Alternative.EachAtom (Atom.Spares grammar category) alternatives) :
    PicksWithin scope category
      (Alternative.expandOne grammar limit room symbol alternatives : Expansion σ _) :=
  (compatible_picksWithin grammar scope category).expandOne
    (Atom.hereditary_spares grammar category) (grammar.agreesOn_self _) limit limit
    (fun _ _ => picksWithin_of_events_eq (keepsScopes_throw _) fun _ => rfl) (Nat.le_refl room)
    symbol spares

end Expansion

open Expansion

variable [RandomSource σ]

theorem Atom.logs_expand {grammar : Grammar} {scope : ActiveLabels} {category : Label → Prop}
    {openAlternatives : Symbol → List Alternative → Expansion σ (List Signal)} {atom : Atom}
    {alternatives : List Alternative} {chain : Chain} {run : Run σ}
    (opening : atom.opening grammar = some (alternatives, chain))
    (opens : ∀ symbol (inner : Run σ), inner.active = (chain.resolve run).1 →
      Logs (Event.Fits scope category) (openAlternatives symbol alternatives) inner)
    (symbol : Symbol) (slot : Option Nat) :
    Logs (Event.Fits scope category) (atom.expand grammar openAlternatives symbol slot) run := by
  cases atom with
  | reference name own =>
    obtain ⟨found, defined, same⟩ := Option.map_eq_some_iff.mp opening
    cases same
    simp only [Atom.expand, defined]
    exact (logs_under (opens name)).bind fun _ _ _ => logs_of_events_eq rfl
  | group inner own =>
    cases opening
    exact (logs_under (opens symbol)).bind fun _ _ _ => logs_of_events_eq rfl
  | terminal | positional | epsilon => cases opening

/-- While a reference or a group is expanded under some labels, and no chain in what it opens starts
over or activates a label of a category, all alternatives that are picked and have a label of the
category have one of those that are active where the scope begins; and if its own chain does not
either, one of those that were active outside. If that is a single one, they all have the same. -/
theorem Atom.picked_labels_agree (grammar : Grammar) (limit room : Nat) (symbol : Symbol)
    (slot : Option Nat) (atom : Atom) (alternatives : List Alternative) (chain : Chain)
    (run : Run σ) (category : Label → Prop)
    (opening : atom.opening grammar = some (alternatives, chain))
    (someActive : (chain.resolve run).1.isNone = false)
    (spared : ∀ alternative ∈ alternatives, ∀ part ∈ alternative.parts,
      ∀ inner, part.atom.Reaches grammar inner → inner.Spares category) :
    ∃ added,
      (finalRun (atom.expand grammar (Alternative.expandOne grammar limit room) symbol slot
        run)).events = added ++ run.events ∧
      (∀ event ∈ added, ∀ label, event.pickedLabel = some label → category label →
        label ∈ (chain.resolve run).1.labels) ∧
      (run.active.isNone = false → chain.Spares category →
        ∀ event ∈ added, ∀ label, event.pickedLabel = some label → category label →
          label ∈ run.active.labels) ∧
      ((∀ label ∈ (chain.resolve run).1.labels, ∀ other ∈ (chain.resolve run).1.labels,
          category label → category other → label = other) →
        ∀ event ∈ added, ∀ later ∈ added, ∀ label other, event.pickedLabel = some label →
          later.pickedLabel = some other → category label → category other → label = other) := by
  have agrees : (chain.resolve run).1.Agrees category (chain.resolve run).1 :=
    ⟨someActive, fun _ active _ => active⟩
  have logged : Logs (Event.Fits (chain.resolve run).1 category)
      (atom.expand grammar (Alternative.expandOne grammar limit room) symbol slot) run :=
    Atom.logs_expand opening (fun name inner entered =>
      (picksWithin_expandOne grammar limit room name spared).picks inner (entered ▸ agrees)) _ _
  obtain ⟨added, appended, fits⟩ := logged
  refine ⟨added, appended, fits, ?inherited, ?single⟩
  case inherited =>
    intro activeOutside spares event member label named inCategory
    have outside : run.active.Agrees category (chain.resolve run).1 :=
      (chain.mayLeave_applyTo run.active run).agrees spares
        ⟨activeOutside, fun _ active _ => active⟩
    exact outside.inScope label (fits event member label named inCategory) inCategory
  case single =>
    intro single event member later memberLater label other named namedLater here there
    exact single label (fits event member label named here) other
      (fits later memberLater other namedLater there) here there

def Atom.numberedEnding : Atom :=
  .group [⟨some ⟨"S"⟩, [.spaced (.terminal "o")]⟩, ⟨some ⟨"P"⟩, [.spaced (.terminal "i")]⟩] []

def Label.IsNumber (label : Label) : Prop :=
  label = ⟨"S"⟩ ∨ label = ⟨"P"⟩

/-- A noun whose ending depends on the number, and a sentence that asks for the singular. -/
def Grammar.numberedNoun : Grammar :=
  ⟨.insert (.insert .empty ⟨"Noun"⟩
      [⟨none, [.spaced (.terminal "lup"), ⟨.glue, .numberedEnding⟩]⟩])
      ⟨"S"⟩ [⟨none, [.spaced (.reference ⟨"Noun"⟩ [.anyOf [⟨"S"⟩]])]⟩], ⟨"S"⟩, by decide⟩

theorem Atom.spares_terminal (grammar : Grammar) (category : Label → Prop) (text : String) :
    (Atom.terminal text).Spares grammar category := by
  intro chain reaches
  cases reaches with
  | own opening => cases opening
  | inside opening => cases opening

theorem Atom.spares_group {grammar : Grammar} {category : Label → Prop}
    {alternatives : List Alternative} {chain : Chain} (spares : chain.Spares category)
    (inside : Alternative.EachAtom (Atom.Spares grammar category) alternatives) :
    (Atom.group alternatives chain).Spares grammar category := by
  intro reached reaches
  cases reaches with
  | own opening =>
    cases opening
    exact spares
  | inside opening member placed inner =>
    cases opening
    exact inside _ member _ placed reached inner

theorem Atom.picked_labels_agree_numberedNoun :
    ∃ added,
      (finalRun ((Atom.reference ⟨"Noun"⟩ [.anyOf [⟨"S"⟩]]).expand Grammar.numberedNoun
        (Alternative.expandOne Grammar.numberedNoun 3 2) ⟨"S"⟩ none Run.onZeros)).events =
          added ++ Run.onZeros.events ∧
      (∃ event ∈ added, event.pickedLabel = some ⟨"S"⟩) ∧
      ∀ event ∈ added, ∀ label, event.pickedLabel = some label → label.IsNumber →
        label = ⟨"S"⟩ := by
  have spared : Alternative.EachAtom (Atom.Spares Grammar.numberedNoun Label.IsNumber)
      [⟨none, [.spaced (.terminal "lup"), ⟨.glue, .numberedEnding⟩]⟩] := by
    have ending : Alternative.EachAtom (Atom.Spares Grammar.numberedNoun Label.IsNumber)
        [⟨some ⟨"S"⟩, [.spaced (.terminal "o")]⟩, ⟨some ⟨"P"⟩, [.spaced (.terminal "i")]⟩] := by
      simp [Alternative.EachAtom, Part.spaced, Atom.spares_terminal]
    have empty : Chain.Spares Label.IsNumber [] := by
      simp [Chain.Spares]
    have group := Atom.spares_group empty ending
    simpa [Alternative.EachAtom, Part.spaced, Atom.spares_terminal, Atom.numberedEnding] using group
  have picked : (finalRun ((Atom.reference ⟨"Noun"⟩ [.anyOf [⟨"S"⟩]]).expand Grammar.numberedNoun
      (Alternative.expandOne Grammar.numberedNoun 3 2) ⟨"S"⟩ none
      Run.onZeros)).events.filterMap Event.pickedLabel = [⟨"S"⟩] := by
    rw [Alternative.expandOne_eq_expandAdmitted]
    rfl
  obtain ⟨added, appended, inScope, _⟩ := Atom.picked_labels_agree Grammar.numberedNoun 3 2 ⟨"S"⟩
    none (.reference ⟨"Noun"⟩ [.anyOf [⟨"S"⟩]]) _ _ Run.onZeros Label.IsNumber rfl rfl spared
  refine ⟨added, appended, ?_, fun event member label named inCategory => ?_⟩
  · have labels : added.filterMap Event.pickedLabel = [⟨"S"⟩] := by
      rw [appended, List.filterMap_append] at picked
      exact (List.append_nil _).symm.trans picked
    exact List.mem_filterMap.mp (labels ▸ List.mem_singleton_self _)
  · exact List.mem_singleton.mp (inScope event member label named inCategory)

end SentenceGrammar
