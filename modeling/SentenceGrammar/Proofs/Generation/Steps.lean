import SentenceGrammar.Generation
import SentenceGrammar.Proofs.Grammar.Eligibility

/-! The steps from which expansions are made. Whatever relates every step to itself, and related
actions after each other, relates whole expansions that differ only in how they open the next level
of nesting. Properties of single expansions are relations that ask nothing of the second action. -/

namespace SentenceGrammar

variable {σ α β : Type}

namespace Expansion

def finalRun : EStateM.Result ExpansionFault (Run σ) α → Run σ
  | .ok _ run => run
  | .error _ run => run

theorem bind_apply (action : Expansion σ α) (next : α → Expansion σ β) (run : Run σ) :
    (action >>= next) run =
      match action run with
      | .ok result run => next result run
      | .error fault run => .error fault run := by
  simp only [bind, EStateM.bind]
  cases action run <;> rfl

theorem bind_eq_ok {action : Expansion σ α} {next : α → Expansion σ β} {run final : Run σ}
    {result : β} :
    (action >>= next) run = .ok result final ↔
      ∃ between middle,
        action run = .ok between middle ∧ next between middle = .ok result final := by
  rw [bind_apply]
  cases outcome : action run with
  | ok between middle =>
    constructor
    · exact fun success => ⟨between, middle, rfl, success⟩
    · intro succeeds
      rcases succeeds with ⟨_, _, ⟨⟩, success⟩
      exact success
  | error fault middle => simp

def Returns (action : Expansion σ α) (result : α) : Prop :=
  ∃ run final, action run = .ok result final

def undefined (symbol : Symbol) : Expansion σ α := do
  let run ← get
  throw (.undefinedSymbol symbol run.active)

end Expansion

def Atom.opening (grammar : Grammar) : Atom → Option (List Alternative × Chain)
  | .reference symbol chain => (grammar.lookup symbol).map (·, chain)
  | .group alternatives chain => some (alternatives, chain)
  | .terminal _ | .positional _ | .epsilon => none

def Alternative.EachAtom (property : Atom → Prop) (alternatives : List Alternative) : Prop :=
  ∀ alternative ∈ alternatives, ∀ part ∈ alternative.parts, property part.atom

/-- A property of atoms that an expansion takes from each atom to those it comes to from there. -/
structure Atom.Hereditary (grammar : Grammar) (property : Atom → Prop) : Prop where
  epsilon : property .epsilon
  choice : ∀ {choices}, property (.positional choices) → ∀ choice ∈ choices, property choice
  opening : ∀ {atom alternatives chain}, property atom →
    atom.opening grammar = some (alternatives, chain) → Alternative.EachAtom property alternatives

/-- Another grammar has the same rules for the symbols of all references that have a property. -/
def Grammar.AgreesOn (grammar : Grammar) (property : Atom → Prop) (other : Grammar) : Prop :=
  ∀ symbol chain, property (.reference symbol chain) → other.lookup symbol = grammar.lookup symbol

theorem Grammar.agreesOn_self (grammar : Grammar) (property : Atom → Prop) :
    grammar.AgreesOn property grammar :=
  fun _ _ _ => rfl

def Atom.RefersWithin (known : Symbol → Prop) (atom : Atom) : Prop :=
  ∀ symbol ∈ atom.references, known symbol

theorem Alternative.eachAtom_refersWithin {known : Symbol → Prop} {alternatives : List Alternative}
    (within : ∀ symbol ∈ Alternative.listReferences alternatives, known symbol) :
    Alternative.EachAtom (Atom.RefersWithin known) alternatives := by
  intro alternative member part inside symbol referred
  apply within
  rw [Alternative.listReferences_eq_flatMap, List.mem_flatMap]
  refine ⟨alternative, member, ?_⟩
  rw [Part.listReferences_eq_flatMap, List.mem_flatMap]
  exact ⟨part, inside, referred⟩

theorem Atom.hereditary_refersWithin {grammar : Grammar} {known : Symbol → Prop}
    (closed : ∀ symbol alternatives, known symbol → grammar.lookup symbol = some alternatives →
      ∀ other ∈ Alternative.listReferences alternatives, known other) :
    Atom.Hereditary grammar (Atom.RefersWithin known) where
  epsilon _ referred := absurd referred List.not_mem_nil
  choice within choice member symbol referred := by
    apply within
    rw [Atom.references, Atom.listReferences_eq_flatMap]
    exact List.mem_flatMap.mpr ⟨choice, member, referred⟩
  opening {atom alternatives chain} within opening := by
    cases atom with
    | reference symbol other =>
      obtain ⟨found, defined, same⟩ := Option.map_eq_some_iff.mp opening
      cases same
      have isKnown : known symbol := within symbol List.mem_cons_self
      exact Alternative.eachAtom_refersWithin (closed symbol alternatives isKnown defined)
    | group inner other =>
      cases opening
      exact Alternative.eachAtom_refersWithin within
    | terminal | positional | epsilon => cases opening

theorem Alternative.eachAtom_nothing {grammar : Grammar} {property : Atom → Prop}
    (hereditary : Atom.Hereditary grammar property) :
    ∀ part ∈ Alternative.nothing.parts, property part.atom := by
  simpa [Alternative.nothing, Part.spaced] using hereditary.epsilon

variable [RandomSource σ]

/-- Chooses one of the alternatives that are eligible under the given labels, or the one that
generates nothing if there is none. -/
def Alternative.chooseEligible (symbol : Symbol) (alternatives : List Alternative)
    (active : ActiveLabels) : Expansion σ Alternative := do
  let eligible := Alternative.eligible active alternatives
  modify fun run => run.note (.eligible symbol eligible.length alternatives.length)
  let picked ← modifyGet (Run.pick eligible)
  return picked.elim Alternative.nothing eligible.get

def Alternative.choose (symbol : Symbol) (alternatives : List Alternative) :
    Expansion σ Alternative := do
  let run ← get
  Alternative.chooseEligible symbol alternatives run.active

theorem Alternative.expandOne_succ (grammar : Grammar) (limit room : Nat) (symbol : Symbol)
    (alternatives : List Alternative) :
    Alternative.expandOne grammar limit (room + 1) symbol alternatives =
      (Alternative.choose symbol alternatives : Expansion σ Alternative) >>= fun chosen =>
        Part.expandList grammar (Alternative.expandOne grammar limit room) symbol none
          chosen.parts := rfl

theorem Alternative.mem_of_returns_choose {symbol : Symbol} {alternatives : List Alternative}
    {chosen : Alternative}
    (returned : Expansion.Returns (Alternative.choose symbol alternatives : Expansion σ _) chosen) :
    chosen ∈ alternatives ∨ chosen = .nothing := by
  obtain ⟨run, final, success⟩ := returned
  obtain ⟨current, same, got, success⟩ := Expansion.bind_eq_ok.mp success
  cases got
  obtain ⟨_, noted, _, success⟩ := Expansion.bind_eq_ok.mp success
  obtain ⟨picked, middle, _, finished⟩ := Expansion.bind_eq_ok.mp success
  cases finished
  cases picked with
  | none => exact .inr rfl
  | some index => exact .inl (Alternative.mem_eligible.mp (List.get_mem _ _)).1

theorem Atom.expandNth_of_lt {grammar : Grammar}
    {openAlternatives : Symbol → List Alternative → Expansion σ (List Signal)} (symbol : Symbol)
    {position : Nat} {choices : List Atom} (inside : position < choices.length) :
    Atom.expandNth grammar openAlternatives symbol position choices = do
      let outcome ← Atom.expand grammar openAlternatives symbol none choices[position]
      return outcome.1 := by
  induction choices generalizing position with
  | nil => exact absurd inside (Nat.not_lt_zero _)
  | cons atom rest ih =>
    cases position with
    | zero => rfl
    | succ position => exact ih (Nat.lt_of_succ_lt_succ inside)

namespace Expansion

/-- A relation between actions that every step of an expansion has to itself, on atoms with a
property, and that passes on to related actions after each other and under a chain. -/
structure Compatible (grammar : Grammar) (property : Atom → Prop)
    (relation : (α : Type) → Expansion σ α → Expansion σ α → Prop) : Prop where
  pure : ∀ {α : Type} (result : α), relation α (Pure.pure result) (Pure.pure result)
  bind : ∀ {α β : Type} {action other : Expansion σ α} {next following : α → Expansion σ β},
    relation α action other →
    (∀ result, Returns action result → relation β (next result) (following result)) →
    relation β (action >>= next) (other >>= following)
  started : relation _ (modify fun run => run.note (.started grammar.start run.seed))
    (modify fun run => run.note (.started grammar.start run.seed))
  index : ∀ {choices}, property (.positional choices) →
    ∀ last, relation _ (modifyGet (Run.index last)) (modifyGet (Run.index last))
  choose : ∀ symbol alternatives,
    relation _ (Alternative.choose symbol alternatives) (Alternative.choose symbol alternatives)
  undefined : ∀ {α : Type} {symbol chain}, property (.reference symbol chain) →
    grammar.lookup symbol = none →
    relation α (Expansion.undefined symbol) (Expansion.undefined symbol)
  under : ∀ {atom alternatives chain symbol}
    {openAlternatives openOthers : Symbol → List Alternative → Expansion σ (List Signal)},
    property atom → atom.opening grammar = some (alternatives, chain) →
    relation _ (openAlternatives symbol alternatives) (openOthers symbol alternatives) →
    relation _ (Expansion.under openAlternatives symbol alternatives chain)
      (Expansion.under openOthers symbol alternatives chain)

namespace Compatible

variable {grammar second : Grammar} {property : Atom → Prop}
  {relation : (α : Type) → Expansion σ α → Expansion σ α → Prop}

section Levels

variable (openAlternatives openOthers : Symbol → List Alternative → Expansion σ (List Signal))

theorem expandAtom_of_opening (compatible : Compatible grammar property relation)
    (passes : ∀ choices, property (.positional choices) → ∀ choice ∈ choices, property choice)
    (agrees : grammar.AgreesOn property second)
    (opens : ∀ symbol atom alternatives chain, property atom →
      atom.opening grammar = some (alternatives, chain) →
      relation _ (openAlternatives symbol alternatives) (openOthers symbol alternatives))
    (symbol : Symbol) {atom : Atom} (holds : property atom) (slot : Option Nat) :
    relation _ (Atom.expand grammar openAlternatives symbol slot atom)
      (Atom.expand second openOthers symbol slot atom) := by
  induction atom using Atom.induction generalizing slot with
  | terminal text => exact compatible.pure _
  | reference name chain =>
    have same := agrees name chain holds
    cases defined : grammar.lookup name with
    | some alternatives =>
      have opening : (Atom.reference name chain).opening grammar = some (alternatives, chain) := by
        simp [Atom.opening, defined]
      have inside := opens name _ alternatives chain holds opening
      simp only [Atom.expand, same, defined]
      exact compatible.bind (compatible.under holds opening inside) fun _ _ => compatible.pure _
    | none =>
      simp only [Atom.expand, same, defined]
      exact compatible.undefined holds defined
  | group alternatives chain _ =>
    have opening : (Atom.group alternatives chain).opening grammar = some (alternatives, chain) :=
      rfl
    have inside := opens symbol _ alternatives chain holds opening
    exact compatible.bind (compatible.under holds opening inside) fun _ _ => compatible.pure _
  | positional choices ih =>
    cases choices with
    | nil => exact compatible.pure _
    | cons first others =>
      have continues : ∀ position, relation (List Signal × Option Nat)
          (do
            let signals ← Atom.expandNth grammar openAlternatives symbol
              (position % (others.length + 1)) (first :: others)
            return (signals, some position))
          (do
            let signals ← Atom.expandNth second openOthers symbol
              (position % (others.length + 1)) (first :: others)
            return (signals, some position)) := by
        intro position
        have inside : position % (others.length + 1) < (first :: others).length :=
          Nat.mod_lt _ (Nat.succ_pos _)
        have member := List.getElem_mem inside
        rw [Atom.expandNth_of_lt symbol inside, Atom.expandNth_of_lt symbol inside]
        have chooses := ih _ member (passes _ holds _ member) none
        exact compatible.bind (compatible.bind chooses fun _ _ => compatible.pure _) fun _ _ =>
          compatible.pure _
      cases slot with
      | some position => exact continues position
      | none => exact compatible.bind (compatible.index holds _) fun chosen _ => continues chosen
  | epsilon => exact compatible.pure _

theorem expandParts_of_opening (compatible : Compatible grammar property relation)
    (passes : ∀ choices, property (.positional choices) → ∀ choice ∈ choices, property choice)
    (agrees : grammar.AgreesOn property second)
    (opens : ∀ symbol atom alternatives chain, property atom →
      atom.opening grammar = some (alternatives, chain) →
      relation _ (openAlternatives symbol alternatives) (openOthers symbol alternatives))
    (symbol : Symbol) {parts : List Part} (holds : ∀ part ∈ parts, property part.atom)
    (slot : Option Nat) :
    relation _ (Part.expandList grammar openAlternatives symbol slot parts)
      (Part.expandList second openOthers symbol slot parts) := by
  induction parts generalizing slot with
  | nil => exact compatible.pure _
  | cons part rest ih =>
    obtain ⟨here, later⟩ := List.forall_mem_cons.mp holds
    refine compatible.bind
      (compatible.expandAtom_of_opening _ _ passes agrees opens symbol here slot) ?_
    intro outcome _
    exact compatible.bind (ih later _) fun _ _ => compatible.pure _

theorem expandAtom (compatible : Compatible grammar property relation)
    (hereditary : Atom.Hereditary grammar property) (agrees : grammar.AgreesOn property second)
    (opens : ∀ symbol alternatives, Alternative.EachAtom property alternatives →
      relation _ (openAlternatives symbol alternatives) (openOthers symbol alternatives))
    (symbol : Symbol) {atom : Atom} (holds : property atom) (slot : Option Nat) :
    relation _ (Atom.expand grammar openAlternatives symbol slot atom)
      (Atom.expand second openOthers symbol slot atom) :=
  compatible.expandAtom_of_opening _ _ (fun _ => hereditary.choice) agrees
    (fun symbol _ alternatives _ holds opening =>
      opens symbol alternatives (hereditary.opening holds opening)) symbol holds slot

theorem expandParts (compatible : Compatible grammar property relation)
    (hereditary : Atom.Hereditary grammar property) (agrees : grammar.AgreesOn property second)
    (opens : ∀ symbol alternatives, Alternative.EachAtom property alternatives →
      relation _ (openAlternatives symbol alternatives) (openOthers symbol alternatives))
    (symbol : Symbol) {parts : List Part} (holds : ∀ part ∈ parts, property part.atom)
    (slot : Option Nat) :
    relation _ (Part.expandList grammar openAlternatives symbol slot parts)
      (Part.expandList second openOthers symbol slot parts) :=
  compatible.expandParts_of_opening _ _ (fun _ => hereditary.choice) agrees
    (fun symbol _ alternatives _ holds opening =>
      opens symbol alternatives (hereditary.opening holds opening)) symbol holds slot

end Levels

/-- Expansions of the same alternatives are related, whatever their room, if the one that runs out
of room first is then related to what the other one does with the room it has left. -/
theorem expandOne (compatible : Compatible grammar property relation)
    (hereditary : Atom.Hereditary grammar property) (agrees : grammar.AgreesOn property second)
    (limit other : Nat) {room more : Nat}
    (exceeded : ∀ symbol alternatives,
      relation (List Signal) (throw (.limitExceeded symbol limit))
        (Alternative.expandOne second other (more - room) symbol alternatives))
    (fits : room ≤ more) (symbol : Symbol) {alternatives : List Alternative}
    (holds : Alternative.EachAtom property alternatives) :
    relation _ (Alternative.expandOne grammar limit room symbol alternatives)
      (Alternative.expandOne second other more symbol alternatives) := by
  induction room generalizing more symbol alternatives with
  | zero => exact exceeded symbol alternatives
  | succ room ih =>
    obtain ⟨more, rfl⟩ : ∃ rest, more = rest + 1 := ⟨more - 1, by omega⟩
    rw [Nat.add_sub_add_right] at exceeded
    rw [Alternative.expandOne_succ, Alternative.expandOne_succ]
    refine compatible.bind (compatible.choose symbol alternatives) fun chosen returned => ?_
    have atoms : ∀ part ∈ chosen.parts, property part.atom := by
      rcases Alternative.mem_of_returns_choose returned with member | nothing
      · exact holds chosen member
      · rw [nothing]
        exact Alternative.eachAtom_nothing hereditary
    exact compatible.expandParts _ _ hereditary agrees
      (fun inner options each => ih exceeded (Nat.le_of_succ_le_succ fits) inner each) symbol atoms
      none

/-- Generations are related if their settings differ in the limit only, the lower limit first. -/
theorem generate (compatible : Compatible grammar property relation)
    (hereditary : Atom.Hereditary grammar property) {settings others : Settings}
    (exceeded : ∀ symbol action,
      relation (List Signal) (throw (.limitExceeded symbol settings.maxDepth)) action)
    (fits : settings.maxDepth ≤ others.maxDepth) (trims : settings.trimOutput = others.trimOutput)
    (holds : Alternative.EachAtom property grammar.startAlternatives) :
    relation _ (grammar.generate settings) (grammar.generate others) := by
  unfold Grammar.generate
  rw [trims]
  refine compatible.bind compatible.started fun _ _ => ?_
  have starts := compatible.expandOne hereditary (grammar.agreesOn_self property)
    settings.maxDepth others.maxDepth (fun symbol _ => exceeded symbol _) fits grammar.start holds
  exact compatible.bind starts fun _ _ => compatible.pure _

end Compatible

end Expansion

end SentenceGrammar
