import SentenceGrammar.Proofs.Generation.Completeness
import SentenceGrammar.Proofs.Grammar.Lookup
import SentenceGrammar.Proofs.Text.Joining

/-! What plain grammars generate. In a grammar without labels and positional choices nothing but the
choice of alternatives matters. What is emitted is told by what it makes of a line; so emissions
that differ in repeated glues are the same, and sequences are written one part after the other. -/

namespace SentenceGrammar

/-- What an atom may make of a line, if that is known of the alternatives that it opens. -/
inductive Atom.Writes (grammar : Grammar) (opens : List Alternative → (Line → Line) → Prop) :
    Atom → (Line → Line) → Prop where
  | terminal {text : String} : Writes grammar opens (.terminal text) (Signal.change [.word text])
  | epsilon : Writes grammar opens .epsilon id
  | opened {atom : Atom} {alternatives : List Alternative} {chain : Chain} {change : Line → Line}
    (opening : atom.opening grammar = some (alternatives, chain))
    (inside : opens alternatives change) : Writes grammar opens atom change

inductive Part.Writes (atoms : Atom → (Line → Line) → Prop) : List Part → (Line → Line) → Prop where
  | nil : Writes atoms [] id
  | cons {part : Part} {rest : List Part} {here later : Line → Line}
    (first : atoms part.atom here) (others : Writes atoms rest later) :
    Writes atoms (part :: rest) (later ∘ here ∘ Signal.change part.junction.signals)

def Alternative.Writes (grammar : Grammar) : Nat → List Alternative → (Line → Line) → Prop
  | 0, _, _ => False
  | room + 1, alternatives, change => ∃ alternative ∈ alternatives,
    Part.Writes (Atom.Writes grammar (Writes grammar room)) alternative.parts change

abbrev Atom.WritesWithin (grammar : Grammar) (room : Nat) : Atom → (Line → Line) → Prop :=
  Atom.Writes grammar (Alternative.Writes grammar room)

def Atom.MayWrite (grammar : Grammar) (atom : Atom) (change : Line → Line) : Prop :=
  ∃ room, atom.WritesWithin grammar room change

namespace Part

variable {atoms others : Atom → (Line → Line) → Prop} {first later : List Part}
  {change : Line → Line}

theorem writes_nil : Writes atoms [] change ↔ change = id := by
  constructor
  · intro writes
    cases writes
    rfl
  · rintro rfl
    exact .nil

theorem writes_cons {part : Part} : Writes atoms (part :: later) change ↔
    ∃ here after, atoms part.atom here ∧ Writes atoms later after ∧
      change = after ∘ here ∘ Signal.change part.junction.signals := by
  constructor
  · intro writes
    cases writes with
    | cons first others => exact ⟨_, _, first, others, rfl⟩
  · rintro ⟨here, after, first, others, rfl⟩
    exact .cons first others

theorem writes_append : Writes atoms (first ++ later) change ↔
    ∃ before after, Writes atoms first before ∧ Writes atoms later after ∧
      change = after ∘ before := by
  induction first generalizing change with
  | nil => simp [writes_nil]
  | cons part rest ih =>
    rw [List.cons_append, writes_cons]
    simp only [writes_cons, ih]
    constructor
    · rintro ⟨here, _, writes, ⟨between, after, inside, last, rfl⟩, rfl⟩
      exact ⟨_, after, ⟨here, between, writes, inside, rfl⟩, last, rfl⟩
    · rintro ⟨_, after, ⟨here, between, writes, inside, rfl⟩, last, rfl⟩
      exact ⟨here, _, writes, ⟨between, after, inside, last, rfl⟩, rfl⟩

theorem writes_singleton {junction : Junction} {atom : Atom} :
    Writes atoms [⟨junction, atom⟩] change ↔
      ∃ here, atoms atom here ∧ change = here ∘ Signal.change junction.signals := by
  simp [writes_cons, writes_nil]

theorem Writes.mono (more : ∀ atom here, atoms atom here → others atom here)
    (writes : Writes atoms first change) : Writes others first change := by
  induction writes with
  | nil => exact .nil
  | cons first _ ih => exact .cons (more _ _ first) ih

end Part

variable {grammar : Grammar}

theorem Atom.Writes.mono {opens others : List Alternative → (Line → Line) → Prop}
    (more : ∀ alternatives change, opens alternatives change → others alternatives change)
    {atom : Atom} {change : Line → Line} (writes : Atom.Writes grammar opens atom change) :
    Atom.Writes grammar others atom change := by
  cases writes with
  | terminal => exact .terminal
  | epsilon => exact .epsilon
  | opened opening inside => exact .opened opening (more _ _ inside)

theorem Alternative.Writes.mono {room more : Nat} (fits : room ≤ more)
    {alternatives : List Alternative} {change : Line → Line}
    (writes : Alternative.Writes grammar room alternatives change) :
    Alternative.Writes grammar more alternatives change := by
  induction room generalizing more alternatives change with
  | zero => exact writes.elim
  | succ room ih =>
    obtain ⟨more, rfl⟩ : ∃ rest, more = rest + 1 := ⟨more - 1, by omega⟩
    obtain ⟨alternative, member, parts⟩ := writes
    refine ⟨alternative, member, parts.mono fun atom here writes => writes.mono ?_⟩
    exact fun _ _ inside => ih (Nat.le_of_succ_le_succ fits) inside

theorem Part.Writes.exists_room {parts : List Part} {change : Line → Line}
    (writes : Part.Writes (Atom.MayWrite grammar) parts change) :
    ∃ room, Part.Writes (Atom.WritesWithin grammar room) parts change := by
  induction writes with
  | nil => exact ⟨0, .nil⟩
  | cons first _ ih =>
    obtain ⟨room, here⟩ := first
    obtain ⟨more, later⟩ := ih
    refine ⟨max room more, .cons (here.mono ?_) (later.mono fun _ _ writes => writes.mono ?_)⟩
    · exact fun _ _ inside => inside.mono (Nat.le_max_left _ _)
    · exact fun _ _ inside => inside.mono (Nat.le_max_right _ _)

theorem Atom.mayWrite_of_opening {atom : Atom} {alternatives : List Alternative} {chain : Chain}
    (opening : atom.opening grammar = some (alternatives, chain)) {alternative : Alternative}
    (member : alternative ∈ alternatives) {change : Line → Line}
    (writes : Part.Writes (Atom.MayWrite grammar) alternative.parts change) :
    Atom.MayWrite grammar atom change := by
  obtain ⟨room, within⟩ := writes.exists_room
  exact ⟨room + 1, .opened opening ⟨alternative, member, within⟩⟩

theorem Atom.exists_of_writesWithin {atom : Atom} {alternatives : List Alternative} {chain : Chain}
    (opening : atom.opening grammar = some (alternatives, chain)) {room : Nat}
    {change : Line → Line} (writes : atom.WritesWithin grammar room change) :
    ∃ less < room, ∃ alternative ∈ alternatives,
      Part.Writes (Atom.WritesWithin grammar less) alternative.parts change := by
  cases writes with
  | terminal => cases opening
  | epsilon => cases opening
  | opened opened inside =>
    obtain ⟨rfl, rfl⟩ := Prod.mk.inj (Option.some.inj (opening.symm.trans opened))
    cases room with
    | zero => exact inside.elim
    | succ room => exact ⟨room, Nat.lt_succ_self room, inside⟩

/-- An atom without labels and positional choices in it, in whose groups nothing is empty. -/
inductive Atom.Plain : Atom → Prop where
  | terminal {text : String} : Plain (.terminal text)
  | reference {symbol : Symbol} {chain : Chain} : Plain (.reference symbol chain)
  | group {alternatives : List Alternative} {chain : Chain} (nonempty : alternatives ≠ [])
    (unlabelled : ∀ alternative ∈ alternatives, alternative.label = none)
    (filled : ∀ alternative ∈ alternatives, alternative.parts ≠ [])
    (inside : ∀ alternative ∈ alternatives, ∀ part ∈ alternative.parts, Plain part.atom) :
    Plain (.group alternatives chain)
  | epsilon : Plain .epsilon

structure Alternative.Plain (alternative : Alternative) : Prop where
  unlabelled : alternative.label = none
  filled : alternative.parts ≠ []
  inside : ∀ part ∈ alternative.parts, part.atom.Plain

structure Alternative.ListPlain (alternatives : List Alternative) : Prop where
  nonempty : alternatives ≠ []
  each : ∀ alternative ∈ alternatives, alternative.Plain

theorem Atom.plain_group {alternatives : List Alternative} {chain : Chain} :
    (Atom.group alternatives chain).Plain ↔ Alternative.ListPlain alternatives := by
  constructor
  · intro plain
    cases plain with
    | group nonempty unlabelled filled inside =>
      refine ⟨nonempty, fun alternative member => ?_⟩
      exact ⟨unlabelled alternative member, filled alternative member, inside alternative member⟩
  · rintro ⟨nonempty, each⟩
    exact .group nonempty (fun alternative member => (each alternative member).unlabelled)
      (fun alternative member => (each alternative member).filled)
      fun alternative member => (each alternative member).inside

theorem Alternative.plain_singleton {junction : Junction} {atom : Atom} (plain : atom.Plain) :
    Alternative.Plain ⟨none, [⟨junction, atom⟩]⟩ where
  unlabelled := rfl
  filled := List.cons_ne_nil _ _
  inside := List.forall_mem_singleton.mpr plain

namespace Alternative.ListPlain

theorem singleton {alternative : Alternative} (plain : alternative.Plain) :
    ListPlain [alternative] :=
  ⟨List.cons_ne_nil _ _, List.forall_mem_singleton.mpr plain⟩

theorem append {first later : List Alternative} (before : ListPlain first)
    (after : ListPlain later) : ListPlain (first ++ later) :=
  ⟨List.append_ne_nil_of_left_ne_nil before.nonempty _,
    List.forall_mem_append.mpr ⟨before.each, after.each⟩⟩

end Alternative.ListPlain

def Grammar.Plain (grammar : Grammar) : Prop :=
  ∀ symbol alternatives, grammar.lookup symbol = some alternatives →
    Alternative.ListPlain alternatives

theorem Grammar.Plain.opening (plain : grammar.Plain) {atom : Atom}
    {alternatives : List Alternative}
    {chain : Chain} (single : atom.Plain)
    (opening : atom.opening grammar = some (alternatives, chain)) :
    Alternative.ListPlain alternatives := by
  cases single with
  | @reference symbol chain =>
    obtain ⟨found, defined, same⟩ := Option.map_eq_some_iff.mp opening
    cases same
    exact plain symbol _ defined
  | group nonempty unlabelled filled inside =>
    cases opening
    refine ⟨nonempty, fun alternative member => ?_⟩
    exact ⟨unlabelled alternative member, filled alternative member, inside alternative member⟩
  | terminal => cases opening
  | epsilon => cases opening

/-- What is to be shown of a derivation in a plain grammar: its signals do what the derivand may
write. -/
def Derivand.MayWrite (grammar : Grammar) : Derivand → (Line → Line) → Prop
  | .oneOf alternatives, change => Alternative.ListPlain alternatives →
    ∃ alternative ∈ alternatives, Part.Writes (Atom.MayWrite grammar) alternative.parts change
  | .sequence _ parts, change => (∀ part ∈ parts, part.atom.Plain) →
    Part.Writes (Atom.MayWrite grammar) parts change
  | .atom _ single, change => single.Plain → Atom.MayWrite grammar single change

theorem Derives.mayWrite (plain : grammar.Plain) {limit depth : Nat} {active : ActiveLabels}
    {derivand : Derivand} {signals : List Signal}
    (derivation : Derives grammar limit depth active derivand signals) :
    derivand.MayWrite grammar (Signal.change signals) := by
  induction derivation with
  | picked room member admitted fits sequence ih =>
    exact fun list => ⟨_, member, ih (list.each _ member).inside⟩
  | noneAdmitted room excluded =>
    intro list
    obtain ⟨alternative, member⟩ := List.exists_mem_of_ne_nil _ list.nonempty
    have never := excluded alternative member
    rw [(list.each _ member).unlabelled] at never
    cases never
  | nil => exact fun _ => .nil
  | cons first others firstIh othersIh =>
    intro each
    obtain ⟨here, later⟩ := List.forall_mem_cons.mp each
    rw [Signal.change_append, Signal.change_append]
    exact .cons (firstIh here) (othersIh later)
  | terminal => exact fun _ => ⟨0, .terminal⟩
  | @reference depth active inner slot symbol chain alternatives signals defined _ _ ih =>
    intro single
    have opening : (Atom.reference symbol chain).opening grammar = some (alternatives, chain) := by
      simp [Atom.opening, defined]
    obtain ⟨alternative, member, writes⟩ := ih (plain.opening single opening)
    exact Atom.mayWrite_of_opening opening member writes
  | group _ _ ih =>
    intro single
    obtain ⟨alternative, member, writes⟩ := ih (plain.opening single rfl)
    exact Atom.mayWrite_of_opening rfl member writes
  | noChoice =>
    intro single
    cases single
  | choice =>
    intro single
    cases single
  | epsilon => exact fun _ => ⟨0, .epsilon⟩

theorem Chain.exists_mayLeave (chain : Chain) (active : ActiveLabels) :
    ∃ inner, Chain.MayLeave chain active inner :=
  ⟨_, chain.mayLeave_applyTo active (Run.onSource 0 fun _ => 0 : Run (Nat → UInt64))⟩

theorem Atom.Plain.firstWidth {atom : Atom} (plain : atom.Plain) :
    Atom.firstWidth [atom] = none := by
  cases plain <;> rfl

theorem Atom.slotFits_of_plain {parts : List Part} (each : ∀ part ∈ parts, part.atom.Plain)
    (slot : Nat) : Atom.SlotFits slot (parts.map Part.atom) := by
  induction parts with
  | nil => exact nofun
  | cons part rest ih =>
    obtain ⟨here, later⟩ := List.forall_mem_cons.mp each
    exact (Atom.slotFits_cons_of_none here.firstWidth).mpr (ih later)

def Grammar.Opens (grammar : Grammar) (limit depth : Nat)
    (opens : List Alternative → (Line → Line) → Prop) : Prop :=
  ∀ alternatives change active, opens alternatives change → Alternative.ListPlain alternatives →
    ∃ signals, Signal.change signals = change ∧
      Derives grammar limit depth active (.oneOf alternatives) signals

section Levels

variable {limit depth : Nat} {opens : List Alternative → (Line → Line) → Prop}
  {change : Line → Line}

theorem Atom.Writes.derives (plain : grammar.Plain) (sound : grammar.Opens limit depth opens)
    {atom : Atom} (writes : Atom.Writes grammar opens atom change) (single : atom.Plain)
    (active : ActiveLabels) (slot : Nat) :
    ∃ signals, Signal.change signals = change ∧
      Derives grammar limit depth active (.atom slot atom) signals := by
  cases writes with
  | @terminal text => exact ⟨[.word text], rfl, .terminal⟩
  | epsilon => exact ⟨[], rfl, .epsilon⟩
  | @opened _ alternatives chain _ opening inside =>
    obtain ⟨inner, selected⟩ := chain.exists_mayLeave active
    obtain ⟨signals, same, derived⟩ :=
      sound alternatives change inner inside (plain.opening single opening)
    refine ⟨signals, same, ?_⟩
    cases single with
    | reference =>
      obtain ⟨found, defined, here⟩ := Option.map_eq_some_iff.mp opening
      cases here
      exact .reference defined selected derived
    | group =>
      cases opening
      exact .group selected derived
    | terminal => cases opening
    | epsilon => cases opening

theorem Part.Writes.derives (plain : grammar.Plain) (sound : grammar.Opens limit depth opens)
    {parts : List Part} (writes : Part.Writes (Atom.Writes grammar opens) parts change)
    (each : ∀ part ∈ parts, part.atom.Plain) (active : ActiveLabels) (slot : Nat) :
    ∃ signals, Signal.change signals = change ∧
      Derives grammar limit depth active (.sequence slot parts) signals := by
  induction writes with
  | nil => exact ⟨[], rfl, .nil⟩
  | cons first _ ih =>
    obtain ⟨single, rest⟩ := List.forall_mem_cons.mp each
    obtain ⟨signals, rfl, begins⟩ := first.derives plain sound single active slot
    obtain ⟨later, rfl, continues⟩ := ih rest
    refine ⟨_, ?_, .cons begins continues⟩
    rw [Signal.change_append, Signal.change_append]

end Levels

theorem Alternative.opens_writes (plain : grammar.Plain) (room depth : Nat) :
    grammar.Opens (depth + room) depth (Alternative.Writes grammar room) := by
  induction room generalizing depth with
  | zero => exact fun _ _ _ writes => writes.elim
  | succ room ih =>
    intro alternatives change active writes list
    obtain ⟨alternative, member, parts⟩ := writes
    have inside := (list.each _ member).inside
    have sound := ih (depth + 1)
    rw [Nat.add_right_comm, Nat.add_assoc] at sound
    obtain ⟨signals, same, derived⟩ := parts.derives plain sound inside active 0
    refine ⟨signals, same, .picked (by omega) member ?_ (Atom.slotFits_of_plain inside 0) derived⟩
    rw [(list.each _ member).unlabelled]
    rfl

/-- The texts that a plain grammar generates on some words within some limit are those that its
start symbol may write on a blank line, whatever labels are active. -/
theorem Grammar.exists_generate_iff_mayWrite (plain : grammar.Plain) (seed : UInt64)
    (scopes : List ActiveLabels) (events : List Event) (text : String) :
    (∃ (limit : Nat) (words : Nat → UInt64) (final : Run (Nat → UInt64)),
      grammar.generate ⟨limit, false⟩ ⟨seed, words, scopes, events⟩ = .ok text final) ↔
    ∃ change, Atom.MayWrite grammar (.reference grammar.start []) change ∧
      text = (change .blank).text := by
  have opening : (Atom.reference grammar.start []).opening grammar =
      some (grammar.startAlternatives, []) := by
    rw [Atom.opening, lookup_start, Option.map_some]
  have start := plain _ _ grammar.lookup_start
  rw [exists_generate_iff]
  constructor
  · rintro ⟨limit, signals, derivation, rfl⟩
    obtain ⟨alternative, member, writes⟩ := derivation.mayWrite plain start
    exact ⟨_, Atom.mayWrite_of_opening opening member writes, rfl⟩
  · rintro ⟨change, ⟨room, writes⟩, rfl⟩
    obtain ⟨less, _, inside⟩ := Atom.exists_of_writesWithin opening writes
    obtain ⟨signals, rfl, derivation⟩ := Alternative.opens_writes plain (less + 1) 0 _ _
      (scopes.head?.getD .none) inside start
    rw [Nat.zero_add] at derivation
    exact ⟨less + 1, signals, derivation, rfl⟩

end SentenceGrammar
