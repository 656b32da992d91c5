import SentenceGrammar.Proofs.Generation.Completeness
import SentenceGrammar.Proofs.Generation.Evaluation
import SentenceGrammar.Proofs.Generation.Lockstep
import SentenceGrammar.Proofs.GrammarText.RoundTrip

/-! Positional choices of one length agree. The choices that stand in a sequence form columns, and
all of them are taken from one column. So the sequence can be replaced by a group that has one
alternative for each column, and the same is generated. -/

namespace SentenceGrammar

/-- What stands in the column at a position: of a positional choice the atom there, and every other
atom itself. -/
def Atom.column (position : Nat) : Atom → Atom
  | .positional choices => choices[position]?.getD .epsilon
  | atom => atom

def Part.column (position : Nat) (part : Part) : Part :=
  ⟨part.junction, part.atom.column position⟩

def Alternative.columns (width : Nat) (parts : List Part) : List Alternative :=
  (List.range width).map fun position => ⟨none, parts.map (Part.column position)⟩

/-- A sequence with positional choices, all of which have the same number of choices. -/
structure Part.Uniform (width : Nat) (parts : List Part) : Prop where
  present : ∃ part ∈ parts, part.atom.isPositional = true
  each : ∀ part ∈ parts, ∀ choices, part.atom = .positional choices → choices.length = width

/-- Alternatives with the same label. The second one has the parts of the first one, changed within,
or it has the group of their columns as its only part. -/
inductive Alternative.Columned (atoms : Atom → Atom → Prop) : Alternative → Alternative → Prop where
  | kept {label : Option Label} {parts others : List Part}
    (inside : List.Forall₂ (Part.Matches atoms) parts others) :
    Columned atoms ⟨label, parts⟩ ⟨label, others⟩
  | columns {label : Option Label} {parts others : List Part} {width : Nat}
    (uniform : Part.Uniform width parts)
    (inside : List.Forall₂ (Part.Matches atoms) parts others) :
    Columned atoms ⟨label, parts⟩ ⟨label, [.spaced (.group (Alternative.columns width others) [])]⟩

/-- Atoms that are the same but for alternatives with positional choices, any number of which are
replaced by the groups of their columns, at any depth. -/
inductive Atom.Columned : Atom → Atom → Prop where
  | terminal {text : String} : Columned (.terminal text) (.terminal text)
  | reference {symbol : Symbol} {chain : Chain} :
    Columned (.reference symbol chain) (.reference symbol chain)
  | group {alternatives others : List Alternative} {chain : Chain}
    (inside : List.Forall₂ (Alternative.Columned Columned) alternatives others) :
    Columned (.group alternatives chain) (.group others chain)
  | positional {choices others : List Atom} (each : List.Forall₂ Columned choices others) :
    Columned (.positional choices) (.positional others)
  | epsilon : Columned .epsilon .epsilon

abbrev Alternative.ListColumned : List Alternative → List Alternative → Prop :=
  List.Forall₂ (Alternative.Columned Atom.Columned)

abbrev Part.ListColumned : List Part → List Part → Prop :=
  List.Forall₂ (Part.Matches Atom.Columned)

structure Grammar.Columned (grammar columned : Grammar) : Prop where
  start : grammar.start = columned.start
  rules : ∀ symbol,
    Option.Rel Alternative.ListColumned (grammar.lookup symbol) (columned.lookup symbol)

theorem exists_getElem?_of_forall₂ {α β : Type} {related : α → β → Prop} {first : List α}
    {second : List β} (each : List.Forall₂ related first second) {position : Nat} {value : α}
    (taken : first[position]? = some value) :
    ∃ other, second[position]? = some other ∧ related value other := by
  induction each generalizing position with
  | nil => cases taken
  | @cons _ other _ _ here _ ih =>
    cases position with
    | zero =>
      cases taken
      exact ⟨other, rfl, here⟩
    | succ position => exact ih taken

theorem exists_mem_of_forall₂ {α β : Type} {related : α → β → Prop} {first : List α}
    {second : List β} (each : List.Forall₂ related first second) {value : α}
    (member : value ∈ first) : ∃ other ∈ second, related value other := by
  obtain ⟨position, taken⟩ := List.mem_iff_getElem?.mp member
  obtain ⟨other, there, here⟩ := exists_getElem?_of_forall₂ each taken
  exact ⟨other, List.mem_of_getElem? there, here⟩

section Change

variable {atom other : Atom} {parts others : List Part} {width : Nat}

theorem Atom.Columned.isPositional_eq (same : Atom.Columned atom other) :
    other.isPositional = atom.isPositional := by
  cases same <;> rfl

theorem Atom.Columned.firstWidth_eq (same : Atom.Columned atom other) :
    Atom.firstWidth [other] = Atom.firstWidth [atom] := by
  cases same with
  | positional each =>
    cases each with
    | nil => rfl
    | cons _ later => simp [firstWidth, later.length_eq]
  | terminal | reference | group | epsilon => rfl

theorem Part.ListColumned.firstWidth_eq (same : Part.ListColumned parts others) :
    Atom.firstWidth (others.map Part.atom) = Atom.firstWidth (parts.map Part.atom) := by
  induction same with
  | nil => rfl
  | cons here _ ih =>
    obtain ⟨related⟩ := here
    refine (Atom.firstWidth_cons _ _).trans (Eq.trans ?_ (Atom.firstWidth_cons _ _).symm)
    rw [ih, related.firstWidth_eq]

theorem Atom.Columned.column (same : Atom.Columned atom other) (position : Nat) :
    Atom.Columned (atom.column position) (other.column position) := by
  cases same with
  | @positional choices others each =>
    simp only [Atom.column]
    cases taken : choices[position]? with
    | some choice =>
      obtain ⟨another, there, related⟩ := exists_getElem?_of_forall₂ each taken
      rw [there]
      exact related
    | none =>
      rw [List.getElem?_eq_none_iff, each.length_eq, ← List.getElem?_eq_none_iff] at taken
      rw [taken]
      exact .epsilon
  | terminal => exact .terminal
  | reference => exact .reference
  | group inside => exact .group inside
  | epsilon => exact .epsilon

theorem Part.ListColumned.column (same : Part.ListColumned parts others) (position : Nat) :
    Part.ListColumned (parts.map (Part.column position)) (others.map (Part.column position)) := by
  refine List.forall₂_map_left_iff.mpr (List.forall₂_map_right_iff.mpr (same.imp ?_))
  rintro _ _ ⟨related⟩
  exact ⟨related.column position⟩

theorem Part.ListColumned.columns (same : Part.ListColumned parts others) (width : Nat) :
    Alternative.ListColumned (Alternative.columns width parts) (Alternative.columns width others) :=
  List.forall₂_map_left_iff.mpr (List.forall₂_map_right_iff.mpr
    (List.forall₂_same.mpr fun position _ => .kept (same.column position)))

end Change

/-- Positional choices that have so many simple atoms to choose from, and at least one. -/
structure Part.Columnar (width : Nat) (parts : List Part) : Prop where
  positive : 0 < width
  length : ∀ part ∈ parts, ∀ choices, part.atom = .positional choices → choices.length = width
  single : ∀ part ∈ parts, ∀ choices, part.atom = .positional choices →
    ∀ choice ∈ choices, choice.isPositional = false

namespace Part

variable {parts others : List Part} {width : Nat}

theorem Uniform.columnar (uniform : Uniform width parts)
    (each : ∀ part ∈ parts, part.atom.WellFormed) : Columnar width parts where
  positive := by
    obtain ⟨part, member, positional⟩ := uniform.present
    have wellFormed := each part member
    cases same : part.atom with
    | positional choices =>
      rw [same] at wellFormed
      obtain ⟨several, _⟩ := Atom.wellFormed_positional.mp wellFormed
      rw [uniform.each part member choices same] at several
      exact Nat.lt_of_lt_of_le Nat.two_pos several
    | terminal | reference | group | epsilon =>
      rw [same] at positional
      cases positional
  length := uniform.each
  single part member choices same choice inside := by
    have wellFormed := each part member
    rw [same] at wellFormed
    exact ((Atom.wellFormed_positional.mp wellFormed).2 choice inside).single

theorem Columnar.of_listColumned (columnar : Columnar width parts)
    (same : ListColumned parts others) : Columnar width others := by
  have origin : ∀ other ∈ others, ∀ choices, other.atom = .positional choices →
      ∃ part ∈ parts, ∃ originals, part.atom = .positional originals ∧
        List.Forall₂ Atom.Columned originals choices := by
    intro other member choices positional
    obtain ⟨part, there, ⟨related⟩⟩ := exists_mem_of_forall₂ same.flip member
    cases positional
    cases related with
    | positional each => exact ⟨_, there, _, rfl, each⟩
  refine ⟨columnar.positive, fun other member choices positional => ?_,
    fun other member choices positional choice inside => ?_⟩
  · obtain ⟨part, there, originals, here, each⟩ := origin other member choices positional
    exact each.length_eq.symm.trans (columnar.length part there originals here)
  · obtain ⟨part, there, originals, here, each⟩ := origin other member choices positional
    obtain ⟨original, within, related⟩ := exists_mem_of_forall₂ each.flip inside
    rw [Atom.Columned.isPositional_eq related]
    exact columnar.single part there originals here original within

theorem Columnar.tail {part : Part} (columnar : Columnar width (part :: parts)) :
    Columnar width parts where
  positive := columnar.positive
  length other member := columnar.length other (List.mem_cons_of_mem _ member)
  single other member := columnar.single other (List.mem_cons_of_mem _ member)

end Part

section Derivations

variable {grammar : Grammar} {limit depth slot position width : Nat} {active : ActiveLabels}
  {parts : List Part} {signals : List Signal}

theorem Derives.mono {derivand : Derivand}
    (derivation : Derives grammar limit depth active derivand signals) :
    ∀ {limitToo depthToo : Nat}, limit - depth ≤ limitToo - depthToo →
      Derives grammar limitToo depthToo active derivand signals := by
  induction derivation with
  | picked room member admitted fits _ ih =>
    exact fun enough => .picked (by omega) member admitted fits (ih (by omega))
  | noneAdmitted room excluded => exact fun enough => .noneAdmitted (by omega) excluded
  | nil => exact fun _ => .nil
  | cons _ _ first others => exact fun enough => .cons (first enough) (others enough)
  | terminal => exact fun _ => .terminal
  | reference defined selected _ ih => exact fun enough => .reference defined selected (ih enough)
  | group selected _ ih => exact fun enough => .group selected (ih enough)
  | noChoice => exact fun _ => .noChoice
  | choice taken fits _ ih => exact fun enough => .choice taken fits (ih enough)
  | epsilon => exact fun _ => .epsilon

/-- Only positional choices look at the slot. -/
theorem Derives.change_slot {atom : Atom} (single : atom.isPositional = false)
    (derivation : Derives grammar limit depth active (.atom slot atom) signals) (another : Nat) :
    Derives grammar limit depth active (.atom another atom) signals := by
  cases derivation with
  | terminal => exact .terminal
  | reference defined selected expansion => exact .reference defined selected expansion
  | group selected expansion => exact .group selected expansion
  | noChoice => cases single
  | choice => cases single
  | epsilon => exact .epsilon

theorem Atom.firstWidth_of_single {atom : Atom} (single : atom.isPositional = false) :
    Atom.firstWidth [atom] = none := by
  cases atom with
  | positional => cases single
  | terminal | reference | group | epsilon => rfl

theorem Atom.slotFits_single {atom : Atom} (single : atom.isPositional = false) (slot : Nat) :
    Atom.SlotFits slot [atom] := by
  simp [Atom.SlotFits, Atom.firstWidth_of_single single]

section Column

variable {part : Part} (columnar : Part.Columnar width (part :: parts)) (inside : position < width)
include columnar inside

theorem Part.Columnar.isPositional_column : (part.atom.column position).isPositional = false := by
  cases same : part.atom with
  | positional choices =>
    have within : position < choices.length :=
      columnar.length part List.mem_cons_self choices same ▸ inside
    rw [Atom.column, List.getElem?_eq_getElem within]
    exact columnar.single part List.mem_cons_self choices same _ (List.getElem_mem within)
  | terminal | reference | group | epsilon => rfl

theorem Part.Columnar.derives_atom (another : Nat) :
    Derives grammar limit depth active (.atom position part.atom) signals ↔
      Derives grammar limit depth active (.atom another (part.atom.column position)) signals := by
  have single := columnar.isPositional_column inside
  cases same : part.atom with
  | positional choices =>
    have within : position < choices.length :=
      columnar.length part List.mem_cons_self choices same ▸ inside
    have taken : choices[position]? = some choices[position] := List.getElem?_eq_getElem within
    rw [same, Atom.column, taken, Option.getD_some] at single
    rw [Atom.column, taken, Option.getD_some]
    constructor
    · intro derivation
      cases derivation with
      | noChoice => cases within
      | choice chosen fits expansion =>
        rw [Nat.mod_eq_of_lt within, taken] at chosen
        cases chosen
        exact expansion.change_slot single another
    · intro derivation
      refine .choice ?_ (Atom.slotFits_single single another) derivation
      rw [Nat.mod_eq_of_lt within, taken]
  | terminal | reference | group | epsilon =>
    exact ⟨fun derivation => derivation.change_slot rfl another,
      fun derivation => derivation.change_slot rfl position⟩

end Column

theorem Part.Columnar.derives_sequence (columnar : Part.Columnar width parts)
    (inside : position < width) (another : Nat) :
    Derives grammar limit depth active (.sequence position parts) signals ↔
      Derives grammar limit depth active (.sequence another (parts.map (Part.column position)))
        signals := by
  induction parts generalizing signals with
  | nil =>
    constructor
    · intro derivation
      cases derivation
      exact .nil
    · intro derivation
      cases derivation
      exact .nil
  | cons part later ih =>
    have first : ∀ emitted, Derives grammar limit depth active (.atom position part.atom) emitted ↔
        Derives grammar limit depth active (.atom another (part.column position).atom) emitted :=
      fun _ => columnar.derives_atom inside another
    constructor
    · intro derivation
      cases derivation with
      | cons here others =>
        exact .cons ((first _).mp here) ((ih columnar.tail).mp others)
    · intro derivation
      cases derivation with
      | cons here others => exact .cons ((first _).mpr here) ((ih columnar.tail).mpr others)

theorem Part.Columnar.slotFits_column (columnar : Part.Columnar width parts)
    (inside : position < width) (slot : Nat) :
    Atom.SlotFits slot ((parts.map (Part.column position)).map Part.atom) := by
  induction parts with
  | nil => exact nofun
  | cons part later ih =>
    have single := columnar.isPositional_column inside
    exact (Atom.slotFits_cons_of_none (Atom.firstWidth_of_single single)).mpr (ih columnar.tail)

theorem Part.Columnar.exists_slot (columnar : Part.Columnar width parts)
    (derivation : Derives grammar limit depth active
      (.sequence slot [.spaced (.group (Alternative.columns width parts) [])]) signals) :
    ∃ position < width,
      Derives grammar limit (depth + 1) active (.sequence position parts) signals := by
  cases derivation with
  | cons first others =>
    cases others
    cases first with
    | group selected expansion =>
      cases selected
      cases expansion with
      | picked _ member _ fits sequence =>
        obtain ⟨position, listed, rfl⟩ := List.mem_map.mp member
        have inside := List.mem_range.mp listed
        refine ⟨position, inside, ?_⟩
        simpa [Part.spaced, Junction.signals] using
          (columnar.derives_sequence inside _).mpr sequence
      | noneAdmitted _ excluded =>
        have listed := List.mem_map_of_mem (f := fun position =>
          Alternative.mk none (parts.map (Part.column position)))
          (List.mem_range.mpr columnar.positive)
        cases excluded _ listed

theorem Part.Columnar.derives_columns (columnar : Part.Columnar width parts) (room : depth < limit)
    (inside : position < width)
    (derivation : Derives grammar limit (depth + 1) active (.sequence position parts) signals) :
    Derives grammar limit depth active
      (.sequence slot [.spaced (.group (Alternative.columns width parts) [])]) signals := by
  have column := (columnar.derives_sequence inside 0).mp derivation
  have picked : Derives grammar limit depth active (.oneOf (Alternative.columns width parts))
      signals :=
    .picked room (List.mem_map_of_mem (List.mem_range.mpr inside)) rfl
      (columnar.slotFits_column inside 0) column
  have derived : Derives grammar limit depth active
      (.sequence slot [.spaced (.group (Alternative.columns width parts) [])]) _ :=
    .cons (.group (.nil active) picked) .nil
  simpa [Part.spaced, Junction.signals] using derived

end Derivations

section WellFormed

variable {parts : List Part} {width : Nat}

theorem Atom.WellFormed.column {atom : Atom} (wellFormed : atom.WellFormed) (position : Nat) :
    (atom.column position).WellFormed := by
  cases wellFormed with
  | @positional choices several simple inside =>
    simp only [Atom.column]
    cases taken : choices[position]? with
    | none => exact .epsilon
    | some choice => exact inside choice (List.mem_of_getElem? taken)
  | terminal text => exact .terminal text
  | reference named chained => exact .reference named chained
  | group nonempty labelled filled inside chained =>
    exact .group nonempty labelled filled inside chained
  | epsilon => exact .epsilon

theorem Part.Uniform.wellFormed_columns (uniform : Part.Uniform width parts)
    (each : ∀ part ∈ parts, part.atom.WellFormed) :
    (Atom.group (Alternative.columns width parts) []).WellFormed := by
  have positive := (uniform.columnar each).positive
  refine Atom.wellFormed_group.mpr ⟨⟨?_, List.forall_mem_map.mpr fun position _ => ?_⟩,
    Chain.wellFormed_nil⟩
  · simpa [Alternative.columns] using Nat.ne_of_gt positive
  · obtain ⟨part, member, _⟩ := uniform.present
    exact ⟨nofun, by simpa using List.ne_nil_of_mem member,
      List.forall_mem_map.mpr fun part listed => (each part listed).column position⟩

theorem Part.Uniform.firstWidth (uniform : Part.Uniform width parts) (positive : 0 < width) :
    Atom.firstWidth (parts.map Part.atom) = some width := by
  obtain ⟨⟨part, member, positional⟩, each⟩ := uniform
  induction parts with
  | nil => cases member
  | cons first later ih =>
    rw [List.map_cons, Atom.firstWidth_cons]
    cases same : first.atom with
    | positional choices =>
      have length := each first List.mem_cons_self choices same
      cases choices with
      | nil => exact absurd length (Nat.ne_of_lt positive)
      | cons choice others =>
        subst length
        rfl
    | terminal | reference | group | epsilon =>
      have there : part ∈ later := by
        refine (List.mem_cons.mp member).resolve_left fun here => ?_
        rw [here, same] at positional
        cases positional
      exact ih (fun other listed => each other (List.mem_cons_of_mem _ listed)) there

end WellFormed

/-- Derivands of which the first one can be written, and the second one is the same but for
alternatives that are replaced. -/
inductive Derivand.Columned : Derivand → Derivand → Prop where
  | oneOf {alternatives others : List Alternative}
    (same : Alternative.ListColumned alternatives others)
    (each : ∀ alternative ∈ alternatives, alternative.WellFormed) :
    Columned (.oneOf alternatives) (.oneOf others)
  | sequence {slot : Nat} {parts others : List Part} (same : Part.ListColumned parts others)
    (each : ∀ part ∈ parts, part.atom.WellFormed) :
    Columned (.sequence slot parts) (.sequence slot others)
  | atom {slot : Nat} {atom other : Atom} (same : Atom.Columned atom other)
    (wellFormed : atom.WellFormed) : Columned (.atom slot atom) (.atom slot other)

theorem Alternative.Columned.label_eq {alternative other : Alternative}
    (same : Alternative.Columned Atom.Columned alternative other) :
    other.label = alternative.label := by
  cases same <;> rfl

namespace Grammar.Columned

variable {grammar columned : Grammar}

theorem exists_lookup (same : grammar.Columned columned) {symbol : Symbol}
    {alternatives : List Alternative} (defined : grammar.lookup symbol = some alternatives) :
    ∃ others, columned.lookup symbol = some others ∧
      Alternative.ListColumned alternatives others := by
  have rules := same.rules symbol
  generalize columned.lookup symbol = found at rules ⊢
  rw [defined] at rules
  cases rules with
  | some inside => exact ⟨_, rfl, inside⟩

theorem exists_lookup_flip (same : grammar.Columned columned) {symbol : Symbol}
    {others : List Alternative} (defined : columned.lookup symbol = some others) :
    ∃ alternatives, grammar.lookup symbol = some alternatives ∧
      Alternative.ListColumned alternatives others := by
  have rules := same.rules symbol
  generalize grammar.lookup symbol = found at rules ⊢
  rw [defined] at rules
  cases rules with
  | some inside => exact ⟨_, rfl, inside⟩

variable {limit depth : Nat} {active : ActiveLabels} {derivand : Derivand} {signals : List Signal}

theorem wellFormed_lookup (wellFormed : grammar.WellFormed) {symbol : Symbol}
    {alternatives : List Alternative} (defined : grammar.lookup symbol = some alternatives) :
    ∀ alternative ∈ alternatives, alternative.WellFormed :=
  (wellFormed.ruled _ (Rules.mem_of_find defined)).each

/-- With twice the room everything can still be derived. -/
theorem derives (same : grammar.Columned columned) (wellFormed : grammar.WellFormed)
    (derivation : Derives grammar limit depth active derivand signals) :
    ∀ {limitToo depthToo : Nat} {other : Derivand}, derivand.Columned other →
      2 * (limit - depth) ≤ limitToo - depthToo →
      Derives columned limitToo depthToo active other signals := by
  induction derivation with
  | @picked depth active alternatives alternative slot signals room member admitted fits _ ih =>
    intro limitToo depthToo _ related enough
    cases related with
    | oneOf listed each =>
      obtain ⟨other, there, here⟩ := exists_mem_of_forall₂ listed member
      have inside := (each alternative member).inside
      have admittedToo := here.label_eq ▸ admitted
      cases here with
      | kept parts =>
        refine .picked (by omega) there admittedToo ?_ (ih (.sequence parts inside) (by omega))
        rw [Atom.SlotFits, Part.ListColumned.firstWidth_eq parts]
        exact fits
      | columns uniform parts =>
        -- The slot is the column that is picked. The group is one level deeper than the sequence.
        have columnar := uniform.columnar inside
        have within := fits _ (uniform.firstWidth columnar.positive)
        have group : Derives columned limitToo (depthToo + 1) active (.sequence 0 _) signals :=
          (columnar.of_listColumned parts).derives_columns (by omega) within
            (ih (.sequence parts inside) (by omega))
        exact .picked (by omega) there admittedToo (Atom.slotFits_single rfl 0) group
  | @noneAdmitted depth active alternatives room excluded =>
    intro limitToo depthToo _ related enough
    cases related with
    | oneOf listed each =>
      refine .noneAdmitted (by omega) fun other there => ?_
      obtain ⟨alternative, member, here⟩ := exists_mem_of_forall₂ listed.flip there
      exact here.label_eq ▸ excluded alternative member
  | nil =>
    intro limitToo depthToo _ related enough
    cases related with
    | sequence parts => cases parts; exact .nil
  | cons _ _ first others =>
    intro limitToo depthToo _ related enough
    cases related with
    | sequence parts each =>
      obtain ⟨here, later⟩ := List.forall_mem_cons.mp each
      cases parts with
      | cons part parts =>
        obtain ⟨atoms⟩ := part
        exact .cons (first (.atom atoms here) enough) (others (.sequence parts later) enough)
  | terminal =>
    intro limitToo depthToo _ related enough
    cases related with
    | atom atoms => cases atoms; exact .terminal
  | reference defined selected _ ih =>
    intro limitToo depthToo _ related enough
    cases related with
    | atom atoms =>
      cases atoms
      obtain ⟨others, definedToo, listed⟩ := same.exists_lookup defined
      exact .reference definedToo selected
        (ih (.oneOf listed (wellFormed_lookup wellFormed defined)) enough)
  | group selected _ ih =>
    intro limitToo depthToo _ related enough
    cases related with
    | atom atoms single =>
      cases atoms with
      | group listed =>
        exact .group selected (ih (.oneOf listed (Atom.wellFormed_group.mp single).1.each) enough)
  | noChoice =>
    intro limitToo depthToo _ related enough
    cases related with
    | atom atoms =>
      cases atoms with
      | positional each => cases each; exact .noChoice
  | choice taken fits _ ih =>
    intro limitToo depthToo _ related enough
    cases related with
    | atom atoms single =>
      cases atoms with
      | positional each =>
        obtain ⟨other, there, here⟩ := exists_getElem?_of_forall₂ each taken
        have simple := (Atom.wellFormed_positional.mp single).2 _ (List.mem_of_getElem? taken)
        refine .choice (each.length_eq ▸ there) ?_ (ih (.atom here simple.wellFormed) enough)
        rw [Atom.SlotFits, Atom.Columned.firstWidth_eq here]
        exact fits
  | epsilon =>
    intro limitToo depthToo _ related enough
    cases related with
    | atom atoms => cases atoms; exact .epsilon

/-- With as much room nothing new can be derived. -/
theorem derives_of_columned (same : grammar.Columned columned) (wellFormed : grammar.WellFormed)
    {other : Derivand} (derivation : Derives columned limit depth active other signals) :
    ∀ {limitToo depthToo : Nat} {derivand : Derivand}, derivand.Columned other →
      limit - depth ≤ limitToo - depthToo →
      Derives grammar limitToo depthToo active derivand signals := by
  induction derivation with
  | @picked depth active others other slot signals room there admitted fits _ ih =>
    intro limitToo depthToo _ related enough
    cases related with
    | oneOf listed each =>
      obtain ⟨alternative, member, here⟩ := exists_mem_of_forall₂ listed.flip there
      have inside := (each alternative member).inside
      have admittedToo := here.label_eq ▸ admitted
      cases here with
      | kept parts =>
        refine .picked (by omega) member admittedToo ?_ (ih (.sequence parts inside) (by omega))
        rw [Atom.SlotFits, ← Part.ListColumned.firstWidth_eq parts]
        exact fits
      | @columns _ _ _ width uniform parts =>
        -- The column that was picked is the slot. The level of the group is left over.
        have columnar := uniform.columnar inside
        have group : Part.ListColumned [.spaced (.group (Alternative.columns width _) [])] _ :=
          .cons (.mk (.group (Part.ListColumned.columns parts width))) .nil
        have sequence : Derives grammar limitToo (depthToo + 1) active (.sequence slot _) signals :=
          ih (.sequence group (List.forall_mem_singleton.mpr (uniform.wellFormed_columns inside)))
            (by omega)
        obtain ⟨position, within, derived⟩ := columnar.exists_slot sequence
        refine .picked (by omega) member admittedToo ?_ (derived.mono (by omega))
        rw [Atom.SlotFits, uniform.firstWidth columnar.positive]
        exact fun _ single => Option.some.inj single ▸ within
  | @noneAdmitted depth active others room excluded =>
    intro limitToo depthToo _ related enough
    cases related with
    | oneOf listed each =>
      refine .noneAdmitted (by omega) fun alternative member => ?_
      obtain ⟨other, there, here⟩ := exists_mem_of_forall₂ listed member
      exact here.label_eq ▸ excluded other there
  | nil =>
    intro limitToo depthToo _ related enough
    cases related with
    | sequence parts => cases parts; exact .nil
  | cons _ _ first others =>
    intro limitToo depthToo _ related enough
    cases related with
    | sequence parts each =>
      cases parts with
      | cons part parts =>
        obtain ⟨here, later⟩ := List.forall_mem_cons.mp each
        obtain ⟨atoms⟩ := part
        exact .cons (first (.atom atoms here) enough) (others (.sequence parts later) enough)
  | terminal =>
    intro limitToo depthToo _ related enough
    cases related with
    | atom atoms => cases atoms; exact .terminal
  | reference definedToo selected _ ih =>
    intro limitToo depthToo _ related enough
    cases related with
    | atom atoms =>
      cases atoms
      obtain ⟨alternatives, defined, listed⟩ := same.exists_lookup_flip definedToo
      exact .reference defined selected
        (ih (.oneOf listed (wellFormed_lookup wellFormed defined)) enough)
  | group selected _ ih =>
    intro limitToo depthToo _ related enough
    cases related with
    | atom atoms single =>
      cases atoms with
      | group listed =>
        exact .group selected (ih (.oneOf listed (Atom.wellFormed_group.mp single).1.each) enough)
  | noChoice =>
    intro limitToo depthToo _ related enough
    cases related with
    | atom atoms =>
      cases atoms with
      | positional each => cases each; exact .noChoice
  | choice taken fits _ ih =>
    intro limitToo depthToo _ related enough
    cases related with
    | atom atoms single =>
      cases atoms with
      | positional each =>
        obtain ⟨choice, there, here⟩ := exists_getElem?_of_forall₂ each.flip taken
        have simple := (Atom.wellFormed_positional.mp single).2 _ (List.mem_of_getElem? there)
        refine .choice (each.length_eq ▸ there) ?_ (ih (.atom here simple.wellFormed) enough)
        rw [Atom.SlotFits, ← Atom.Columned.firstWidth_eq here]
        exact fits
  | epsilon =>
    intro limitToo depthToo _ related enough
    cases related with
    | atom atoms => cases atoms; exact .epsilon

end Grammar.Columned

/-- Any number of alternatives with positional choices of one length are each replaced by the group
of their columns, at any depth, in a grammar that was read. What can be generated on some words
within some limit stays the same, whatever labels are active. -/
theorem Grammar.exists_generate_iff_columned {source : String} {start : Symbol}
    {grammar columned : Grammar} (made : ofText source start = .ok grammar)
    (same : grammar.Columned columned) (trim : Bool) (seed : UInt64)
    (scopes : List ActiveLabels) (events : List Event) (text : String) :
    (∃ (limit : Nat) (words : Nat → UInt64) (final : Run (Nat → UInt64)),
      grammar.generate ⟨limit, trim⟩ ⟨seed, words, scopes, events⟩ = .ok text final) ↔
    ∃ (limit : Nat) (words : Nat → UInt64) (final : Run (Nat → UInt64)),
      columned.generate ⟨limit, trim⟩ ⟨seed, words, scopes, events⟩ = .ok text final := by
  have wellFormed := wellFormed_of_ofText made
  have started : Derivand.Columned (.oneOf grammar.startAlternatives)
      (.oneOf columned.startAlternatives) :=
    .oneOf (related_startAlternatives same.start same.rules)
      (Columned.wellFormed_lookup wellFormed grammar.lookup_start)
  rw [exists_generate_iff, exists_generate_iff]
  constructor
  · rintro ⟨limit, signals, derivation, rfl⟩
    exact ⟨2 * limit, signals, same.derives wellFormed derivation started (Nat.le_refl _), rfl⟩
  · rintro ⟨limit, signals, derivation, rfl⟩
    exact ⟨limit, signals, same.derives_of_columned wellFormed derivation started (Nat.le_refl _),
      rfl⟩

theorem Part.listColumned_of_each {parts : List Part}
    (each : ∀ part ∈ parts, Atom.Columned part.atom part.atom) : ListColumned parts parts :=
  List.forall₂_same.mpr fun ⟨_, _⟩ member => .mk (each _ member)

theorem Alternative.columned_of_each {alternatives : List Alternative}
    (each : ∀ alternative ∈ alternatives, ∀ part ∈ alternative.parts,
      Atom.Columned part.atom part.atom) : ListColumned alternatives alternatives :=
  List.forall₂_same.mpr fun ⟨_, _⟩ member =>
    .kept (Part.listColumned_of_each (each _ member))

theorem Atom.columned_refl (atom : Atom) : Atom.Columned atom atom := by
  induction atom using Atom.induction with
  | terminal text => exact .terminal
  | reference name chain => exact .reference
  | group alternatives chain ih => exact .group (Alternative.columned_of_each ih)
  | positional choices ih => exact .positional (List.forall₂_same.mpr ih)
  | epsilon => exact .epsilon

namespace Grammar

/-- An article and an adjective that agree, with a noun between them. -/
def agreement : Grammar :=
  ⟨(Rules.empty.insert ⟨"N"⟩ [⟨none, [.spaced (.terminal "artista")]⟩]).insert ⟨"S"⟩
      [⟨none, [.spaced (.positional [.terminal "un", .terminal "una"]),
        .spaced (.reference ⟨"N"⟩ []),
        .spaced (.positional [.terminal "bravo", .terminal "brava"])]⟩],
    ⟨"S"⟩, by decide⟩

def agreementColumns : Grammar :=
  ⟨agreement.rules.insert ⟨"S"⟩
      [⟨none, [.spaced (.group
        [⟨none, [.spaced (.terminal "un"), .spaced (.reference ⟨"N"⟩ []),
            .spaced (.terminal "bravo")]⟩,
          ⟨none, [.spaced (.terminal "una"), .spaced (.reference ⟨"N"⟩ []),
            .spaced (.terminal "brava")]⟩] [])]⟩],
    ⟨"S"⟩, by decide⟩

theorem columned_agreement : agreement.Columned agreementColumns := by
  refine ⟨rfl, fun symbol => ?_⟩
  have columns : agreementColumns.lookup symbol = if (⟨"S"⟩ : Symbol) = symbol then _ else
      agreement.lookup symbol := Rules.lookup_insert _ _ _ _
  rw [columns]
  split
  · rename_i start
    subst start
    have uniform : Part.Uniform 2 [.spaced (.positional [.terminal "un", .terminal "una"]),
        .spaced (.reference ⟨"N"⟩ []),
        .spaced (.positional [.terminal "bravo", .terminal "brava"])] := by
      refine ⟨⟨_, List.mem_cons_self, rfl⟩, fun part member choices same => ?_⟩
      simp only [List.mem_cons, List.not_mem_nil, or_false] at member
      rcases member with rfl | rfl | rfl <;> cases same <;> rfl
    exact .some (.cons
      (.columns uniform (Part.listColumned_of_each fun _ _ => Atom.columned_refl _)) .nil)
  · cases agreement.lookup symbol with
    | none => exact .none
    | some alternatives =>
      exact .some (Alternative.columned_of_each fun _ _ _ _ => Atom.columned_refl _)

theorem wellFormed_agreement : agreement.WellFormed := by
  have choice : ∀ first second : String,
      (Atom.positional [.terminal first, .terminal second]).WellFormed := by
    refine fun first second => Atom.wellFormed_positional.mpr ⟨Nat.le_refl _, ?_⟩
    exact List.forall_mem_cons.mpr ⟨⟨.terminal _, rfl⟩, List.forall_mem_singleton.mpr
      ⟨.terminal _, rfl⟩⟩
  have noun : (⟨"N"⟩ : Symbol).WellFormed := by decide
  refine ⟨List.forall_mem_cons.mpr ⟨noun, List.forall_mem_singleton.mpr (by decide)⟩,
    List.forall_mem_cons.mpr ⟨.singleton (Alternative.wellFormed_singleton (.terminal _)),
      List.forall_mem_singleton.mpr (.singleton ⟨nofun, List.cons_ne_nil _ _, ?_⟩)⟩⟩
  exact List.forall_mem_cons.mpr ⟨choice _ _, List.forall_mem_cons.mpr
    ⟨.reference noun Chain.wellFormed_nil, List.forall_mem_singleton.mpr (choice _ _)⟩⟩

theorem listText_agreement : Rule.listText .singleSpaces agreement.rules.list =
    "N ::= \"artista\" ; S ::= \"un\" , \"una\" N \"bravo\" , \"brava\" ;" := by
  decide

theorem exists_generate_agreement :
    ofText "N ::= \"artista\" ; S ::= \"un\" , \"una\" N \"bravo\" , \"brava\" ;" ⟨"S"⟩ =
        .ok agreement ∧ agreement.Columned agreementColumns ∧
      (∃ final : Run (Nat → UInt64),
        agreement.generate ⟨2, true⟩ ⟨0, fun _ => 0, [], []⟩ = .ok "un artista bravo" final) ∧
      ∃ (limit : Nat) (words : Nat → UInt64) (final : Run (Nat → UInt64)),
        agreementColumns.generate ⟨limit, true⟩ ⟨0, words, [], []⟩ =
          .ok "un artista bravo" final := by
  have made := ofText_listText wellFormed_agreement .singleSpaces (.refl _)
  rw [listText_agreement] at made
  have text : (Expansion.effect (agreement.generate ⟨2, true⟩)
      (⟨0, fun _ => 0, [], []⟩ : Run (Nat → UInt64))).1 = .ok "un artista bravo" := by
    rw [generate_eq_expandAdmitted]
    rfl
  obtain ⟨final, generated⟩ := Expansion.exists_eq_ok_of_effect text
  exact ⟨made, columned_agreement, ⟨final, generated⟩,
    (exists_generate_iff_columned made columned_agreement true 0 [] [] "un artista bravo").mp
      ⟨2, _, final, generated⟩⟩

end Grammar

end SentenceGrammar
