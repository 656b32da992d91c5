import Mathlib.Data.List.Forall2
import SentenceGrammar.Proofs.Generation.Language
import SentenceGrammar.Proofs.GrammarText.Derivation

/-! Alternatives of one grammar that can be exchanged for alternatives of another one. What the ones
write with some room for nesting the others write with enough room. To splice alternatives into a
sequence, or to put them there as a group or a reference, makes no difference to what is written. -/

namespace SentenceGrammar

variable {atoms others : Atom → (Line → Line) → Prop}

/-- A glue on a glue does nothing, so what stands behind a junction is written after it. -/
theorem Alternative.writes_behind {alternative : Alternative} (filled : alternative.parts ≠ [])
    {junction : Junction} {change : Line → Line} :
    Part.Writes atoms (alternative.behind junction).parts change ↔
      ∃ own, Part.Writes atoms alternative.parts own ∧
        change = own ∘ Signal.change junction.signals := by
  obtain ⟨label, _ | ⟨⟨first, atom⟩, rest⟩⟩ := alternative
  · exact absurd rfl filled
  cases junction with
  | space => simp [behind, Junction.signals]
  | glue =>
    have twice : ∀ change : Line → Line, (change ∘ Signal.change first.signals) ∘
        Signal.change Junction.glue.signals = change ∘ Signal.change Junction.glue.signals := by
      intro change
      cases first <;> rfl
    simp only [behind, Part.writes_cons]
    constructor
    · rintro ⟨here, after, writes, later, rfl⟩
      exact ⟨_, ⟨here, after, writes, later, rfl⟩, (twice (after ∘ here)).symm⟩
    · rintro ⟨_, ⟨here, after, writes, later, rfl⟩, rfl⟩
      exact ⟨here, after, writes, later, twice (after ∘ here)⟩

/-- Whatever any of some alternatives writes, any of the others may write, too, if atoms are read in
another way. -/
def Alternative.Covers (atoms others : Atom → (Line → Line) → Prop)
    (alternatives replacing : List Alternative) : Prop :=
  ∀ alternative ∈ alternatives, ∀ change, Part.Writes atoms alternative.parts change →
    ∃ other ∈ replacing, Part.Writes others other.parts change

namespace Alternative.Covers

theorem append {first second later last : List Alternative}
    (before : Covers atoms others first second) (after : Covers atoms others later last) :
    Covers atoms others (first ++ later) (second ++ last) := by
  intro alternative member change writes
  rcases List.mem_append.mp member with here | there
  · obtain ⟨other, offered, covered⟩ := before alternative here change writes
    exact ⟨other, List.mem_append_left _ offered, covered⟩
  · obtain ⟨other, offered, covered⟩ := after alternative there change writes
    exact ⟨other, List.mem_append_right _ offered, covered⟩

theorem singleton {junction : Junction} {atom other : Atom}
    (covers : ∀ change, atoms atom change → others other change) :
    Covers atoms others [⟨none, [⟨junction, atom⟩]⟩] [⟨none, [⟨junction, other⟩]⟩] := by
  intro alternative member change writes
  obtain rfl := List.mem_singleton.mp member
  obtain ⟨here, own, rfl⟩ := Part.writes_singleton.mp writes
  exact ⟨_, List.mem_singleton_self _, Part.writes_singleton.mpr ⟨here, covers here own, rfl⟩⟩

theorem selection {options replacing : List (List Alternative)}
    (each : List.Forall₂ (Covers atoms others) options replacing) {chosen : List Alternative}
    (member : chosen ∈ selections options) {change : Line → Line}
    (writes : Part.Writes atoms (chosen.flatMap parts) change) :
    ∃ other ∈ selections replacing, Part.Writes others (other.flatMap parts) change := by
  induction each generalizing chosen change with
  | nil =>
    obtain rfl := List.mem_singleton.mp member
    exact ⟨[], List.mem_singleton_self _, Part.writes_nil.mpr (Part.writes_nil.mp writes)⟩
  | cons covers _ ih =>
    obtain ⟨alternative, here, later⟩ := List.mem_flatMap.mp member
    obtain ⟨rest, there, rfl⟩ := List.mem_map.mp later
    rw [List.flatMap_cons] at writes
    obtain ⟨before, after, own, more, rfl⟩ := Part.writes_append.mp writes
    obtain ⟨other, offered, covered⟩ := covers alternative here before own
    obtain ⟨others, listed, last⟩ := ih there more
    refine ⟨other :: others, ?_, ?_⟩
    · exact List.mem_flatMap.mpr ⟨other, offered, List.mem_map_of_mem listed⟩
    · rw [List.flatMap_cons]
      exact Part.writes_append.mpr ⟨before, after, covered, last, rfl⟩

theorem rows {label another : Option Label} {options replacing : List (List Alternative)}
    (each : List.Forall₂ (Covers atoms others) options replacing) :
    Covers atoms others ((selections options).map (row label))
      ((selections replacing).map (row another)) := by
  intro alternative member change writes
  obtain ⟨chosen, selected, rfl⟩ := List.mem_map.mp member
  obtain ⟨other, offered, covered⟩ := selection each selected writes
  exact ⟨_, List.mem_map_of_mem offered, covered⟩

variable {grammar folded : Grammar}

theorem mayWrite {room : Nat} {alternatives replacing : List Alternative} {chain another : Chain}
    {atom other : Atom} (opening : atom.opening grammar = some (alternatives, chain))
    (openingToo : other.opening folded = some (replacing, another))
    (inside : ∀ less < room,
      Covers (Atom.WritesWithin grammar less) (Atom.MayWrite folded) alternatives replacing)
    {change : Line → Line} (writes : atom.WritesWithin grammar room change) :
    other.MayWrite folded change := by
  obtain ⟨less, lower, alternative, member, parts⟩ := Atom.exists_of_writesWithin opening writes
  obtain ⟨found, offered, covered⟩ := inside less lower alternative member change parts
  exact Atom.mayWrite_of_opening openingToo offered covered

theorem splice {alternatives : List Alternative} (filled : ∀ alternative ∈ alternatives,
      alternative.parts ≠ []) {junction : Junction} {atom : Atom}
    (covers : ∀ alternative ∈ alternatives, ∀ change,
      Part.Writes atoms alternative.parts change → others atom change) :
    Covers atoms others (alternatives.map (behind junction)) [⟨none, [⟨junction, atom⟩]⟩] := by
  intro alternative member change writes
  obtain ⟨chosen, offered, rfl⟩ := List.mem_map.mp member
  obtain ⟨own, here, rfl⟩ := (writes_behind (filled chosen offered)).mp writes
  exact ⟨_, List.mem_singleton_self _,
    Part.writes_singleton.mpr ⟨own, covers chosen offered own here, rfl⟩⟩

theorem gather {alternatives : List Alternative} (filled : ∀ alternative ∈ alternatives,
      alternative.parts ≠ []) {junction : Junction} {atom : Atom}
    (covers : ∀ change, atoms atom change →
      ∃ alternative ∈ alternatives, Part.Writes others alternative.parts change) :
    Covers atoms others [⟨none, [⟨junction, atom⟩]⟩] (alternatives.map (behind junction)) := by
  intro alternative member change writes
  obtain rfl := List.mem_singleton.mp member
  obtain ⟨own, here, rfl⟩ := Part.writes_singleton.mp writes
  obtain ⟨chosen, offered, covered⟩ := covers own here
  exact ⟨_, List.mem_map_of_mem offered,
    (writes_behind (filled chosen offered)).mpr ⟨own, covered, rfl⟩⟩

end Alternative.Covers

variable {grammar folded : Grammar} {room : Nat}

/-- Alternatives of two grammars of which each cover what the others write within some room. -/
structure Alternative.Exchange (grammar folded : Grammar) (room : Nat)
    (alternatives others : List Alternative) : Prop where
  forth : Covers (Atom.WritesWithin grammar room) (Atom.MayWrite folded) alternatives others
  back : Covers (Atom.WritesWithin folded room) (Atom.MayWrite grammar) others alternatives

/-- Atoms of two grammars of which each may write what the other one writes within some room. -/
structure Atom.Exchange (grammar folded : Grammar) (room : Nat) (atom other : Atom) : Prop where
  forth : ∀ change, atom.WritesWithin grammar room change → other.MayWrite folded change
  back : ∀ change, other.WritesWithin folded room change → atom.MayWrite grammar change

namespace Atom

theorem exchange_terminal (text : String) :
    Exchange grammar folded room (.terminal text) (.terminal text) := by
  have same : ∀ {first second : Grammar} change, (terminal text).WritesWithin first room change →
      (terminal text).MayWrite second change := by
    intro first second change writes
    cases writes with
    | terminal => exact ⟨0, .terminal⟩
    | opened opening => cases opening
  exact ⟨same, same⟩

theorem exchange_epsilon : Exchange grammar folded room .epsilon .epsilon := by
  have same : ∀ {first second : Grammar} change, epsilon.WritesWithin first room change →
      epsilon.MayWrite second change := by
    intro first second change writes
    cases writes with
    | epsilon => exact ⟨0, .epsilon⟩
    | opened opening => cases opening
  exact ⟨same, same⟩

theorem exchange_of_opening {alternatives others : List Alternative} {chain another : Chain}
    {atom other : Atom} (opening : atom.opening grammar = some (alternatives, chain))
    (openingToo : other.opening folded = some (others, another))
    (inside : ∀ less < room, Alternative.Exchange grammar folded less alternatives others) :
    Exchange grammar folded room atom other where
  forth _ := Alternative.Covers.mayWrite opening openingToo fun less lower =>
    (inside less lower).forth
  back _ := Alternative.Covers.mayWrite openingToo opening fun less lower =>
    (inside less lower).back

theorem exchange_reference {symbol : Symbol} (chain : Chain)
    (rules : (grammar.lookup symbol = none ∧ folded.lookup symbol = none) ∨
      ∃ alternatives others, grammar.lookup symbol = some alternatives ∧
        folded.lookup symbol = some others ∧
        ∀ less < room, Alternative.Exchange grammar folded less alternatives others) :
    Exchange grammar folded room (.reference symbol chain) (.reference symbol chain) := by
  rcases rules with ⟨missing, missingToo⟩ | ⟨alternatives, others, defined, definedToo, inside⟩
  · have silent : ∀ {grammar : Grammar} change, grammar.lookup symbol = none →
        ¬(reference symbol chain).WritesWithin grammar room change := by
      intro grammar change missing writes
      cases writes with
      | opened opens =>
        rw [Atom.opening, missing] at opens
        cases opens
    exact ⟨fun change writes => absurd writes (silent change missing),
      fun change writes => absurd writes (silent change missingToo)⟩
  · have opens : (reference symbol chain).opening grammar = some (alternatives, chain) := by
      rw [Atom.opening, defined, Option.map_some]
    have opensToo : (reference symbol chain).opening folded = some (others, chain) := by
      rw [Atom.opening, definedToo, Option.map_some]
    exact exchange_of_opening opens opensToo inside

end Atom

namespace Alternative.Exchange

theorem append {first later second last : List Alternative}
    (before : Exchange grammar folded room first second)
    (after : Exchange grammar folded room later last) :
    Exchange grammar folded room (first ++ later) (second ++ last) :=
  ⟨before.forth.append after.forth, before.back.append after.back⟩

theorem singleton {junction : Junction} {atom other : Atom}
    (atoms : Atom.Exchange grammar folded room atom other) :
    Exchange grammar folded room [⟨none, [⟨junction, atom⟩]⟩] [⟨none, [⟨junction, other⟩]⟩] :=
  ⟨.singleton atoms.forth, .singleton atoms.back⟩

theorem nothing : Exchange grammar folded room [Alternative.nothing] [Alternative.nothing] :=
  singleton Atom.exchange_epsilon

theorem rows {label another : Option Label} {options others : List (List Alternative)}
    (each : List.Forall₂ (Exchange grammar folded room) options others) :
    Exchange grammar folded room ((selections options).map (row label))
      ((selections others).map (row another)) :=
  ⟨.rows (each.imp fun _ _ exchange => exchange.forth),
    .rows (each.flip.imp fun _ _ exchange => exchange.back)⟩

theorem splice {alternatives others : List Alternative} {chain : Chain} {atom : Atom}
    (filled : ∀ alternative ∈ alternatives, alternative.parts ≠ []) (junction : Junction)
    (opening : atom.opening folded = some (others, chain))
    (here : Exchange grammar folded room alternatives others)
    (inside : ∀ less < room, Exchange grammar folded less alternatives others) :
    Exchange grammar folded room (alternatives.map (behind junction))
      [⟨none, [⟨junction, atom⟩]⟩] := by
  refine ⟨.splice filled fun alternative member change writes => ?_, .gather filled ?_⟩
  · obtain ⟨other, offered, covered⟩ := here.forth alternative member change writes
    exact Atom.mayWrite_of_opening opening offered covered
  · intro change writes
    obtain ⟨less, lower, other, member, parts⟩ := Atom.exists_of_writesWithin opening writes
    exact (inside less lower).back other member change parts

end Alternative.Exchange

end SentenceGrammar
