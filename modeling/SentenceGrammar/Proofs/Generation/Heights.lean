import Mathlib.Data.List.Chain
import SentenceGrammar.Proofs.Generation.Faults

/-! How deep expansions nest. One that exceeds the limit has come down as many levels of
alternatives, each opened by a reference or a group of the one above it. The height of alternatives
bounds how far down that can go, so a grammar whose height is within the limit always generates. -/

namespace SentenceGrammar

variable {σ : Type}

/-- The alternatives that a reference or a group opens are opened by every positional choice that
has it among its choices, at any depth of such choices. -/
inductive Atom.Opens (grammar : Grammar) (inner : List Alternative) : Atom → Prop where
  | here {atom : Atom} {chain : Chain} (opening : atom.opening grammar = some (inner, chain)) :
    Opens grammar inner atom
  | choice {choices : List Atom} {choice : Atom} (member : choice ∈ choices)
    (opens : Opens grammar inner choice) : Opens grammar inner (.positional choices)

/-- Alternatives of a reference or a group that occurs in one of the outer alternatives. -/
def Alternative.Nests (grammar : Grammar) (outer inner : List Alternative) : Prop :=
  ∃ alternative ∈ outer, ∃ part ∈ alternative.parts, part.atom.Opens grammar inner

/-- Alternatives from which a number of levels lead down, themselves included. -/
def Alternative.Descends (grammar : Grammar) (count : Nat) (outermost : List Alternative) : Prop :=
  ∃ levels : List (List Alternative), levels.length = count ∧ levels.head? = some outermost ∧
    levels.IsChain (Alternative.Nests grammar)

theorem Alternative.descends_one (grammar : Grammar) (alternatives : List Alternative) :
    Alternative.Descends grammar 1 alternatives :=
  ⟨[alternatives], rfl, rfl, .singleton _⟩

theorem Alternative.Descends.above {grammar : Grammar} {count : Nat}
    {outer inner : List Alternative} (below : Alternative.Descends grammar count inner)
    (nests : Alternative.Nests grammar outer inner) :
    Alternative.Descends grammar (count + 1) outer := by
  obtain ⟨levels, length, first, chained⟩ := below
  obtain ⟨later, rfl⟩ := List.head?_eq_some_iff.mp first
  exact ⟨outer :: inner :: later, by rw [List.length_cons, length], rfl, .cons_cons nests chained⟩

mutual

/-- The height of an atom: that of the alternatives which it opens, and of the highest choice. -/
inductive Atom.HasHeight (grammar : Grammar) : Atom → Nat → Prop where
  | terminal {text : String} : Atom.HasHeight grammar (.terminal text) 0
  | epsilon : Atom.HasHeight grammar .epsilon 0
  | reference {symbol : Symbol} {chain : Chain} {alternatives : List Alternative} {height : Nat}
    (defined : grammar.lookup symbol = some alternatives)
    (rule : Alternative.HasHeight grammar alternatives height) :
    Atom.HasHeight grammar (.reference symbol chain) height
  | group {alternatives : List Alternative} {chain : Chain} {height : Nat}
    (inside : Alternative.HasHeight grammar alternatives height) :
    Atom.HasHeight grammar (.group alternatives chain) height
  | positional {choices : List Atom} {height : Nat}
    (largest : Atom.Largest grammar choices height) :
    Atom.HasHeight grammar (.positional choices) height

inductive Atom.Largest (grammar : Grammar) : List Atom → Nat → Prop where
  | nil : Atom.Largest grammar [] 0
  | cons {atom : Atom} {rest : List Atom} {height others : Nat}
    (first : Atom.HasHeight grammar atom height) (later : Atom.Largest grammar rest others) :
    Atom.Largest grammar (atom :: rest) (max height others)

/-- The height of alternatives: one more than that of the highest atom in them. -/
inductive Alternative.HasHeight (grammar : Grammar) : List Alternative → Nat → Prop where
  | above {alternatives : List Alternative} {height : Nat}
    (largest : Atom.Largest grammar
      (alternatives.flatMap fun alternative => alternative.parts.map Part.atom) height) :
    Alternative.HasHeight grammar alternatives (height + 1)

end

section Heights

variable {grammar : Grammar}

theorem Atom.Largest.exists_le {atoms : List Atom} {height : Nat}
    (largest : Atom.Largest grammar atoms height) {atom : Atom} (member : atom ∈ atoms) :
    ∃ lower ≤ height, atom.HasHeight grammar lower := by
  induction atoms generalizing height with
  | nil => cases member
  | cons other rest ih =>
    cases largest with
    | cons first later =>
      rcases List.mem_cons.mp member with same | member
      · exact ⟨_, Nat.le_max_left _ _, same ▸ first⟩
      · obtain ⟨lower, below, high⟩ := ih later member
        exact ⟨lower, Nat.le_trans below (Nat.le_max_right _ _), high⟩

theorem Atom.Opens.exists_height {atom : Atom} {inner : List Alternative}
    (opens : atom.Opens grammar inner) {height : Nat} (high : atom.HasHeight grammar height) :
    ∃ lower ≤ height, Alternative.HasHeight grammar inner lower := by
  induction opens generalizing height with
  | here opening =>
    cases high with
    | terminal | epsilon | positional => cases opening
    | reference defined rule =>
      rw [Atom.opening, defined] at opening
      cases opening
      exact ⟨height, Nat.le_refl _, rule⟩
    | group inside =>
      cases opening
      exact ⟨height, Nat.le_refl _, inside⟩
  | choice member _ ih =>
    cases high with
    | positional largest =>
      obtain ⟨lower, below, inside⟩ := largest.exists_le member
      obtain ⟨lowest, deeper, innermost⟩ := ih inside
      exact ⟨lowest, Nat.le_trans deeper below, innermost⟩

theorem Alternative.HasHeight.exists_lt {outer inner : List Alternative} {height : Nat}
    (high : Alternative.HasHeight grammar outer height)
    (nests : Alternative.Nests grammar outer inner) :
    ∃ lower < height, Alternative.HasHeight grammar inner lower := by
  obtain ⟨alternative, written, part, member, opens⟩ := nests
  cases high with
  | above largest =>
    have within : part.atom ∈ outer.flatMap fun alternative => alternative.parts.map Part.atom :=
      List.mem_flatMap.mpr ⟨alternative, written, List.mem_map_of_mem member⟩
    obtain ⟨middle, below, atom⟩ := largest.exists_le within
    obtain ⟨lower, deeper, inside⟩ := opens.exists_height atom
    exact ⟨lower, Nat.lt_succ_of_le (Nat.le_trans deeper below), inside⟩

theorem Alternative.HasHeight.length_le {levels : List (List Alternative)}
    {outermost : List Alternative} {height : Nat}
    (high : Alternative.HasHeight grammar outermost height)
    (chained : (outermost :: levels).IsChain (Alternative.Nests grammar)) :
    levels.length < height := by
  induction levels generalizing outermost height with
  | nil =>
    cases high
    exact Nat.succ_pos _
  | cons inner deeper ih =>
    obtain ⟨nests, below⟩ := List.isChain_cons_cons.mp chained
    obtain ⟨lower, less, inside⟩ := high.exists_lt nests
    exact Nat.lt_of_le_of_lt (ih inside below) less

theorem Alternative.HasHeight.descends_le {outermost : List Alternative} {height count : Nat}
    (high : Alternative.HasHeight grammar outermost height)
    (descends : Alternative.Descends grammar count outermost) : count ≤ height := by
  obtain ⟨levels, length, first, chained⟩ := descends
  obtain ⟨later, rfl⟩ := List.head?_eq_some_iff.mp first
  rw [← length, List.length_cons]
  exact high.length_le chained

end Heights

open Expansion

variable [RandomSource σ]

/-- An expansion that runs out of room has come down one level for each unit of it. -/
theorem Alternative.failsWith_expandOne (grammar : Grammar) (limit room : Nat) (symbol : Symbol)
    (alternatives : List Alternative) :
    FailsWith (fun fault => ∀ last reached, fault = .limitExceeded last reached →
        Alternative.Descends grammar (room + 1) alternatives)
      (Alternative.expandOne grammar limit room symbol alternatives : Expansion σ _) := by
  induction room generalizing symbol alternatives with
  | zero => exact failsWith_throw fun _ _ _ => Alternative.descends_one grammar alternatives
  | succ room ih =>
    -- The atoms of the chosen alternative open nothing but what is nested in the alternatives.
    have compatible : Compatible grammar
        (fun atom => ∀ inner, atom.Opens grammar inner →
          Alternative.Nests grammar alternatives inner)
        fun _ (action : Expansion σ _) _ => FailsWith (fun fault => ∀ last reached,
          fault = .limitExceeded last reached →
            Alternative.Descends grammar (room + 1 + 1) alternatives) action :=
      compatible_failsWith fun _ _ _ _ _ => nofun
    rw [Alternative.expandOne_succ]
    refine (compatible.choose symbol alternatives).bind fun chosen returned => ?_
    refine compatible.expandParts_of_opening (Alternative.expandOne grammar limit room)
      (Alternative.expandOne grammar limit room) ?_ (grammar.agreesOn_self _) ?_ symbol ?_ none
    · exact fun choices nests choice member inner opens => nests inner (.choice member opens)
    · intro inner atom opened chain nests opening run fault final failed last reached exceeds
      have below := ih inner opened run fault final failed last reached exceeds
      exact below.above (nests opened (.here opening))
    · intro part member inner opens
      rcases Alternative.mem_of_returns_choose returned with written | rfl
      · exact ⟨chosen, written, part, member, opens⟩
      · cases List.mem_singleton.mp member
        cases opens with
        | here opening => cases opening

theorem Grammar.descends_of_generate_eq_error {grammar : Grammar} {settings : Settings}
    {run final : Run σ} {symbol : Symbol} {limit : Nat}
    (failed : grammar.generate settings run = .error (.limitExceeded symbol limit) final) :
    Alternative.Descends grammar (limit + 1) grammar.startAlternatives := by
  have expansion := Alternative.failsWith_expandOne (σ := σ) grammar settings.maxDepth
    settings.maxDepth grammar.start grammar.startAlternatives
  have whole : FailsWith (fun fault => ∀ last reached, fault = .limitExceeded last reached →
      Alternative.Descends grammar (settings.maxDepth + 1) grammar.startAlternatives)
      (grammar.generate settings : Expansion σ String) :=
    (failsWith_note _).bind fun _ _ => expansion.bind fun _ _ => failsWith_pure _
  have descends := whole run _ final failed symbol limit rfl
  rcases grammar.failsWith_generate settings run _ final failed with
    ⟨_, _, undefined, _⟩ | ⟨_, same⟩
  · cases undefined
  · cases same
    exact descends

/-- A grammar that refers to no undefined symbol generates a text in every run if the height of its
start symbol is within the limit. Whatever the grammar, a generation that exceeds its limit has come
down one level more than the limit, from the rule of the start symbol on. -/
theorem Grammar.generates_within_height (grammar : Grammar) (settings : Settings) (run : Run σ) :
    (∀ height ≤ settings.maxDepth, grammar.undefinedSymbols = [] →
      Alternative.HasHeight grammar grammar.startAlternatives height →
        ∃ text final, grammar.generate settings run = .ok text final) ∧
    ∀ symbol limit final,
      grammar.generate settings run = .error (.limitExceeded symbol limit) final →
        ∃ levels : List (List Alternative), levels.length = limit + 1 ∧
          levels.head? = some grammar.startAlternatives ∧
          levels.IsChain (Alternative.Nests grammar) := by
  refine ⟨fun height fits complete high => ?_, fun _ _ _ => descends_of_generate_eq_error⟩
  cases outcome : grammar.generate settings run with
  | ok text final => exact ⟨text, final, rfl⟩
  | error fault final =>
    rcases grammar.failsWith_generate settings run fault final outcome with
      ⟨symbol, active, _, listed⟩ | ⟨symbol, rfl⟩
    · rw [complete] at listed
      cases listed
    · have deeper := high.descends_le (descends_of_generate_eq_error outcome)
      omega

def Grammar.threeLevels : Grammar :=
  ⟨(Rules.empty.insert ⟨"S"⟩ [⟨none, [.spaced (.group
      [⟨none, [.spaced (.terminal "a")]⟩, ⟨none, [.spaced (.reference ⟨"T"⟩ [])]⟩] [])]⟩]).insert
      ⟨"T"⟩ [⟨none, [.spaced (.terminal "b")]⟩],
    ⟨"S"⟩, by decide⟩

theorem Grammar.hasHeight_threeLevels :
    Alternative.HasHeight threeLevels threeLevels.startAlternatives 3 :=
  have word : Alternative.HasHeight threeLevels [⟨none, [.spaced (.terminal "b")]⟩] 1 :=
    .above (.cons .terminal .nil)
  .above (.cons (.group (.above (.cons .terminal (.cons (.reference rfl word) .nil)))) .nil)

def Grammar.endless : Grammar :=
  ⟨Rules.empty.insert ⟨"S"⟩ [⟨none, [.spaced (.reference ⟨"S"⟩ [])]⟩], ⟨"S"⟩, by decide⟩

theorem Grammar.generates_within_height_threeLevels :
    (3 ≤ 3 ∧ threeLevels.undefinedSymbols = [] ∧
      Alternative.HasHeight threeLevels threeLevels.startAlternatives 3 ∧
      ∃ text final, threeLevels.generate ⟨3, true⟩ Run.onZeros = .ok text final) ∧
    endless.generate ⟨2, true⟩ Run.onZeros =
      .error (.limitExceeded ⟨"S"⟩ 2) (finalRun (endless.generate ⟨2, true⟩ Run.onZeros)) ∧
    ∃ levels : List (List Alternative), levels.length = 3 ∧
      levels.head? = some endless.startAlternatives ∧
      levels.IsChain (Alternative.Nests endless) := by
  have complete : threeLevels.undefinedSymbols = [] := rfl
  have exceeded : endless.generate ⟨2, true⟩ Run.onZeros =
    .error (.limitExceeded ⟨"S"⟩ 2) (finalRun (endless.generate ⟨2, true⟩ Run.onZeros)) := rfl
  refine ⟨⟨Nat.le_refl 3, complete, hasHeight_threeLevels, ?_⟩, exceeded, ?_⟩
  · exact (generates_within_height threeLevels ⟨3, true⟩ Run.onZeros).1 3 (Nat.le_refl 3) complete
      hasHeight_threeLevels
  · exact (generates_within_height endless ⟨2, true⟩ Run.onZeros).2 ⟨"S"⟩ 2 _ exceeded

end SentenceGrammar
