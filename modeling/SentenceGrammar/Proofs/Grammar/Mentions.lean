import SentenceGrammar.Proofs.Grammar.Lookup

/-! The list of undefined symbols is exact. What the collectors gather is what is mentioned
somewhere in the rules, and a list in increasing order is determined by what is in it; so it makes
no difference in which order the rules are gone through. -/

namespace SentenceGrammar

namespace Symbol

/-- Symbols are ordered by the characters of their names. -/
theorem lt_iff_toList_lt {first second : Symbol} :
    first < second ↔ first.name.toList < second.name.toList :=
  Iff.rfl

theorem increasing_insertOrdered {symbol : Symbol} {symbols : List Symbol}
    (increasing : symbols.Pairwise fun first second => first < second) :
    (insertOrdered symbol symbols).Pairwise fun first second => first < second := by
  induction symbols with
  | nil => exact List.pairwise_singleton _ _
  | cons first rest ih =>
    obtain ⟨least, later⟩ := List.pairwise_cons.mp increasing
    simp only [insertOrdered]
    split
    · rename_i below
      refine List.pairwise_cons.mpr ⟨?_, increasing⟩
      intro other member
      rcases List.mem_cons.mp member with same | member
      · exact same ▸ below
      · exact lt_trans below (least other member)
    · split
      · exact increasing
      · rename_i above different
        refine List.pairwise_cons.mpr ⟨?_, ih later⟩
        intro other member
        rcases mem_insertOrdered.mp member with same | member
        · exact same ▸ lt_of_not_lt_of_ne above different
        · exact least other member

theorem increasing_ordered (symbols : List Symbol) :
    (ordered symbols).Pairwise fun first second => first < second := by
  induction symbols with
  | nil => exact List.Pairwise.nil
  | cons symbol rest ih => exact increasing_insertOrdered ih

end Symbol

/-- A symbol stands in some reference of an atom, at any depth of groups and positional choices. -/
inductive Atom.Mentions (symbol : Symbol) : Atom → Prop where
  | reference {chain : Chain} : Mentions symbol (.reference symbol chain)
  | group {alternatives : List Alternative} {chain : Chain} {alternative : Alternative}
    {part : Part} (written : alternative ∈ alternatives) (member : part ∈ alternative.parts)
    (mentions : Mentions symbol part.atom) : Mentions symbol (.group alternatives chain)
  | positional {choices : List Atom} {choice : Atom} (member : choice ∈ choices)
    (mentions : Mentions symbol choice) : Mentions symbol (.positional choices)

def Alternative.ListMentions (symbol : Symbol) (alternatives : List Alternative) : Prop :=
  ∃ alternative ∈ alternatives, ∃ part ∈ alternative.parts, part.atom.Mentions symbol

theorem Alternative.mem_listReferences {symbol : Symbol} {alternatives : List Alternative} :
    symbol ∈ Alternative.listReferences alternatives ↔
      ∃ alternative ∈ alternatives, ∃ part ∈ alternative.parts, symbol ∈ part.atom.references := by
  simp only [Alternative.listReferences_eq_flatMap, Part.listReferences_eq_flatMap,
    List.mem_flatMap]

theorem Atom.mem_references_iff {symbol : Symbol} {atom : Atom} :
    symbol ∈ atom.references ↔ atom.Mentions symbol := by
  induction atom using Atom.induction with
  | terminal text => exact ⟨nofun, nofun⟩
  | reference name chain =>
    rw [Atom.references, List.mem_singleton]
    constructor
    · rintro rfl
      exact .reference
    · intro mentions
      cases mentions
      rfl
  | group alternatives chain ih =>
    rw [Atom.references, Alternative.mem_listReferences]
    constructor
    · rintro ⟨alternative, written, part, member, referred⟩
      exact .group written member ((ih alternative written part member).mp referred)
    · intro mentions
      cases mentions with
      | group written member mentions =>
        exact ⟨_, written, _, member, (ih _ written _ member).mpr mentions⟩
  | positional choices ih =>
    rw [Atom.references, Atom.listReferences_eq_flatMap, List.mem_flatMap]
    constructor
    · rintro ⟨choice, member, referred⟩
      exact .positional member ((ih choice member).mp referred)
    · intro mentions
      cases mentions with
      | positional member mentions => exact ⟨_, member, (ih _ member).mpr mentions⟩
  | epsilon => exact ⟨nofun, nofun⟩

namespace Grammar

def Mentions (grammar : Grammar) (symbol : Symbol) : Prop :=
  ∃ rule ∈ grammar.rules.list, Alternative.ListMentions symbol rule.alternatives

/-- The symbols without a rule that are found when the rules are gone through in some order. -/
def undefinedAmong (grammar : Grammar) (listing : List Rule) : List Symbol :=
  Symbol.ordered ((listing.flatMap fun rule =>
    Alternative.listReferences rule.alternatives).filter fun symbol =>
      !grammar.rules.defines symbol)

theorem mem_undefinedAmong {grammar : Grammar} (listing : List Rule) {symbol : Symbol} :
    symbol ∈ grammar.undefinedAmong listing ↔
      (∃ rule ∈ listing, Alternative.ListMentions symbol rule.alternatives) ∧
        symbol ∉ grammar.nonTerminals := by
  rw [undefinedAmong, Symbol.mem_ordered, List.mem_filter, List.mem_flatMap, nonTerminals,
    Rules.mem_symbols_iff]
  simp only [Alternative.mem_listReferences, Atom.mem_references_iff, Alternative.ListMentions,
    Bool.not_eq_true', Bool.not_eq_true]

/-- The undefined symbols are in strictly increasing order by the characters of their names. They
are those that are mentioned somewhere in the rules and have no rule, and they are the same in
whatever order the rules are gone through. -/
theorem undefinedSymbols_exact (grammar : Grammar) :
    grammar.undefinedSymbols.Pairwise
        (fun first second => first.name.toList < second.name.toList) ∧
      (∀ symbol, symbol ∈ grammar.undefinedSymbols ↔
        grammar.Mentions symbol ∧ symbol ∉ grammar.nonTerminals) ∧
      ∀ listing : List Rule, listing.Perm grammar.rules.list →
        grammar.undefinedAmong listing = grammar.undefinedSymbols := by
  have members : ∀ symbol, symbol ∈ grammar.undefinedSymbols ↔
      grammar.Mentions symbol ∧ symbol ∉ grammar.nonTerminals :=
    fun symbol => mem_undefinedAmong grammar.rules.list
  refine ⟨?_, members, fun listing reordered => ?_⟩
  · exact (Symbol.increasing_ordered _).imp Symbol.lt_iff_toList_lt.mp
  · apply Symbol.eq_of_increasing (Symbol.increasing_ordered _) (Symbol.increasing_ordered _)
    intro symbol
    change symbol ∈ grammar.undefinedAmong listing ↔ symbol ∈ grammar.undefinedSymbols
    rw [mem_undefinedAmong, members]
    simp only [Mentions, reordered.mem_iff]

def missingTwice : Grammar :=
  ⟨Rules.empty.insertAll
      [⟨⟨"S"⟩, [⟨none, [.spaced (.reference ⟨"Missing"⟩ []), .spaced (.group
        [⟨none, [.spaced (.positional [.reference ⟨"Missing"⟩ [], .reference ⟨"T"⟩ []])]⟩] [])]⟩]⟩,
      ⟨⟨"T"⟩, [⟨none, [.spaced (.reference ⟨"Beside"⟩ [])]⟩]⟩],
    ⟨"S"⟩, by decide⟩

theorem undefinedSymbols_missingTwice :
    missingTwice.rules.list.reverse.Perm missingTwice.rules.list ∧
      missingTwice.undefinedAmong missingTwice.rules.list.reverse =
        missingTwice.undefinedSymbols ∧
      missingTwice.undefinedSymbols = [⟨"Beside"⟩, ⟨"Missing"⟩] :=
  ⟨List.reverse_perm _, (undefinedSymbols_exact missingTwice).2.2 _ (List.reverse_perm _),
    by decide⟩

end Grammar

end SentenceGrammar
