import SentenceGrammar.Proofs.Grammar.WellFormed
import SentenceGrammar.Proofs.GrammarText.Inlining

/-! Whatever can be derived from words denotes a grammar that can be written. -/

namespace SentenceGrammar

open Character

namespace Alternative

theorem selections_ne_nil {options : List (List Alternative)}
    (each : ∀ alternatives ∈ options, alternatives ≠ []) : selections options ≠ [] := by
  induction options with
  | nil => exact List.cons_ne_nil _ _
  | cons alternatives later ih =>
    obtain ⟨here, there⟩ := List.forall_mem_cons.mp each
    rw [selections, ne_eq, List.flatMap_eq_nil_iff]
    intro none
    obtain ⟨alternative, member⟩ := List.exists_mem_of_ne_nil _ here
    exact ih there (List.map_eq_nil_iff.mp (none alternative member))

theorem of_mem_selections {options : List (List Alternative)} {chosen : List Alternative}
    (member : chosen ∈ selections options) :
    chosen.length = options.length ∧
      ∀ alternative ∈ chosen, ∃ alternatives ∈ options, alternative ∈ alternatives := by
  induction options generalizing chosen with
  | nil =>
    obtain rfl := List.mem_singleton.mp member
    exact ⟨rfl, nofun⟩
  | cons alternatives later ih =>
    obtain ⟨first, here, others⟩ := List.mem_flatMap.mp member
    obtain ⟨rest, there, rfl⟩ := List.mem_map.mp others
    obtain ⟨length, each⟩ := ih there
    refine ⟨congrArg (· + 1) length, List.forall_mem_cons.mpr ⟨?_, fun alternative chosen => ?_⟩⟩
    · exact ⟨alternatives, List.mem_cons_self, here⟩
    · obtain ⟨options, listed, offered⟩ := each alternative chosen
      exact ⟨options, List.mem_cons_of_mem _ listed, offered⟩

theorem WellFormed.behind {alternative : Alternative} (wellFormed : alternative.WellFormed)
    (junction : Junction) : (alternative.behind junction).WellFormed := by
  obtain ⟨labelled, filled, inside⟩ := wellFormed
  obtain ⟨label, parts⟩ := alternative
  cases junction with
  | space => exact ⟨labelled, filled, inside⟩
  | glue =>
    cases parts with
    | nil => exact absurd rfl filled
    | cons first later =>
      obtain ⟨here, there⟩ := List.forall_mem_cons.mp inside
      exact ⟨labelled, List.cons_ne_nil _ _, List.forall_mem_cons.mpr ⟨here, there⟩⟩

theorem wellFormed_row {label : Option Label} {chosen : List Alternative}
    (labelled : ∀ found, label = some found → IsWord found.name) (nonempty : chosen ≠ [])
    (each : ∀ alternative ∈ chosen, alternative.WellFormed) : (row label chosen).WellFormed where
  labelled found same := by
    cases label with
    | some own => exact labelled found same
    | none =>
      obtain ⟨alternative, member, carries⟩ := List.exists_of_findSome?_eq_some same
      exact (each alternative member).labelled found carries
  filled := by
    rw [row, ne_eq, List.flatMap_eq_nil_iff]
    intro none
    obtain ⟨alternative, member⟩ := List.exists_mem_of_ne_nil _ nonempty
    exact (each alternative member).filled (none alternative member)
  inside part member := by
    obtain ⟨alternative, chosen, placed⟩ := List.mem_flatMap.mp member
    exact (each alternative chosen).inside part placed

theorem listWellFormed_rows {label : Option Label} {options : List (List Alternative)}
    (labelled : ∀ found, label = some found → IsWord found.name) (nonempty : options ≠ [])
    (each : ∀ alternatives ∈ options, ListWellFormed alternatives) :
    ListWellFormed ((selections options).map (row label)) := by
  refine ⟨?_, List.forall_mem_map.mpr fun chosen member => wellFormed_row labelled ?_ ?_⟩
  · have some := selections_ne_nil fun alternatives member => (each alternatives member).nonempty
    simpa using some
  · have length := (of_mem_selections member).1
    intro empty
    rw [empty, List.length_nil, eq_comm, List.length_eq_zero_iff] at length
    exact nonempty length
  · intro alternative chosen
    obtain ⟨alternatives, listed, offered⟩ := (of_mem_selections member).2 alternative chosen
    exact (each alternatives listed).each alternative offered

end Alternative

namespace GrammarText

theorem wellFormed_chainMeaning (chain : Option String) : (chainMeaning chain).WellFormed := by
  cases chain with
  | none => exact Chain.wellFormed_nil
  | some text =>
    rw [chainMeaning]
    cases outcome : Chain.read text with
    | error malformed => exact Chain.wellFormed_nil
    | ok chain => exact Chain.wellFormed_of_read outcome

def Category.WellFormed : (category : Category) → category.Meaning → Prop
  | .branches | .branch | .piece => Alternative.ListWellFormed
  | .pieces => fun options =>
    options ≠ [] ∧ ∀ alternatives ∈ options, Alternative.ListWellFormed alternatives
  | .others => fun atoms => ∀ atom ∈ atoms, atom.Simple
  | .term => Atom.Simple

def EachWord (tokens : List Token) : Prop :=
  ∀ text, .word text ∈ tokens → IsWord text

section Words

variable {token : Token} {first later : List Token}

@[simp] theorem eachWord_append :
    EachWord (first ++ later) ↔ EachWord first ∧ EachWord later := by
  simp only [EachWord, List.mem_append]
  grind

@[simp] theorem eachWord_cons :
    EachWord (token :: later) ↔ (∀ text, token = .word text → IsWord text) ∧ EachWord later := by
  simp only [EachWord, List.mem_cons]
  grind

end Words

namespace Derivation

variable {unfolded : Symbol → List Alternative}

theorem wellFormed_meaning {category : Category} (derivation : Derivation category)
    (words : EachWord derivation.yield)
    (expands : ∀ symbol ∈ derivation.unfolds, symbol.WellFormed →
      Alternative.ListWellFormed (unfolded symbol)) :
    category.WellFormed (derivation.meaning unfolded) := by
  induction derivation with
  | lastBranch branch ih => exact ih words expands
  | nextBranch branch later ihBranch ihLater =>
    simp only [yield, eachWord_append, eachWord_cons] at words
    rw [unfolds, List.forall_mem_append] at expands
    exact (ihBranch words.1 expands.1).append (ihLater words.2.2 expands.2)
  | sequence label pieces ih =>
    simp only [yield, eachWord_append] at words
    obtain ⟨nonempty, each⟩ := ih words.2 expands
    refine Alternative.listWellFormed_rows ?_ nonempty each
    intro found same
    cases label with
    | none => cases same
    | some text =>
      cases same
      exact words.1 text List.mem_cons_self
  | lastPiece piece ih =>
    exact ⟨List.cons_ne_nil _ _, List.forall_mem_singleton.mpr (ih words expands)⟩
  | nextPiece piece later ihPiece ihLater =>
    simp only [yield, eachWord_append] at words
    rw [unfolds, List.forall_mem_append] at expands
    exact ⟨List.cons_ne_nil _ _,
      List.forall_mem_cons.mpr ⟨ihPiece words.1 expands.1, (ihLater words.2 expands.2).2⟩⟩
  | plain junction first others ihFirst ihOthers =>
    simp only [yield, eachWord_append] at words
    rw [unfolds, List.forall_mem_append] at expands
    have first := ihFirst words.2.1 expands.1
    have each := List.forall_mem_cons.mpr ⟨first, ihOthers words.2.2 expands.2⟩
    rw [meaning]
    split
    · exact .singleton (Alternative.wellFormed_singleton first.wellFormed)
    · rename_i second later same
      rw [same] at each
      have several := Atom.wellFormed_positional.mpr ⟨by simp, each⟩
      exact .singleton (Alternative.wellFormed_singleton several)
  | unfoldSymbol junction name uppercase =>
    simp only [yield, eachWord_append, eachWord_cons] at words
    have named : (⟨name⟩ : Symbol).WellFormed := ⟨words.2.2.1 name rfl, uppercase⟩
    exact (expands ⟨name⟩ List.mem_cons_self named).map fun _ fine => fine.behind junction
  | unfoldGroup junction branches ih =>
    simp only [yield, eachWord_append, eachWord_cons] at words
    exact (ih words.2.2.2.1 expands).map fun _ fine => fine.behind junction
  | unfoldOptional junction branches ih =>
    simp only [yield, eachWord_append, eachWord_cons] at words
    have optional := (ih words.2.2.2.1 expands).append (.singleton Alternative.wellFormed_nothing)
    exact optional.map fun _ fine => fine.behind junction
  | noOther => exact fun _ member => absurd member List.not_mem_nil
  | nextOther term later ihTerm ihLater =>
    simp only [yield, eachWord_append, eachWord_cons] at words
    rw [unfolds, List.forall_mem_append] at expands
    exact List.forall_mem_cons.mpr
      ⟨ihTerm words.2.1 expands.1, ihLater words.2.2 expands.2⟩
  | word text chain =>
    rw [meaning]
    split
    · exact ⟨.epsilon, rfl⟩
    split
    · rename_i uppercase
      have named : (⟨text⟩ : Symbol).WellFormed := ⟨words text List.mem_cons_self, uppercase⟩
      exact ⟨.reference named (wellFormed_chainMeaning chain), rfl⟩
    · exact ⟨.terminal text, rfl⟩
  | quoted text chain => exact ⟨.terminal text, rfl⟩
  | group branches chain ih =>
    simp only [yield, eachWord_append, eachWord_cons] at words
    have wellFormed := Atom.wellFormed_group.mpr
      ⟨ih words.2.1 expands, wellFormed_chainMeaning chain⟩
    exact ⟨wellFormed, rfl⟩
  | optional branches chain ih =>
    simp only [yield, eachWord_append, eachWord_cons] at words
    have wellFormed := Atom.wellFormed_group.mpr
      ⟨(ih words.2.1 expands).append (.singleton Alternative.wellFormed_nothing),
        wellFormed_chainMeaning chain⟩
    exact ⟨wellFormed, rfl⟩

end Derivation

namespace DefinitionDerivation

variable {definitions : List DefinitionDerivation}

theorem wellFormed_kept {symbol : Symbol} (named : symbol.WellFormed) :
    Alternative.ListWellFormed (kept symbol) :=
  .singleton (Alternative.wellFormed_singleton (.reference named Chain.wellFormed_nil))

theorem wellFormed_rule {unfolded : Symbol → List Alternative}
    (words : EachWord (listYield definitions))
    (expands : ∀ definition ∈ definitions, ∀ symbol ∈ definition.branches.unfolds,
      symbol.WellFormed → Alternative.ListWellFormed (unfolded symbol)) :
    ∀ made ∈ definitions.map (rule unfolded),
      made.symbol.WellFormed ∧ Alternative.ListWellFormed made.alternatives := by
  rw [List.forall_mem_map]
  intro definition member
  have own : EachWord definition.yield :=
    fun text there => words text (List.mem_flatMap.mpr ⟨definition, member, there⟩)
  simp only [yield, eachWord_append, eachWord_cons] at own
  exact ⟨⟨own.1 _ rfl, definition.uppercase⟩,
    definition.branches.wellFormed_meaning own.2.2.1 (expands definition member)⟩

namespace Accept

variable {tokens : List PlacedToken} {start : Symbol}

theorem mem_of_unfolds (accept : Accept definitions tokens start)
    {definition : DefinitionDerivation} (member : definition ∈ definitions) {symbol : Symbol}
    (unfolds : symbol ∈ definition.branches.unfolds) :
    symbol ∈ definitions.map DefinitionDerivation.symbol := by
  have sign : symbol ∈ (unfoldSigns tokens).map Prod.fst := by
    rw [map_unfoldSigns, accept.spelled, unfoldedSymbols_listYield]
    exact List.mem_flatMap.mpr ⟨definition, member, unfolds⟩
  obtain ⟨found, there, rfl⟩ := List.mem_map.mp sign
  exact accept.unfolds found there

theorem wellFormed_grammar (accept : Accept definitions tokens start)
    (words : EachWord (tokens.map PlacedToken.token)) : accept.grammar.WellFormed := by
  rw [accept.spelled] at words
  -- What an unfolded symbol stands for has references in place of those that it unfolds in turn, so
  -- the rules with references come first.
  have referring := wellFormed_rule words fun _ _ _ _ => wellFormed_kept
  have expands : ∀ definition ∈ definitions, ∀ symbol ∈ definition.branches.unfolds,
      symbol.WellFormed → Alternative.ListWellFormed (unfolded definitions symbol) := by
    intro definition member symbol unfolds _
    obtain ⟨branches, found⟩ :=
      Option.isSome_iff_exists.mp (find_isSome (accept.mem_of_unfolds member unfolds))
    have listed : ⟨symbol, branches.meaning kept⟩ ∈ definitions.map (rule kept) :=
      Rules.mem_of_find (by rw [find_rules, found, Option.map_some])
    rw [unfolded, found]
    exact (referring _ listed).2
  have rules := wellFormed_rule words expands
  have distinct : ((definitions.map (rule (unfolded definitions))).map Rule.symbol).Nodup := by
    rw [List.map_map]
    exact accept.distinct
  have each : ∀ rule ∈ accept.grammar.rules.list,
      rule.symbol.WellFormed ∧ Alternative.ListWellFormed rule.alternatives :=
    fun rule member => rules rule ((Rules.mem_insertAll distinct).mp member)
  exact ⟨fun rule member => (each rule member).1, fun rule member => (each rule member).2⟩

end Accept

end DefinitionDerivation

end GrammarText

end SentenceGrammar
