import SentenceGrammar.Proofs.GrammarText.Spelling

/-! The grammars that a text can make are those that can be written; and what is made of the written
form of such a grammar is the grammar again. -/

namespace SentenceGrammar

open Character GrammarText

def Chain.written : Chain → Option String
  | [] => none
  | chain => some chain.text

mutual

/-- The tokens that an atom is written with. Terminals are always quoted. -/
def Atom.tokens : Atom → List Token
  | .terminal text => [.quoted text]
  | .reference symbol chain => .word symbol.name :: chainTokens chain.written
  | .group alternatives chain =>
    .openParen :: (Alternative.listTokens alternatives ++ .closeParen :: chainTokens chain.written)
  | .positional [] => []
  | .positional (first :: later) => first.tokens ++ Atom.laterTokens later
  | .epsilon => [.word "_"]

def Atom.laterTokens : List Atom → List Token
  | [] => []
  | choice :: later => .comma :: (choice.tokens ++ Atom.laterTokens later)

def Part.tokens : Part → List Token
  | ⟨junction, atom⟩ => junctionTokens junction ++ atom.tokens

def Part.listTokens : List Part → List Token
  | [] => []
  | part :: later => part.tokens ++ Part.listTokens later

def Alternative.tokens : Alternative → List Token
  | ⟨label, parts⟩ => labelTokens (label.map Label.name) ++ Part.listTokens parts

def Alternative.listTokens : List Alternative → List Token
  | [] => []
  | [last] => last.tokens
  | first :: next :: later => first.tokens ++ .bar :: Alternative.listTokens (next :: later)

end

namespace Rule

def tokens (rule : Rule) : List Token :=
  .word rule.symbol.name :: .define :: (Alternative.listTokens rule.alternatives ++ [.semicolon])

def listText (layout : Token.Layout) (rules : List Rule) : String :=
  String.ofList (layout.spell (rules.flatMap tokens))

end Rule

namespace GrammarText

/-- A derivation of tokens that can be cut out of a text. It unfolds nothing, and denotes the same
whatever unfolded symbols stand for. -/
structure Derivation.Writes {category : Category} (derivation : Derivation category)
    (tokens : List Token) (value : category.Meaning) : Prop where
  yield : derivation.yield = tokens
  meaning : ∀ unfolded, derivation.meaning unfolded = value
  unfolds : derivation.unfolds = []
  spellable : ∀ token ∈ tokens, token.Spellable

def Written (category : Category) (tokens : List Token) (value : category.Meaning) : Prop :=
  ∃ derivation : Derivation category, derivation.Writes tokens value

end GrammarText

namespace Chain

theorem chainMeaning_written {chain : Chain} (wellFormed : chain.WellFormed) :
    chainMeaning chain.written = chain := by
  cases chain with
  | nil => rfl
  | cons selector later => simp [written, chainMeaning, read_text wellFormed, Except.toOption]

theorem spellable_written {chain : Chain} (wellFormed : chain.WellFormed) :
    ∀ token ∈ chainTokens chain.written, token.Spellable := by
  cases chain with
  | nil => exact fun _ member => absurd member List.not_mem_nil
  | cons selector later =>
    have read := read_text wellFormed
    have notEmpty : NotEmpty (text (selector :: later)) := by
      rw [NotEmpty, read]
      simp
    exact List.forall_mem_singleton.mpr ⟨⟨_, read⟩, notEmpty⟩

end Chain

namespace GrammarText

section Terms

variable {tokens later : List Token}

theorem written_terminal (text : String) : Written .term [.quoted text] (.terminal text) :=
  ⟨.quoted text none, rfl, fun _ => rfl, rfl, List.forall_mem_singleton.mpr trivial⟩

theorem written_epsilon : Written .term [.word "_"] .epsilon :=
  ⟨.word "_" none, rfl, fun _ => rfl, rfl,
    List.forall_mem_singleton.mpr (show IsWord "_" by decide)⟩

theorem written_reference {symbol : Symbol} {chain : Chain} (named : symbol.WellFormed)
    (chained : chain.WellFormed) :
    Written .term (.word symbol.name :: chainTokens chain.written) (.reference symbol chain) := by
  refine ⟨.word symbol.name chain.written, rfl, fun unfolded => ?_, rfl, ?_⟩
  · have notEpsilon : symbol.name ≠ "_" := by
      intro same
      exact absurd (same ▸ named.2) (by decide)
    rw [Derivation.meaning, if_neg notEpsilon, if_pos named.2, Chain.chainMeaning_written chained]
  · exact List.forall_mem_cons.mpr ⟨named.1, Chain.spellable_written chained⟩

theorem Written.group {alternatives : List Alternative} {chain : Chain}
    (inside : Written .branches tokens alternatives) (chained : chain.WellFormed) :
    Written .term (.openParen :: (tokens ++ .closeParen :: chainTokens chain.written))
      (.group alternatives chain) := by
  obtain ⟨branches, yield, meaning, unfolds, spellable⟩ := inside
  refine ⟨.group branches chain.written, by simp [yield], fun unfolded => ?_, unfolds, ?_⟩
  · rw [Derivation.meaning, meaning, Chain.chainMeaning_written chained]
  · have after := Chain.spellable_written chained
    simp only [List.forall_mem_cons, List.forall_mem_append]
    exact ⟨trivial, spellable, trivial, after⟩

theorem written_noOther : Written .others [] [] :=
  ⟨.noOther, rfl, fun _ => rfl, rfl, nofun⟩

theorem Written.nextOther {atom : Atom} {atoms : List Atom} (first : Written .term tokens atom)
    (others : Written .others later atoms) :
    Written .others (.comma :: (tokens ++ later)) (atom :: atoms) := by
  obtain ⟨term, yield, meaning, unfolds, spellable⟩ := first
  obtain ⟨behind, yieldBehind, meaningBehind, unfoldsBehind, spellableBehind⟩ := others
  refine ⟨.nextOther term behind, by simp [yield, yieldBehind], fun unfolded => ?_, ?_, ?_⟩
  · rw [Derivation.meaning, meaning, meaningBehind]
  · rw [Derivation.unfolds, unfolds, unfoldsBehind, List.append_nil]
  · rw [List.forall_mem_cons, List.forall_mem_append]
    exact ⟨trivial, spellable, spellableBehind⟩

end Terms

section Pieces

variable {tokens later : List Token}

theorem spellable_junction (junction : Junction) :
    ∀ token ∈ junctionTokens junction, token.Spellable := by
  cases junction with
  | space => exact nofun
  | glue => exact List.forall_mem_singleton.mpr trivial

def partAlone (part : Part) : List Alternative :=
  [⟨none, [part]⟩]

theorem Written.single {atom : Atom} (term : Written .term tokens atom) (junction : Junction) :
    Written .piece (junctionTokens junction ++ tokens) (partAlone ⟨junction, atom⟩) := by
  obtain ⟨term, yield, meaning, unfolds, spellable⟩ := term
  refine ⟨.plain junction term .noOther, by simp [yield], fun unfolded => ?_, ?_, ?_⟩
  · rw [Derivation.meaning, meaning]
    rfl
  · rw [Derivation.unfolds, unfolds]
    rfl
  · exact List.forall_mem_append.mpr ⟨spellable_junction junction, spellable⟩

theorem Written.several {first second : Atom} {atoms : List Atom}
    (term : Written .term tokens first) (others : Written .others later (second :: atoms))
    (junction : Junction) :
    Written .piece (junctionTokens junction ++ (tokens ++ later))
      (partAlone ⟨junction, .positional (first :: second :: atoms)⟩) := by
  obtain ⟨term, yield, meaning, unfolds, spellable⟩ := term
  obtain ⟨behind, yieldBehind, meaningBehind, unfoldsBehind, spellableBehind⟩ := others
  refine ⟨.plain junction term behind, by simp [yield, yieldBehind], fun unfolded => ?_, ?_, ?_⟩
  · rw [Derivation.meaning, meaning, meaningBehind]
    rfl
  · rw [Derivation.unfolds, unfolds, unfoldsBehind, List.append_nil]
  · simp only [List.forall_mem_append]
    exact ⟨spellable_junction junction, spellable, spellableBehind⟩

theorem Written.lastPiece {alternatives : List Alternative}
    (piece : Written .piece tokens alternatives) : Written .pieces tokens [alternatives] := by
  obtain ⟨piece, yield, meaning, unfolds, spellable⟩ := piece
  exact ⟨.lastPiece piece, yield, fun unfolded => congrArg (fun made => [made]) (meaning unfolded),
    unfolds, spellable⟩

theorem Written.nextPiece {alternatives : List Alternative} {options : List (List Alternative)}
    (piece : Written .piece tokens alternatives) (pieces : Written .pieces later options) :
    Written .pieces (tokens ++ later) (alternatives :: options) := by
  obtain ⟨piece, yield, meaning, unfolds, spellable⟩ := piece
  obtain ⟨behind, yieldBehind, meaningBehind, unfoldsBehind, spellableBehind⟩ := pieces
  refine ⟨.nextPiece piece behind, by simp [yield, yieldBehind], fun unfolded => ?_, ?_, ?_⟩
  · rw [Derivation.meaning, meaning, meaningBehind]
  · rw [Derivation.unfolds, unfolds, unfoldsBehind, List.append_nil]
  · exact List.forall_mem_append.mpr ⟨spellable, spellableBehind⟩

end Pieces

section Branches

variable {tokens later : List Token}

theorem rows_partAlone (label : Option Label) (parts : List Part) :
    (Alternative.selections (parts.map partAlone)).map (Alternative.row label) =
      [⟨label, parts⟩] := by
  have chosen : Alternative.selections (parts.map partAlone) =
      [parts.map fun part => ⟨none, [part]⟩] := by
    induction parts with
    | nil => rfl
    | cons part later ih => simp [Alternative.selections, partAlone, ih]
  have unlabelled : (parts.map fun part => (⟨none, [part]⟩ : Alternative)).findSome?
      Alternative.label = none := by
    simp
  rw [chosen, List.map_singleton, Alternative.row, unlabelled]
  simp [List.flatMap_map]

theorem Written.sequence {alternative : Alternative}
    (labelled : ∀ label, alternative.label = some label → IsWord label.name)
    (pieces : Written .pieces (Part.listTokens alternative.parts)
      (alternative.parts.map partAlone)) :
    Written .branch alternative.tokens [alternative] := by
  obtain ⟨label, parts⟩ := alternative
  obtain ⟨pieces, yield, meaning, unfolds, spellable⟩ := pieces
  refine ⟨.sequence (label.map Label.name) pieces, by simp [yield, Alternative.tokens],
    fun unfolded => ?_, unfolds, ?_⟩
  · have same : (label.map Label.name).map Label.mk = label := by cases label <;> rfl
    rw [Derivation.meaning, meaning, same, rows_partAlone]
  · refine List.forall_mem_append.mpr ⟨?_, spellable⟩
    cases label with
    | none => exact nofun
    | some found =>
      exact List.forall_mem_cons.mpr ⟨labelled found rfl, List.forall_mem_singleton.mpr trivial⟩

theorem Written.lastBranch {alternatives : List Alternative}
    (branch : Written .branch tokens alternatives) : Written .branches tokens alternatives := by
  obtain ⟨branch, yield, meaning, unfolds, spellable⟩ := branch
  exact ⟨.lastBranch branch, yield, meaning, unfolds, spellable⟩

theorem Written.nextBranch {first others : List Alternative}
    (branch : Written .branch tokens first) (branches : Written .branches later others) :
    Written .branches (tokens ++ .bar :: later) (first ++ others) := by
  obtain ⟨branch, yield, meaning, unfolds, spellable⟩ := branch
  obtain ⟨behind, yieldBehind, meaningBehind, unfoldsBehind, spellableBehind⟩ := branches
  refine ⟨.nextBranch branch behind, by simp [yield, yieldBehind], fun unfolded => ?_, ?_, ?_⟩
  · rw [Derivation.meaning, meaning, meaningBehind]
  · rw [Derivation.unfolds, unfolds, unfoldsBehind, List.append_nil]
  · rw [List.forall_mem_append, List.forall_mem_cons]
    exact ⟨spellable, trivial, spellableBehind⟩

end Branches

section Atoms

def WrittenAlone (atom : Atom) : Prop :=
  ∀ junction, Written .piece (Part.tokens ⟨junction, atom⟩) (partAlone ⟨junction, atom⟩)

theorem written_parts {parts : List Part} (filled : parts ≠ [])
    (inside : ∀ part ∈ parts, WrittenAlone part.atom) :
    Written .pieces (Part.listTokens parts) (parts.map partAlone) := by
  induction parts with
  | nil => exact absurd rfl filled
  | cons part later ih =>
    obtain ⟨junction, atom⟩ := part
    obtain ⟨first, others⟩ := List.forall_mem_cons.mp inside
    have piece := first junction
    cases later with
    | nil => simpa [Part.listTokens] using piece.lastPiece
    | cons next later => exact piece.nextPiece (ih (List.cons_ne_nil _ _) others)

theorem written_alternatives {alternatives : List Alternative} (nonempty : alternatives ≠ [])
    (each : ∀ alternative ∈ alternatives, Written .branch alternative.tokens [alternative]) :
    Written .branches (Alternative.listTokens alternatives) alternatives := by
  induction alternatives with
  | nil => exact absurd rfl nonempty
  | cons alternative later ih =>
    obtain ⟨first, others⟩ := List.forall_mem_cons.mp each
    cases later with
    | nil => exact first.lastBranch
    | cons next later => exact first.nextBranch (ih (List.cons_ne_nil _ _) others)

theorem written_choices {choices : List Atom}
    (each : ∀ choice ∈ choices, Written .term choice.tokens choice) :
    Written .others (Atom.laterTokens choices) choices := by
  induction choices with
  | nil => exact written_noOther
  | cons choice later ih =>
    obtain ⟨first, others⟩ := List.forall_mem_cons.mp each
    exact first.nextOther (ih others)

theorem written_positional {choices : List Atom} (several : 2 ≤ choices.length)
    (each : ∀ choice ∈ choices, Written .term choice.tokens choice) :
    WrittenAlone (.positional choices) := by
  intro junction
  match choices, several with
  | first :: second :: later, _ =>
    obtain ⟨here, there⟩ := List.forall_mem_cons.mp each
    exact here.several (written_choices there) junction

/-- An atom that can be written is written as one piece, and as a term unless it is a choice by
position. -/
theorem written_atom {atom : Atom} (wellFormed : atom.WellFormed) :
    (atom.isPositional = false → Written .term atom.tokens atom) ∧ WrittenAlone atom := by
  induction wellFormed with
  | terminal text =>
    exact ⟨fun _ => written_terminal text, (written_terminal text).single⟩
  | reference named chained =>
    exact ⟨fun _ => written_reference named chained, (written_reference named chained).single⟩
  | group nonempty labelled filled _ chained ih =>
    have inside := written_alternatives nonempty fun alternative member =>
      Written.sequence (labelled alternative member) (written_parts (filled alternative member)
        fun part placed => (ih alternative member part placed).2)
    exact ⟨fun _ => inside.group chained, (inside.group chained).single⟩
  | positional several simple _ ih =>
    refine ⟨nofun, written_positional several fun choice member => ?_⟩
    exact (ih choice member).1 (simple choice member)
  | epsilon =>
    exact ⟨fun _ => written_epsilon, written_epsilon.single⟩

theorem written_branches {alternatives : List Alternative}
    (wellFormed : Alternative.ListWellFormed alternatives) :
    Written .branches (Alternative.listTokens alternatives) alternatives := by
  refine written_alternatives wellFormed.nonempty fun alternative member => ?_
  obtain ⟨labelled, filled, inside⟩ := wellFormed.each alternative member
  exact Written.sequence labelled
    (written_parts filled fun part placed => (written_atom (inside part placed)).2)

end Atoms

section Separation

open Token

theorem attached_chained {token : Token} (ends : token.endsTerm = true)
    (chain : Option String) : Attached (token :: chainTokens chain) := by
  cases chain with
  | none => exact .plain (isChain_eq_false_of_endsTerm ends) .nil
  | some text => exact .chained ends .nil

theorem attached_junction (junction : Junction) : Attached (junctionTokens junction) := by
  cases junction with
  | space => exact .nil
  | glue => exact .plain rfl .nil

theorem Derivation.attached {category : Category} (derivation : Derivation category) :
    Attached derivation.yield := by
  induction derivation with
  | lastBranch branch ih => exact ih
  | nextBranch branch later ihBranch ihLater => exact ihBranch.append (.plain rfl ihLater)
  | sequence label pieces ih =>
    cases label with
    | none => exact ih
    | some label => exact .plain rfl (.plain rfl ih)
  | lastPiece piece ih => exact ih
  | nextPiece piece later ihPiece ihLater => exact ihPiece.append ihLater
  | plain junction first others ihFirst ihOthers =>
    exact (attached_junction junction).append (ihFirst.append ihOthers)
  | unfoldSymbol junction name uppercase =>
    exact (attached_junction junction).append (.plain rfl (.plain rfl .nil))
  | unfoldGroup junction branches ih | unfoldOptional junction branches ih =>
    exact (attached_junction junction).append
      (.plain rfl (.plain rfl (ih.append (.plain rfl .nil))))
  | noOther => exact .nil
  | nextOther term later ihTerm ihLater => exact .plain rfl (ihTerm.append ihLater)
  | word text chain | quoted text chain => exact attached_chained rfl chain
  | group branches chain ih | optional branches chain ih =>
    exact .plain rfl (ih.append (attached_chained rfl chain))

end Separation

namespace DefinitionDerivation

theorem attached_listYield (definitions : List DefinitionDerivation) :
    Token.Attached (listYield definitions) := by
  induction definitions with
  | nil => exact .nil
  | cons definition later ih =>
    rw [listYield_cons]
    exact .plain rfl (.plain rfl (definition.branches.attached.append (.plain rfl ih)))

/-- Definitions that derive the tokens that rules are written with. They unfold nothing and make
the rules again. -/
structure Write (definitions : List DefinitionDerivation) (rules : List Rule) : Prop where
  yield : listYield definitions = rules.flatMap Rule.tokens
  rules : ∀ unfolded, definitions.map (rule unfolded) = rules
  unfolds : ∀ definition ∈ definitions, definition.branches.unfolds = []
  spellable : ∀ token ∈ listYield definitions, token.Spellable

theorem exists_write {rules : List Rule} (named : ∀ rule ∈ rules, rule.symbol.WellFormed)
    (ruled : ∀ rule ∈ rules, Alternative.ListWellFormed rule.alternatives) :
    ∃ definitions, Write definitions rules := by
  induction rules with
  | nil => exact ⟨[], rfl, fun _ => rfl, nofun, nofun⟩
  | cons first later ih =>
    obtain ⟨symbol, alternatives⟩ := first
    obtain ⟨name, names⟩ := List.forall_mem_cons.mp named
    obtain ⟨body, bodies⟩ := List.forall_mem_cons.mp ruled
    obtain ⟨branches, yield, meaning, unfolds, spellable⟩ := written_branches body
    obtain ⟨definitions, yields, makes, unfoldsNone, spellables⟩ := ih names bodies
    refine ⟨⟨symbol, name.2, branches⟩ :: definitions, ?_, fun unfolded => ?_, ?_, ?_⟩
    · rw [listYield_cons, yields, yield]
      simp [Rule.tokens]
    · rw [List.map_cons, makes, rule, meaning]
    · exact List.forall_mem_cons.mpr ⟨unfolds, unfoldsNone⟩
    · rw [listYield_cons, yield]
      simp only [List.forall_mem_cons, List.forall_mem_append]
      exact ⟨name.1, trivial, spellable, trivial, spellables⟩

namespace Write

variable {definitions : List DefinitionDerivation} {rules : List Rule}

theorem symbols (write : Write definitions rules) :
    definitions.map symbol = rules.map Rule.symbol := by
  rw [← write.rules kept, List.map_map]
  rfl

theorem accept (write : Write definitions rules) (distinct : (rules.map Rule.symbol).Nodup)
    {start : Symbol} (defined : start ∈ rules.map Rule.symbol) {tokens : List PlacedToken}
    (spelled : tokens.map PlacedToken.token = listYield definitions) :
    Accept definitions tokens start where
  spelled := spelled
  distinct := write.symbols ▸ distinct
  readable := by
    rw [spelled]
    exact fun text member => (write.spellable _ member).1
  unfolds sign member := by
    have unfolded := List.mem_map_of_mem (f := Prod.fst) member
    rw [map_unfoldSigns, spelled, unfoldedSymbols_listYield] at unfolded
    obtain ⟨definition, listed, found⟩ := List.mem_flatMap.mp unfolded
    rw [write.unfolds definition listed] at found
    cases found
  start := write.symbols ▸ defined

end Write

end DefinitionDerivation

end GrammarText

namespace Grammar

open GrammarText

/-- A grammar that can be written is made of its written form again, in whatever order its rules
are listed and however the tokens are set apart. -/
theorem ofText_listText {grammar : Grammar} (wellFormed : grammar.WellFormed)
    (layout : Token.Layout) {listing : List Rule} (reordered : listing.Perm grammar.rules.list) :
    ofText (Rule.listText layout listing) grammar.start = .ok grammar := by
  obtain ⟨definitions, write⟩ := DefinitionDerivation.exists_write
    (fun rule member => wellFormed.named rule (reordered.mem_iff.mp member))
    (fun rule member => wellFormed.ruled rule (reordered.mem_iff.mp member))
  obtain ⟨tokens, cut, spelled⟩ :=
    layout.cuts_spell (DefinitionDerivation.attached_listYield definitions).separated
      write.spellable .first
  have tokenized : Token.tokenize (Rule.listText layout listing) = .ok tokens := by
    rw [Token.tokenize, Rule.listText, String.toList_ofList, ← write.yield, cut]
  have symbols : (listing.map Rule.symbol).Perm grammar.rules.symbols := reordered.map Rule.symbol
  have accept := write.accept (symbols.nodup_iff.mpr grammar.rules.nodup_symbols)
    (symbols.mem_iff.mpr (Rules.mem_symbols_iff.mpr grammar.startDefined)) spelled
  have rules : accept.grammar.rules = grammar.rules := by
    rw [← Rules.insertAll_perm reordered]
    exact congrArg _ (write.rules _)
  rw [ofText_of_accept tokenized accept]
  obtain ⟨_, _, _⟩ := grammar
  cases rules
  rfl

theorem wellFormed_of_ofText {text : String} {start : Symbol} {grammar : Grammar}
    (made : ofText text start = .ok grammar) : grammar.WellFormed := by
  obtain ⟨tokens, definitions, cut, accept, rfl⟩ := exists_accept_of_ofText made
  exact accept.wellFormed_grammar (eachWord_scan cut)

/-- A grammar can be made of a text exactly if it can be written; and then it is made of each of its
written forms. -/
theorem exists_ofText_iff_wellFormed (grammar : Grammar) :
    ((∃ text start, ofText text start = .ok grammar) ↔ grammar.WellFormed) ∧
      (grammar.WellFormed → ∀ (layout : Token.Layout) (listing : List Rule),
        listing.Perm grammar.rules.list →
          ofText (Rule.listText layout listing) grammar.start = .ok grammar) := by
  refine ⟨⟨fun made => ?_, fun wellFormed => ?_⟩, fun wellFormed layout listing reordered => ?_⟩
  · obtain ⟨text, start, made⟩ := made
    exact wellFormed_of_ofText made
  · exact ⟨_, _, ofText_listText wellFormed .singleSpaces (List.Perm.refl _)⟩
  · exact ofText_listText wellFormed layout reordered

/-- A grammar with marks in a terminal, a label with an apostrophe, and a chain that ends with a
bare dot. -/
def quotedMarks : Grammar :=
  ⟨.insert .empty ⟨"S"⟩
      [⟨some ⟨"x'"⟩, [.spaced (.terminal "\"\\"),
          ⟨.glue, .reference ⟨"S"⟩ [.anyOf [⟨"F"⟩, ⟨"M"⟩], .reset]⟩]⟩, .nothing],
    ⟨"S"⟩, by decide⟩

theorem wellFormed_quotedMarks : quotedMarks.WellFormed := by
  have chained : Chain.WellFormed [.anyOf [⟨"F"⟩, ⟨"M"⟩], .reset] := by
    simp only [Chain.wellFormed_cons, Selector.wellFormed_anyOf, Selector.wellFormed_reset]
    exact ⟨by decide, trivial, Chain.wellFormed_nil⟩
  have named : (⟨"S"⟩ : Symbol).WellFormed := by decide
  have first : Alternative.WellFormed ⟨some ⟨"x'"⟩, [.spaced (.terminal "\"\\"),
      ⟨.glue, .reference ⟨"S"⟩ [.anyOf [⟨"F"⟩, ⟨"M"⟩], .reset]⟩]⟩ := by
    refine ⟨fun label same => ?_, List.cons_ne_nil _ _, ?_⟩
    · cases same
      decide
    exact List.forall_mem_cons.mpr
      ⟨.terminal _, List.forall_mem_singleton.mpr (.reference named chained)⟩
  refine ⟨List.forall_mem_singleton.mpr named, List.forall_mem_singleton.mpr ⟨?_, ?_⟩⟩
  · exact List.cons_ne_nil _ _
  exact List.forall_mem_cons.mpr
    ⟨first, List.forall_mem_singleton.mpr Alternative.wellFormed_nothing⟩

theorem listText_quotedMarks : Rule.listText .singleSpaces quotedMarks.rules.list =
    "S ::= x' : \"\\\"\\\\\" ^ S.(F|M). | _ ;" := by
  decide

theorem exists_ofText_quotedMarks :
    quotedMarks.WellFormed ∧ List.Perm quotedMarks.rules.list quotedMarks.rules.list ∧
      ofText "S ::= x' : \"\\\"\\\\\" ^ S.(F|M). | _ ;" quotedMarks.start = .ok quotedMarks := by
  refine ⟨wellFormed_quotedMarks, .refl _, ?_⟩
  rw [← listText_quotedMarks]
  exact (exists_ofText_iff_wellFormed quotedMarks).2 wellFormed_quotedMarks .singleSpaces _
    (.refl _)

end Grammar

end SentenceGrammar
