import SentenceGrammar.Proofs.GrammarText.Blanking
import SentenceGrammar.Proofs.GrammarText.Exchange
import SentenceGrammar.Proofs.GrammarText.Meaning

/-! Unfold signs change the odds and not the language. Without them what was spliced in stands there
as a group or a reference, and in a text without labels and positional choices that can be exchanged
for what is spliced in. -/

namespace SentenceGrammar

open Character

namespace Alternative

theorem Plain.behind {alternative : Alternative} (plain : alternative.Plain)
    (junction : Junction) : (alternative.behind junction).Plain := by
  obtain ⟨unlabelled, filled, inside⟩ := plain
  obtain ⟨label, _ | ⟨first, later⟩⟩ := alternative
  · exact absurd rfl filled
  cases junction with
  | space => exact ⟨unlabelled, filled, inside⟩
  | glue =>
    obtain ⟨here, there⟩ := List.forall_mem_cons.mp inside
    exact ⟨unlabelled, List.cons_ne_nil _ _, List.forall_mem_cons.mpr ⟨here, there⟩⟩

theorem ListPlain.behind {alternatives : List Alternative} (plain : ListPlain alternatives)
    (junction : Junction) : ListPlain (alternatives.map (Alternative.behind junction)) :=
  ⟨by simpa using plain.nonempty,
    List.forall_mem_map.mpr fun alternative member => (plain.each alternative member).behind _⟩

theorem listPlain_rows {options : List (List Alternative)} (nonempty : options ≠ [])
    (each : ∀ alternatives ∈ options, ListPlain alternatives) :
    ListPlain ((selections options).map (row none)) := by
  have some := selections_ne_nil fun alternatives member => (each alternatives member).nonempty
  refine ⟨by simpa using some, List.forall_mem_map.mpr fun chosen member => ?_⟩
  obtain ⟨length, offers⟩ := of_mem_selections member
  have plain : ∀ alternative ∈ chosen, alternative.Plain := by
    intro alternative placed
    obtain ⟨alternatives, listed, offered⟩ := offers alternative placed
    exact (each alternatives listed).each alternative offered
  refine ⟨?_, ?_, ?_⟩
  · exact List.findSome?_eq_none_iff.mpr fun alternative placed =>
      (plain alternative placed).unlabelled
  · intro empty
    obtain ⟨first, rest, rfl⟩ : ∃ first rest, chosen = first :: rest := by
      cases chosen with
      | nil => exact absurd (List.length_eq_zero_iff.mp length.symm) nonempty
      | cons first rest => exact ⟨first, rest, rfl⟩
    have silent := List.flatMap_eq_nil_iff.mp empty first List.mem_cons_self
    exact (plain first List.mem_cons_self).filled silent
  · intro part member
    obtain ⟨alternative, placed, there⟩ := List.mem_flatMap.mp member
    exact (plain alternative placed).inside part there

end Alternative

namespace GrammarText

def withoutUnfolds (tokens : List Token) : List Token :=
  tokens.filter (· ≠ .unfold)

section Tokens

@[simp] theorem withoutUnfolds_nil : withoutUnfolds [] = [] := rfl

@[simp] theorem withoutUnfolds_append (first later : List Token) :
    withoutUnfolds (first ++ later) = withoutUnfolds first ++ withoutUnfolds later :=
  List.filter_append ..

@[simp] theorem withoutUnfolds_cons (token : Token) (later : List Token) :
    withoutUnfolds (token :: later) =
      if token = .unfold then withoutUnfolds later else token :: withoutUnfolds later := by
  by_cases sign : token = .unfold <;> simp [withoutUnfolds, sign]

@[simp] theorem withoutUnfolds_junction (junction : Junction) :
    withoutUnfolds (junctionTokens junction) = junctionTokens junction := by
  cases junction <;> rfl

@[simp] theorem withoutUnfolds_label (label : Option String) :
    withoutUnfolds (labelTokens label) = labelTokens label := by
  cases label <;> rfl

@[simp] theorem withoutUnfolds_chain (chain : Option String) :
    withoutUnfolds (chainTokens chain) = chainTokens chain := by
  cases chain <;> rfl

end Tokens

def Category.Plain : (category : Category) → category.Meaning → Prop
  | .branches | .branch | .piece => Alternative.ListPlain
  | .pieces => fun options =>
    options ≠ [] ∧ ∀ alternatives ∈ options, Alternative.ListPlain alternatives
  | .others => fun atoms => atoms = []
  | .term => Atom.Plain

namespace Derivation

/-- A derivation without labels and positional choices, of which all unfolded names are defined. -/
@[simp] def Plain (defined : Symbol → Prop) {category : Category} : Derivation category → Prop
  | lastBranch branch => branch.Plain defined
  | nextBranch branch later => branch.Plain defined ∧ later.Plain defined
  | sequence label pieces => label = none ∧ pieces.Plain defined
  | lastPiece piece => piece.Plain defined
  | nextPiece piece later => piece.Plain defined ∧ later.Plain defined
  | plain _ first others => first.Plain defined ∧ others.Plain defined
  | unfoldSymbol _ name _ => defined ⟨name⟩
  | unfoldGroup _ branches => branches.Plain defined
  | unfoldOptional _ branches => branches.Plain defined
  | noOther => True
  | nextOther _ _ => False
  | word _ _ => True
  | quoted _ _ => True
  | group branches _ => branches.Plain defined
  | optional branches _ => branches.Plain defined

variable {defined : Symbol → Prop} {category : Category}

theorem plain_of_yield (derivation : Derivation category) (unlabelled : .colon ∉ derivation.yield)
    (single : .comma ∉ derivation.yield) (unfolds : ∀ symbol ∈ derivation.unfolds, defined symbol) :
    derivation.Plain defined := by
  induction derivation with
  | sequence label pieces ih =>
    cases label <;> simp_all [Derivation.unfolds]
  | _ => simp_all [Derivation.unfolds]

theorem plain_meaning {unfolded : Symbol → List Alternative} (derivation : Derivation category)
    (expands : ∀ symbol, defined symbol → Alternative.ListPlain (unfolded symbol))
    (plain : derivation.Plain defined) :
    category.Plain (derivation.meaning unfolded) := by
  have nothing : Alternative.ListPlain [.nothing] :=
    .singleton (Alternative.plain_singleton .epsilon)
  induction derivation with
  | lastBranch branch ih => exact ih plain
  | nextBranch branch later ihBranch ihLater => exact (ihBranch plain.1).append (ihLater plain.2)
  | sequence label pieces ih =>
    obtain ⟨rfl, plain⟩ := plain
    exact Alternative.listPlain_rows (ih plain).1 (ih plain).2
  | lastPiece piece ih =>
    exact ⟨List.cons_ne_nil _ _, List.forall_mem_singleton.mpr (ih plain)⟩
  | nextPiece piece later ihPiece ihLater =>
    exact ⟨List.cons_ne_nil _ _,
      List.forall_mem_cons.mpr ⟨ihPiece plain.1, (ihLater plain.2).2⟩⟩
  | plain junction first others ihFirst ihOthers =>
    have none : others.meaning unfolded = [] := ihOthers plain.2
    rw [meaning, none]
    exact .singleton (Alternative.plain_singleton (ihFirst plain.1))
  | unfoldSymbol junction name uppercase => exact (expands _ plain).behind junction
  | unfoldGroup junction branches ih => exact (ih plain).behind junction
  | unfoldOptional junction branches ih => exact ((ih plain).append nothing).behind junction
  | noOther => rfl
  | nextOther term later => exact plain.elim
  | word text chain =>
    rw [meaning]
    split
    · exact .epsilon
    split
    · exact .reference
    · exact .terminal
  | quoted text chain => exact .terminal
  | group branches chain ih => exact Atom.plain_group.mpr (ih plain)
  | optional branches chain ih => exact Atom.plain_group.mpr ((ih plain).append nothing)

@[simp] def fold {category : Category} : Derivation category → Derivation category
  | lastBranch branch => lastBranch branch.fold
  | nextBranch branch later => nextBranch branch.fold later.fold
  | sequence label pieces => sequence label pieces.fold
  | lastPiece piece => lastPiece piece.fold
  | nextPiece piece later => nextPiece piece.fold later.fold
  | plain junction first others => plain junction first.fold others.fold
  | unfoldSymbol junction name uppercase => namePiece junction name uppercase
  | unfoldGroup junction branches => plain junction (group branches.fold none) noOther
  | unfoldOptional junction branches => plain junction (optional branches.fold none) noOther
  | noOther => noOther
  | nextOther term later => nextOther term.fold later.fold
  | word text chain => word text chain
  | quoted text chain => quoted text chain
  | group branches chain => group branches.fold chain
  | optional branches chain => optional branches.fold chain

theorem yield_fold (derivation : Derivation category) :
    derivation.fold.yield = withoutUnfolds derivation.yield := by
  induction derivation with
  | unfoldSymbol junction name uppercase => simp [yield_namePiece]
  | unfoldGroup junction branches ih => simp [ih, chainTokens]
  | unfoldOptional junction branches ih => simp [ih, chainTokens]
  | _ => simp_all

theorem plain_fold {derivation : Derivation category} (plain : derivation.Plain defined) :
    derivation.fold.Plain defined := by
  induction derivation with
  | sequence label pieces ih => exact ⟨plain.1, ih plain.2⟩
  | unfoldSymbol => simp [namePiece]
  | _ => simp_all

theorem unfolds_fold (derivation : Derivation category) : derivation.fold.unfolds = [] := by
  induction derivation with
  | unfoldSymbol => rfl
  | _ => simp_all [Derivation.unfolds]

theorem meaning_fold (unfolded other : Symbol → List Alternative)
    (derivation : Derivation category) :
    derivation.fold.meaning unfolded = derivation.fold.meaning other := by
  induction derivation with
  | unfoldSymbol junction name uppercase => rw [fold, meaning_namePiece, meaning_namePiece]
  | _ => simp_all

end Derivation

def Category.Exchange (grammar folded : Grammar) (room : Nat) :
    (category : Category) → category.Meaning → category.Meaning → Prop
  | .branches | .branch | .piece => Alternative.Exchange grammar folded room
  | .pieces => List.Forall₂ (Alternative.Exchange grammar folded room)
  | .others => fun _ _ => True
  | .term => Atom.Exchange grammar folded room

open DefinitionDerivation

section Exchange

variable {grammar folded : Grammar} {room : Nat} {defined : Symbol → Prop}
  {unfolded : Symbol → List Alternative}

/-- What a derivation denotes can be exchanged for what it denotes without unfold signs: for so much
room if groups can for less, references can, and what unfolded names stand for can be exchanged for
references. -/
theorem Derivation.exchange_meaning {category : Category} {derivation : Derivation category}
    (expands : ∀ symbol, defined symbol → Alternative.ListPlain (unfolded symbol))
    (references : ∀ symbol chain,
      Atom.Exchange grammar folded room (.reference symbol chain) (.reference symbol chain))
    (names : ∀ junction symbol, defined symbol → Alternative.Exchange grammar folded room
      ((unfolded symbol).map (Alternative.behind junction))
      ((kept symbol).map (Alternative.behind junction)))
    (inside : ∀ less < room, ∀ branches : Derivation .branches, branches.Plain defined →
      Alternative.Exchange grammar folded less (branches.meaning unfolded)
        (branches.fold.meaning kept))
    (plain : derivation.Plain defined) :
    category.Exchange grammar folded room (derivation.meaning unfolded)
      (derivation.fold.meaning kept) := by
  induction derivation with
  | lastBranch branch ih => exact ih plain
  | nextBranch branch later ihBranch ihLater => exact (ihBranch plain.1).append (ihLater plain.2)
  | sequence label pieces ih => exact .rows (ih plain.2)
  | lastPiece piece ih => exact .cons (ih plain) .nil
  | nextPiece piece later ihPiece ihLater => exact .cons (ihPiece plain.1) (ihLater plain.2)
  | plain junction first others ihFirst _ =>
    cases others with
    | noOther => exact .singleton (ihFirst plain.1)
    | nextOther term later => exact plain.2.elim
  | unfoldSymbol junction name uppercase =>
    rw [Derivation.fold, meaning_namePiece]
    exact names junction _ plain
  | unfoldGroup junction branches ih =>
    have list : Alternative.ListPlain (branches.meaning unfolded) :=
      branches.plain_meaning expands plain
    exact .splice (fun alternative member => (list.each alternative member).filled) junction rfl
      (ih plain) fun less lower => inside less lower branches plain
  | unfoldOptional junction branches ih =>
    have list : Alternative.ListPlain (branches.meaning unfolded ++ [.nothing]) :=
      (branches.plain_meaning expands plain).append
        (.singleton (Alternative.plain_singleton .epsilon))
    exact .splice (fun alternative member => (list.each alternative member).filled) junction rfl
      ((ih plain).append .nothing) fun less lower =>
        (inside less lower branches plain).append .nothing
  | noOther => trivial
  | nextOther term later => exact plain.elim
  | word text chain =>
    rw [Derivation.fold, meaning, meaning]
    split
    · exact Atom.exchange_epsilon
    split
    · exact references _ _
    · exact Atom.exchange_terminal _
  | quoted text chain => exact Atom.exchange_terminal _
  | group branches chain ih =>
    exact Atom.exchange_of_opening rfl rfl fun less lower => inside less lower branches plain
  | optional branches chain ih =>
    exact Atom.exchange_of_opening rfl rfl fun less lower =>
      (inside less lower branches plain).append .nothing

end Exchange

variable {grammar folded : Grammar} {definitions : List DefinitionDerivation}

abbrev Derivation.PlainIn (definitions : List DefinitionDerivation)
    (branches : Derivation .branches) : Prop :=
  branches.Plain fun symbol => symbol ∈ definitions.map DefinitionDerivation.symbol

def DefinitionDerivation.ListPlain (definitions : List DefinitionDerivation) : Prop :=
  ∀ symbol branches, find symbol definitions = some branches → branches.PlainIn definitions

theorem DefinitionDerivation.listPlain_kept (symbol : Symbol) :
    Alternative.ListPlain (kept symbol) :=
  .singleton (Alternative.plain_singleton .reference)

theorem DefinitionDerivation.ListPlain.unfolded (plain : ListPlain definitions) (symbol : Symbol)
    (known : symbol ∈ definitions.map DefinitionDerivation.symbol) :
    Alternative.ListPlain (DefinitionDerivation.unfolded definitions symbol) := by
  obtain ⟨branches, found⟩ := Option.isSome_iff_exists.mp (find_isSome known)
  rw [DefinitionDerivation.unfolded, found]
  exact branches.plain_meaning (fun symbol _ => listPlain_kept symbol) (plain symbol branches found)

/-- Grammars with the rules of definitions, and with those of the same definitions without unfold
signs. -/
structure DefinitionDerivation.Folds (definitions : List DefinitionDerivation)
    (grammar folded : Grammar) : Prop where
  lookup : ∀ symbol, grammar.lookup symbol =
    (find symbol definitions).map (Derivation.meaning (DefinitionDerivation.unfolded definitions))
  lookupFolded : ∀ symbol, folded.lookup symbol =
    (find symbol definitions).map fun branches => branches.fold.meaning kept

namespace DefinitionDerivation.Folds

theorem exchange_reference (folds : Folds definitions grammar folded)
    (plain : ListPlain definitions) {room : Nat}
    (inside : ∀ less < room, ∀ branches : Derivation .branches, branches.PlainIn definitions →
      Alternative.Exchange grammar folded less
        (branches.meaning (DefinitionDerivation.unfolded definitions))
        (branches.fold.meaning kept)) (symbol : Symbol) (chain : Chain) :
    Atom.Exchange grammar folded room (.reference symbol chain) (.reference symbol chain) := by
  refine Atom.exchange_reference chain ?_
  rw [folds.lookup, folds.lookupFolded]
  cases found : find symbol definitions with
  | none => exact .inl ⟨rfl, rfl⟩
  | some body =>
    exact .inr ⟨_, _, rfl, rfl, fun less lower => inside less lower body (plain _ _ found)⟩

theorem exchange_branches (folds : Folds definitions grammar folded)
    (plain : ListPlain definitions) (room : Nat) (branches : Derivation .branches)
    (here : branches.PlainIn definitions) :
    Alternative.Exchange grammar folded room (branches.meaning kept) (branches.fold.meaning kept) ∧
      Alternative.Exchange grammar folded room
        (branches.meaning (DefinitionDerivation.unfolded definitions))
        (branches.fold.meaning kept) := by
  induction room using Nat.strongRecOn generalizing branches with
  | _ room ih =>
    have references := folds.exchange_reference plain fun less lower body inner =>
      (ih less lower body inner).2
    -- Names that are kept come first: what an unfolded name stands for keeps the names in it.
    have keeping : ∀ body : Derivation .branches, body.PlainIn definitions →
        Alternative.Exchange grammar folded room (body.meaning kept) (body.fold.meaning kept) := by
      intro body inner
      refine Derivation.exchange_meaning (fun symbol _ => listPlain_kept symbol) references ?_
        (fun less lower body inner => (ih less lower body inner).1) inner
      intro junction symbol _
      cases junction <;> exact .singleton (references symbol [])
    refine ⟨keeping branches here, ?_⟩
    refine Derivation.exchange_meaning plain.unfolded references ?_
      (fun less lower body inner => (ih less lower body inner).2) here
    intro junction symbol known
    obtain ⟨body, found⟩ := Option.isSome_iff_exists.mp (find_isSome known)
    have inner := plain symbol body found
    have list : Alternative.ListPlain (body.meaning kept) :=
      body.plain_meaning (fun symbol _ => listPlain_kept symbol) inner
    have opening : (Atom.reference symbol []).opening folded =
        some (body.fold.meaning kept, []) := by
      rw [Atom.opening, folds.lookupFolded, found]
      rfl
    have expands : DefinitionDerivation.unfolded definitions symbol = body.meaning kept := by
      rw [DefinitionDerivation.unfolded, found]
      rfl
    have refers : (kept symbol).map (Alternative.behind junction) =
        [⟨none, [⟨junction, .reference symbol []⟩]⟩] := by
      cases junction <;> rfl
    rw [expands, refers]
    exact .splice (fun alternative member => (list.each alternative member).filled) junction opening
      (keeping body inner) fun less lower => (ih less lower body inner).1

theorem mayWrite_iff (folds : Folds definitions grammar folded) (plain : ListPlain definitions)
    (symbol : Symbol) (change : Line → Line) :
    Atom.MayWrite grammar (.reference symbol []) change ↔
      Atom.MayWrite folded (.reference symbol []) change := by
  have exchange := fun room => folds.exchange_reference plain
    (fun less (_ : less < room) body inner =>
      (folds.exchange_branches plain less body inner).2) symbol []
  constructor
  · rintro ⟨room, writes⟩
    exact (exchange room).forth change writes
  · rintro ⟨room, writes⟩
    exact (exchange room).back change writes

theorem plain_grammar (folds : Folds definitions grammar folded) (plain : ListPlain definitions) :
    grammar.Plain := by
  intro symbol alternatives found
  rw [folds.lookup] at found
  obtain ⟨branches, listed, rfl⟩ := Option.map_eq_some_iff.mp found
  exact branches.plain_meaning plain.unfolded (plain symbol branches listed)

theorem plain_folded (folds : Folds definitions grammar folded) (plain : ListPlain definitions) :
    folded.Plain := by
  intro symbol alternatives found
  rw [folds.lookupFolded] at found
  obtain ⟨branches, listed, rfl⟩ := Option.map_eq_some_iff.mp found
  exact branches.fold.plain_meaning (fun symbol _ => listPlain_kept symbol)
    (Derivation.plain_fold (plain symbol branches listed))

end DefinitionDerivation.Folds

namespace DefinitionDerivation

def fold (definition : DefinitionDerivation) : DefinitionDerivation :=
  { definition with branches := definition.branches.fold }

theorem map_symbol_fold (definitions : List DefinitionDerivation) :
    (definitions.map fold).map symbol = definitions.map symbol := by
  rw [List.map_map]
  rfl

theorem find_fold (definitions : List DefinitionDerivation) (symbol : Symbol) :
    find symbol (definitions.map fold) = (find symbol definitions).map Derivation.fold := by
  induction definitions with
  | nil => rfl
  | cons definition later ih =>
    rw [List.map_cons, find, find, ih]
    by_cases same : definition.symbol = symbol
    · rw [if_pos same, if_pos (show (fold definition).symbol = symbol from same)]
      rfl
    · rw [if_neg same, if_neg (show ¬(fold definition).symbol = symbol from same)]

theorem listYield_fold (definitions : List DefinitionDerivation) :
    listYield (definitions.map fold) = withoutUnfolds (listYield definitions) := by
  induction definitions with
  | nil => rfl
  | cons definition later ih =>
    rw [List.map_cons, listYield_cons, listYield_cons, ih]
    simp [fold, Derivation.yield_fold]

theorem exists_mem_of_find {symbol : Symbol} {branches : Derivation .branches}
    (found : find symbol definitions = some branches) :
    ∃ definition ∈ definitions, definition.branches = branches := by
  induction definitions with
  | nil => cases found
  | cons definition later ih =>
    rw [find] at found
    split at found
    · exact ⟨definition, List.mem_cons_self, Option.some.inj found⟩
    · obtain ⟨other, member, same⟩ := ih found
      exact ⟨other, List.mem_cons_of_mem _ member, same⟩

namespace Accept

variable {tokens kept : List PlacedToken} {start : Symbol}

theorem listPlain (accept : Accept definitions tokens start)
    (unlabelled : .colon ∉ tokens.map PlacedToken.token)
    (single : .comma ∉ tokens.map PlacedToken.token) : ListPlain definitions := by
  intro symbol branches found
  obtain ⟨definition, member, rfl⟩ := exists_mem_of_find found
  rw [accept.spelled] at unlabelled single
  have inside : ∀ token ∈ definition.branches.yield, token ∈ listYield definitions := by
    intro token placed
    refine List.mem_flatMap.mpr ⟨definition, member, ?_⟩
    simp [yield, placed]
  exact definition.branches.plain_of_yield (fun placed => unlabelled (inside _ placed))
    (fun placed => single (inside _ placed)) fun symbol => accept.mem_of_unfolds member

theorem fold (accept : Accept definitions tokens start)
    (spelled : kept.map PlacedToken.token = withoutUnfolds (tokens.map PlacedToken.token)) :
    Accept (definitions.map fold) kept start where
  spelled := by rw [spelled, accept.spelled, listYield_fold]
  distinct := by
    rw [map_symbol_fold]
    exact accept.distinct
  readable := by
    intro text member
    rw [spelled] at member
    exact accept.readable text (List.mem_of_mem_filter member)
  unfolds := by
    have none : (unfoldSigns kept).map Prod.fst = [] := by
      rw [map_unfoldSigns, spelled, accept.spelled, ← listYield_fold, unfoldedSymbols_listYield,
        List.flatMap_map, List.flatMap_eq_nil_iff]
      exact fun definition _ => definition.branches.unfolds_fold
    rw [List.map_eq_nil_iff.mp none]
    exact nofun
  start := by
    rw [map_symbol_fold]
    exact accept.start

theorem folds (accept : Accept definitions tokens start)
    (acceptToo : Accept (definitions.map DefinitionDerivation.fold) kept start) :
    Folds definitions accept.grammar acceptToo.grammar where
  lookup := lookup_insertAll accept.distinct _
  lookupFolded symbol := by
    have folded := lookup_insertAll acceptToo.distinct
      (DefinitionDerivation.unfolded (definitions.map DefinitionDerivation.fold)) symbol
    rw [find_fold, Option.map_map] at folded
    refine folded.trans (congrArg (fun read => (find symbol definitions).map read) ?_)
    funext branches
    exact branches.meaning_fold _ _

end Accept

end DefinitionDerivation

end GrammarText

namespace Grammar

open GrammarText

/-- Unfold signs change the odds and not the language. Take a text without labels and positional
choices that makes a grammar. Its tokens without the unfold signs make a grammar, too. So does every
text with just those tokens, such as the one with blanks in place of the signs. And the same
untrimmed texts are generated from both grammars on some random words within some limit, whatever
labels are active. -/
theorem exists_generate_iff_withoutUnfolds {text : String} {tokens : List PlacedToken}
    {start : Symbol} {grammar : Grammar} (cut : Token.tokenize text = .ok tokens)
    (unlabelled : .colon ∉ tokens.map PlacedToken.token)
    (single : .comma ∉ tokens.map PlacedToken.token) (made : ofText text start = .ok grammar) :
    ∃ folded : Grammar,
      ofTokens (tokens.filter fun placed => placed.token ≠ .unfold) start = .ok folded ∧
      ofText (String.ofList (Token.blankUnfolds 0 text.toList)) start = .ok folded ∧
      (∀ other kept, Token.tokenize other = .ok kept →
        kept.map PlacedToken.token = withoutUnfolds (tokens.map PlacedToken.token) →
          ofText other start = .ok folded) ∧
      ∀ seed scopes events generated,
        (∃ (limit : Nat) (words : Nat → UInt64) (final : Run (Nat → UInt64)),
          grammar.generate ⟨limit, false⟩ ⟨seed, words, scopes, events⟩ = .ok generated final) ↔
        ∃ (limit : Nat) (words : Nat → UInt64) (final : Run (Nat → UInt64)),
          folded.generate ⟨limit, false⟩ ⟨seed, words, scopes, events⟩ = .ok generated final := by
  rw [ofText_eq_ofTokens start cut] at made
  obtain ⟨definitions, accept, rfl⟩ := (ofTokens_eq_ok (Token.notEmpty_scan cut)).mp made
  have plain := accept.listPlain unlabelled single
  have spelled : (tokens.filter fun placed => placed.token ≠ .unfold).map PlacedToken.token =
      withoutUnfolds (tokens.map PlacedToken.token) := by
    rw [withoutUnfolds, List.filter_map]
    rfl
  have acceptToo := accept.fold spelled
  have others : ∀ other kept, Token.tokenize other = .ok kept →
      kept.map PlacedToken.token = withoutUnfolds (tokens.map PlacedToken.token) →
        ofText other start = .ok acceptToo.grammar := by
    intro other kept cutToo same
    rw [ofText_eq_ofTokens start cutToo]
    exact (ofTokens_eq_ok (Token.notEmpty_scan cutToo)).mpr ⟨_, accept.fold same, rfl⟩
  have blanked := Token.tokenize_blankUnfolds cut
  have folds := accept.folds acceptToo
  refine ⟨acceptToo.grammar, ?_, others _ _ blanked spelled, others, ?_⟩
  · exact (ofTokens_eq_ok (Token.notEmpty_scan blanked)).mpr ⟨_, acceptToo, rfl⟩
  · intro seed scopes events generated
    rw [exists_generate_iff_mayWrite (folds.plain_grammar plain),
      exists_generate_iff_mayWrite (folds.plain_folded plain)]
    exact exists_congr fun change => and_congr_left' (folds.mayWrite_iff plain start change)

/-- The definitions of a rule that unfolds itself within a glued group, and then another rule. -/
def nestedUnfolds : List DefinitionDerivation :=
  [⟨⟨"Echo"⟩, by decide, .lastBranch (.sequence none
      (.nextPiece (.plain .space (.word "a" none) .noOther)
        (.nextPiece (.unfoldOptional .glue (.lastBranch (.sequence none
            (.nextPiece (.unfoldSymbol .space "Echo" (by decide))
              (.lastPiece (.plain .space (.word "b" none) .noOther))))))
          (.lastPiece (.unfoldSymbol .space "Last" (by decide))))))⟩,
    ⟨⟨"Last"⟩, by decide,
      .lastBranch (.sequence none (.lastPiece (.plain .space (.word "c" none) .noOther)))⟩]

theorem exists_generate_iff_nestedUnfolds :
    ∃ grammar folded : Grammar, ofText "Echo::=a^>[>Echo b]>Last;Last::=c;" ⟨"Echo"⟩ = .ok grammar ∧
      ofText "Echo::=a^ [ Echo b] Last;Last::=c;" ⟨"Echo"⟩ = .ok folded ∧
      ∀ seed scopes events generated,
        (∃ (limit : Nat) (words : Nat → UInt64) (final : Run (Nat → UInt64)),
          grammar.generate ⟨limit, false⟩ ⟨seed, words, scopes, events⟩ = .ok generated final) ↔
        ∃ (limit : Nat) (words : Nat → UInt64) (final : Run (Nat → UInt64)),
          folded.generate ⟨limit, false⟩ ⟨seed, words, scopes, events⟩ = .ok generated final := by
  obtain ⟨tokens, cut⟩ :
      ∃ tokens, Token.tokenize "Echo::=a^>[>Echo b]>Last;Last::=c;" = .ok tokens := ⟨_, rfl⟩
  have spelled : tokens.map PlacedToken.token = DefinitionDerivation.listYield nestedUnfolds := by
    cases cut
    rfl
  have accept : DefinitionDerivation.Accept nestedUnfolds tokens ⟨"Echo"⟩ := {
    spelled
    distinct := by decide
    readable := by
      intro text member
      rw [spelled] at member
      simp [nestedUnfolds, DefinitionDerivation.listYield, DefinitionDerivation.yield, labelTokens,
        junctionTokens, chainTokens] at member
    unfolds := by
      cases cut
      decide
    start := by decide }
  have made := (ofTokens_eq_ok (Token.notEmpty_scan cut)).mpr ⟨_, accept, rfl⟩
  rw [← ofText_eq_ofTokens _ cut] at made
  obtain ⟨folded, _, blanked, _, same⟩ := exists_generate_iff_withoutUnfolds cut
    (by rw [spelled]; decide) (by rw [spelled]; decide) made
  exact ⟨_, folded, made, blanked, same⟩

end Grammar

end SentenceGrammar
