import SentenceGrammar.Proofs.GrammarText.Acceptance

/-! Unfolding a name is unfolding the body of its definition in place, one level deep. Tokens with
the bodies written in place of the names make the same grammar, and nothing is left to unfold in
them. -/

namespace SentenceGrammar

open Character

namespace GrammarText

def replaceNames (written : String → List Token) : List Token → List Token
  | .unfold :: .word name :: later =>
    if startsUppercase name.toList then written name ++ replaceNames written later
    else .unfold :: .word name :: replaceNames written later
  | token :: later => token :: replaceNames written later
  | [] => []

def foldNames (tokens : List Token) : List Token :=
  replaceNames (fun name => [.word name]) tokens

def definitionBody (name : String) : List Token → Option (List Token)
  | .word found :: .define :: later =>
    if found = name then some (later.takeWhile (· ≠ .semicolon)) else definitionBody name later
  | _ :: later => definitionBody name later
  | [] => none

/-- An unfold sign and the body of a definition in parentheses, in which names are folded. -/
def unfoldedBody (tokens : List Token) (name : String) : List Token :=
  match definitionBody name tokens with
  | some body => .unfold :: .openParen :: (foldNames body ++ [.closeParen])
  | none => [.unfold, .word name]

/-- Writes the bodies of definitions in place of the names after unfold signs. -/
def inlineNames (tokens : List Token) : List Token :=
  replaceNames (unfoldedBody tokens) tokens

section Replacing

variable {written : String → List Token} {later : List Token}

@[simp] theorem replaceNames_cons {token : Token} (other : token ≠ .unfold) :
    replaceNames written (token :: later) = token :: replaceNames written later := by
  rw [replaceNames]
  simp [other]

@[simp] theorem replaceNames_name {name : String} (uppercase : startsUppercase name.toList = true) :
    replaceNames written (.unfold :: .word name :: later) =
      written name ++ replaceNames written later := by
  rw [replaceNames, if_pos uppercase]

@[simp] theorem replaceNames_other {token : Token} (other : ∀ text, token ≠ .word text) :
    replaceNames written (.unfold :: token :: later) =
      .unfold :: replaceNames written (token :: later) := by
  rw [replaceNames]
  simp [other]

@[simp] theorem replaceNames_junction (junction : Junction) :
    replaceNames written (junctionTokens junction ++ later) =
      junctionTokens junction ++ replaceNames written later := by
  cases junction <;> simp [junctionTokens]

@[simp] theorem replaceNames_label (label : Option String) :
    replaceNames written (labelTokens label ++ later) =
      labelTokens label ++ replaceNames written later := by
  cases label <;> simp [labelTokens]

@[simp] theorem replaceNames_chain (chain : Option String) :
    replaceNames written (chainTokens chain ++ later) =
      chainTokens chain ++ replaceNames written later := by
  cases chain <;> simp [chainTokens]

end Replacing

def unfoldedSymbols : List Token → List Symbol
  | .unfold :: .word name :: later =>
    if startsUppercase name.toList then ⟨name⟩ :: unfoldedSymbols later else unfoldedSymbols later
  | _ :: later => unfoldedSymbols later
  | [] => []

section Symbols

variable {later : List Token}

@[simp] theorem unfoldedSymbols_cons {token : Token} (other : token ≠ .unfold) :
    unfoldedSymbols (token :: later) = unfoldedSymbols later := by
  rw [unfoldedSymbols]
  simp [other]

@[simp] theorem unfoldedSymbols_name {name : String}
    (uppercase : startsUppercase name.toList = true) :
    unfoldedSymbols (.unfold :: .word name :: later) = ⟨name⟩ :: unfoldedSymbols later := by
  rw [unfoldedSymbols, if_pos uppercase]

@[simp] theorem unfoldedSymbols_other {token : Token} (other : ∀ text, token ≠ .word text) :
    unfoldedSymbols (.unfold :: token :: later) = unfoldedSymbols (token :: later) := by
  rw [unfoldedSymbols]
  simp [other]

@[simp] theorem unfoldedSymbols_junction (junction : Junction) :
    unfoldedSymbols (junctionTokens junction ++ later) = unfoldedSymbols later := by
  cases junction <;> simp [junctionTokens]

@[simp] theorem unfoldedSymbols_label (label : Option String) :
    unfoldedSymbols (labelTokens label ++ later) = unfoldedSymbols later := by
  cases label <;> simp [labelTokens]

@[simp] theorem unfoldedSymbols_chain (chain : Option String) :
    unfoldedSymbols (chainTokens chain ++ later) = unfoldedSymbols later := by
  cases chain <;> simp [chainTokens]

theorem map_unfoldSigns (tokens : List PlacedToken) :
    (unfoldSigns tokens).map Prod.fst = unfoldedSymbols (tokens.map PlacedToken.token) := by
  fun_induction unfoldSigns tokens with
  | case1 sign name position later uppercase ih => simp [uppercase, ih]
  | case2 sign name position later other ih => simp [unfoldedSymbols, other, ih]
  | case3 token later other ih =>
    rcases token with ⟨token, position⟩
    rw [List.map_cons, unfoldedSymbols, ih]
    intro name others same spelled
    subst same
    obtain ⟨place, after, rfl, _⟩ := map_token_eq_cons.mp spelled
    exact other _ _ _ _ rfl rfl
  | case4 => rfl

end Symbols

namespace Derivation

def replace (change : Junction → (name : String) → startsUppercase name.toList = true →
    Derivation .piece) {category : Category} : Derivation category → Derivation category
  | lastBranch branch => lastBranch (branch.replace change)
  | nextBranch branch later => nextBranch (branch.replace change) (later.replace change)
  | sequence label pieces => sequence label (pieces.replace change)
  | lastPiece piece => lastPiece (piece.replace change)
  | nextPiece piece later => nextPiece (piece.replace change) (later.replace change)
  | plain junction first others =>
    plain junction (first.replace change) (others.replace change)
  | unfoldSymbol junction name uppercase => change junction name uppercase
  | unfoldGroup junction branches => unfoldGroup junction (branches.replace change)
  | unfoldOptional junction branches => unfoldOptional junction (branches.replace change)
  | noOther => noOther
  | nextOther term later => nextOther (term.replace change) (later.replace change)
  | word text chain => word text chain
  | quoted text chain => quoted text chain
  | group branches chain => group (branches.replace change) chain
  | optional branches chain => optional (branches.replace change) chain

section Changes

variable {category : Category}
  {change : Junction → (name : String) → startsUppercase name.toList = true → Derivation .piece}

/-- Replacing names in tokens is replacing them in what derives the tokens. -/
theorem replaceNames_yield {written : String → List Token}
    (spelled : ∀ junction name uppercase,
      (change junction name uppercase).yield = junctionTokens junction ++ written name)
    (derivation : Derivation category) (more : List Token) :
    replaceNames written (derivation.yield ++ more) =
      (derivation.replace change).yield ++ replaceNames written more := by
  induction derivation generalizing more with
  | unfoldSymbol junction name uppercase => simp [replace, spelled, uppercase]
  | _ => simp_all [replace]

theorem meaning_replace {unfolded other : Symbol → List Alternative}
    (means : ∀ junction name uppercase,
      (change junction name uppercase).meaning unfolded =
        (other ⟨name⟩).map (Alternative.behind junction))
    (derivation : Derivation category) :
    (derivation.replace change).meaning unfolded = derivation.meaning other := by
  induction derivation with
  | unfoldSymbol junction name uppercase => exact means junction name uppercase
  | _ => simp_all [replace]

end Changes

def namePiece (junction : Junction) (name : String) (_ : startsUppercase name.toList = true) :
    Derivation .piece :=
  .plain junction (.word name none) .noOther

theorem yield_namePiece (junction : Junction) (name : String)
    (uppercase : startsUppercase name.toList = true) :
    (namePiece junction name uppercase).yield = junctionTokens junction ++ [.word name] := rfl

theorem meaning_namePiece (unfolded : Symbol → List Alternative) (junction : Junction)
    (name : String) (uppercase : startsUppercase name.toList = true) :
    (namePiece junction name uppercase).meaning unfolded =
      (DefinitionDerivation.kept ⟨name⟩).map (Alternative.behind junction) := by
  have different : name ≠ "_" := by
    intro same
    subst same
    revert uppercase
    decide
  cases junction <;> simp [namePiece, different, uppercase, chainMeaning,
    DefinitionDerivation.kept, Alternative.behind, Part.spaced]

def unfolds {category : Category} : Derivation category → List Symbol
  | lastBranch branch => branch.unfolds
  | nextBranch branch later => branch.unfolds ++ later.unfolds
  | sequence _ pieces => pieces.unfolds
  | lastPiece piece => piece.unfolds
  | nextPiece piece later => piece.unfolds ++ later.unfolds
  | plain _ first others => first.unfolds ++ others.unfolds
  | unfoldSymbol _ name _ => [⟨name⟩]
  | unfoldGroup _ branches => branches.unfolds
  | unfoldOptional _ branches => branches.unfolds
  | noOther => []
  | nextOther term later => term.unfolds ++ later.unfolds
  | word _ _ => []
  | quoted _ _ => []
  | group branches _ => branches.unfolds
  | optional branches _ => branches.unfolds

theorem unfolds_replace
    {change : Junction → (name : String) → startsUppercase name.toList = true → Derivation .piece}
    (remaining : Symbol → List Symbol)
    (unfolds : ∀ junction name uppercase,
      (change junction name uppercase).unfolds = remaining ⟨name⟩)
    {category : Category} (derivation : Derivation category) :
    (derivation.replace change).unfolds = derivation.unfolds.flatMap remaining := by
  induction derivation with
  | unfoldSymbol junction name uppercase => simp [Derivation.unfolds, replace, unfolds]
  | _ => simp_all [Derivation.unfolds, replace]

theorem unfoldedSymbols_yield {category : Category} (derivation : Derivation category)
    (more : List Token) :
    unfoldedSymbols (derivation.yield ++ more) = derivation.unfolds ++ unfoldedSymbols more := by
  induction derivation generalizing more with
  | unfoldSymbol junction name uppercase => simp [unfolds, uppercase]
  | _ => simp_all [unfolds]

/-- Nothing within a definition looks like the beginning or the end of one. -/
theorem not_mem_yield {token : Token} (outside : token = .define ∨ token = .semicolon)
    {category : Category} (derivation : Derivation category) : token ∉ derivation.yield := by
  rcases outside with rfl | rfl <;> induction derivation <;> simp_all

end Derivation

namespace DefinitionDerivation

theorem definitionBody_append {name : String} {front rest : List Token} (inner : .define ∉ front) :
    definitionBody name (front ++ .semicolon :: rest) = definitionBody name rest := by
  induction front with
  | nil => rfl
  | cons token later ih =>
    rw [List.mem_cons, not_or] at inner
    rw [List.cons_append, definitionBody]
    · exact ih inner.2
    · intro found others word same
      subst word
      cases later with
      | nil => cases same
      | cons next later => simp_all

theorem definitionBody_listYield (definitions : List DefinitionDerivation) (name : String) :
    definitionBody name (listYield definitions) =
      (find ⟨name⟩ definitions).map Derivation.yield := by
  induction definitions with
  | nil => rfl
  | cons definition later ih =>
    rcases definition with ⟨⟨found⟩, uppercase, branches⟩
    rw [listYield_cons, definitionBody, find]
    by_cases same : found = name
    · subst same
      have inner : ∀ token ∈ branches.yield, decide (token ≠ .semicolon) = true := by
        intro token member
        have other : token ≠ .semicolon := by
          intro same
          subst same
          exact Derivation.not_mem_yield (.inr rfl) branches member
        simp [other]
      rw [if_pos rfl, if_pos rfl, List.takeWhile_append_of_pos inner,
        List.takeWhile_cons_of_neg (by simp), List.append_nil, Option.map_some]
    · have different : (⟨found⟩ : Symbol) ≠ ⟨name⟩ := by simpa using same
      rw [if_neg same, if_neg different, ← ih]
      exact definitionBody_append (Derivation.not_mem_yield (.inl rfl) branches)

theorem unfoldedSymbols_listYield (definitions : List DefinitionDerivation) :
    unfoldedSymbols (listYield definitions) =
      definitions.flatMap fun definition => definition.branches.unfolds := by
  induction definitions with
  | nil => rfl
  | cons definition later ih =>
    simp [listYield_cons, definition.branches.unfoldedSymbols_yield, ih]

def bodyPiece (definitions : List DefinitionDerivation) (junction : Junction) (name : String)
    (uppercase : startsUppercase name.toList = true) : Derivation .piece :=
  match find ⟨name⟩ definitions with
  | some branches => .unfoldGroup junction (branches.replace Derivation.namePiece)
  | none => .unfoldSymbol junction name uppercase

def replace (change : Junction → (name : String) → startsUppercase name.toList = true →
    Derivation .piece) (definition : DefinitionDerivation) : DefinitionDerivation :=
  { definition with branches := definition.branches.replace change }

def inline (definitions : List DefinitionDerivation) : List DefinitionDerivation :=
  definitions.map (replace (bodyPiece definitions))

section Changes

variable {change : Junction → (name : String) → startsUppercase name.toList = true →
  Derivation .piece}

theorem map_symbol_replace (definitions : List DefinitionDerivation) :
    (definitions.map (replace change)).map symbol = definitions.map symbol := by
  rw [List.map_map]
  rfl

theorem find_replace (definitions : List DefinitionDerivation) (symbol : Symbol) :
    find symbol (definitions.map (replace change)) =
      (find symbol definitions).map (Derivation.replace change) := by
  induction definitions with
  | nil => rfl
  | cons definition later ih =>
    rw [List.map_cons, find, find, ih, replace]
    split <;> rfl

theorem listYield_replace {written : String → List Token}
    (spelled : ∀ junction name uppercase,
      (change junction name uppercase).yield = junctionTokens junction ++ written name)
    (definitions : List DefinitionDerivation) :
    replaceNames written (listYield definitions) =
      listYield (definitions.map (replace change)) := by
  induction definitions with
  | nil => rfl
  | cons definition later ih =>
    have branches := Derivation.replaceNames_yield spelled definition.branches
    simp [listYield_cons, branches, ih, replace]

end Changes

theorem yield_bodyPiece (definitions : List DefinitionDerivation) (junction : Junction)
    (name : String) (uppercase : startsUppercase name.toList = true) :
    (bodyPiece definitions junction name uppercase).yield =
      junctionTokens junction ++ unfoldedBody (listYield definitions) name := by
  rw [bodyPiece, unfoldedBody, definitionBody_listYield]
  cases find ⟨name⟩ definitions with
  | none => rfl
  | some branches =>
    have folded := Derivation.replaceNames_yield Derivation.yield_namePiece branches []
    simp only [List.append_nil, replaceNames] at folded
    simp only [Option.map_some, Derivation.yield, foldNames, folded]

theorem meaning_bodyPiece (definitions : List DefinitionDerivation) (junction : Junction)
    (name : String) (uppercase : startsUppercase name.toList = true) :
    (bodyPiece definitions junction name uppercase).meaning (unfolded (inline definitions)) =
      (unfolded definitions ⟨name⟩).map (Alternative.behind junction) := by
  rw [bodyPiece, unfolded]
  cases found : find ⟨name⟩ definitions with
  | none => simp [unfolded, inline, find_replace, found]
  | some branches =>
    have folded := branches.meaning_replace
      (Derivation.meaning_namePiece (unfolded (inline definitions)))
    simp only [Derivation.meaning, folded, Option.map_some, Option.getD_some]

theorem unfolds_bodyPiece (definitions : List DefinitionDerivation) (junction : Junction)
    (name : String) (uppercase : startsUppercase name.toList = true) :
    (bodyPiece definitions junction name uppercase).unfolds =
      if (find ⟨name⟩ definitions).isSome then [] else [⟨name⟩] := by
  rw [bodyPiece]
  cases find ⟨name⟩ definitions with
  | none => rfl
  | some branches =>
    have none : ∀ junction name uppercase,
        (Derivation.namePiece junction name uppercase).unfolds = [] := fun _ _ _ => rfl
    have folded := Derivation.unfolds_replace (fun _ => []) none branches
    rw [List.flatMap_eq_nil_iff.mpr fun _ _ => rfl] at folded
    exact folded

theorem rules_inline (definitions : List DefinitionDerivation) :
    rules (inline definitions) = rules definitions := by
  have same : (inline definitions).map (rule (unfolded (inline definitions))) =
      definitions.map (rule (unfolded definitions)) := by
    rw [inline, List.map_map]
    apply List.map_congr_left
    intro definition _
    have branches := definition.branches.meaning_replace (meaning_bodyPiece definitions)
    exact congrArg (Rule.mk definition.symbol) branches
  rw [rules, rules, same]

theorem unfoldedSymbols_inline {definitions : List DefinitionDerivation}
    (defined : ∀ name ∈ unfoldedSymbols (listYield definitions), name ∈ definitions.map symbol) :
    unfoldedSymbols (listYield (inline definitions)) = [] := by
  rw [unfoldedSymbols_listYield, inline, List.flatMap_map, List.flatMap_eq_nil_iff]
  intro definition member
  have branches := Derivation.unfolds_replace
    (fun name => if (find name definitions).isSome then [] else [name])
    (unfolds_bodyPiece definitions) definition.branches
  rw [replace, branches, List.flatMap_eq_nil_iff]
  intro name unfolds
  have unfolded : name ∈ unfoldedSymbols (listYield definitions) := by
    rw [unfoldedSymbols_listYield]
    exact List.mem_flatMap.mpr ⟨definition, member, unfolds⟩
  rw [if_pos (find_isSome (defined name unfolded))]

end DefinitionDerivation

section Chains

variable {property : String → Prop} {tokens : List Token}

theorem eachChain_replaceNames {written : String → List Token}
    (each : ∀ name, EachChain property (written name)) (chains : EachChain property tokens) :
    EachChain property (replaceNames written tokens) := by
  fun_induction replaceNames written tokens with
  | case1 name later uppercase ih => simp_all
  | case2 name later other ih => simp_all
  | case3 token later other ih =>
    rw [eachChain_cons] at chains ⊢
    exact ⟨chains.1, ih chains.2⟩
  | case4 => exact eachChain_nil

theorem eachChain_definitionBody {name : String} {body : List Token}
    (found : definitionBody name tokens = some body) (chains : EachChain property tokens) :
    EachChain property body := by
  fun_induction definitionBody name tokens with
  | case1 later =>
    cases found
    simp only [eachChain_cons] at chains
    exact fun text member => chains.2.2 text (List.takeWhile_sublist _ |>.mem member)
  | case2 other later different ih =>
    simp only [eachChain_cons] at chains
    exact ih found chains.2.2
  | case3 token later other ih => exact ih found (eachChain_cons.mp chains).2
  | case4 => cases found

theorem eachChain_inlineNames (chains : EachChain property tokens) :
    EachChain property (inlineNames tokens) := by
  apply eachChain_replaceNames _ chains
  intro name
  rw [unfoldedBody]
  cases found : definitionBody name tokens with
  | none => simp
  | some body =>
    have plain : ∀ name, EachChain property [.word name] := fun _ => by simp
    have folded := eachChain_replaceNames plain (eachChain_definitionBody found chains)
    simpa [foldNames] using folded

end Chains

theorem DefinitionDerivation.Accept.inline {definitions : List DefinitionDerivation}
    {tokens inlined : List PlacedToken} {start : Symbol} (accept : Accept definitions tokens start)
    (spelled : inlined.map PlacedToken.token = inlineNames (tokens.map PlacedToken.token)) :
    Accept (inline definitions) inlined start ∧ unfoldSigns inlined = [] := by
  have same : inlined.map PlacedToken.token =
      listYield (DefinitionDerivation.inline definitions) := by
    rw [spelled, accept.spelled, inlineNames, DefinitionDerivation.inline]
    exact listYield_replace (yield_bodyPiece definitions) definitions
  have defined : ∀ name ∈ unfoldedSymbols (listYield definitions),
      name ∈ definitions.map symbol := by
    intro name unfolded
    rw [← accept.spelled, ← map_unfoldSigns] at unfolded
    obtain ⟨sign, member, rfl⟩ := List.mem_map.mp unfolded
    exact accept.unfolds sign member
  have none : unfoldSigns inlined = [] := by
    rw [← List.map_eq_nil_iff (f := Prod.fst), map_unfoldSigns, same]
    exact unfoldedSymbols_inline defined
  have symbols : (DefinitionDerivation.inline definitions).map symbol = definitions.map symbol :=
    map_symbol_replace definitions
  refine ⟨⟨same, ?_, ?_, ?_, ?_⟩, none⟩
  · rw [symbols]
    exact accept.distinct
  · rw [spelled]
    exact eachChain_inlineNames accept.readable
  · rw [none]
    exact nofun
  · rw [symbols]
    exact accept.start

theorem DefinitionDerivation.Accept.ofTokens_eq {definitions : List DefinitionDerivation}
    {tokens : List PlacedToken} {start : Symbol} (accept : Accept definitions tokens start)
    (none : unfoldSigns tokens = []) :
    GrammarReading.ofTokens tokens start = ⟨.ok accept.grammar, []⟩ := by
  obtain ⟨values, reading⟩ := exists_readAs accept.spelled accept.distinct accept.readable
  have result := (reading.result_eq_ok accept.distinct).mpr
    ⟨accept.start, accept.unfolds, rfl, show accept.grammar.rules = _ from rfl⟩
  have unfolds := reading.unfolds.trans none
  simp only [GrammarReading.ofTokens, GrammarReading.ofResult, reading.read]
  rw [← result]
  simp only [GrammarReading.ofDefinitions, unfolds]
  cases Definition.startingFrom start (Definition.rules Definition.folded values) <;> rfl

theorem listUnfolds_eq {tokens : List PlacedToken} {definitions : List Definition}
    (solid : EachChain Chain.NotEmpty (tokens.map PlacedToken.token))
    (read : Definition.ofTokens tokens = .ok definitions) :
    Definition.listUnfolds definitions = unfoldSigns tokens := by
  cases outcome : readDefinitions [] tokens with
  | error fault =>
    rw [Definition.ofTokens, outcome] at read
    cases read
  | ok values =>
    obtain ⟨derivations, spelled, readable, distinct, _⟩ := exists_definitions solid outcome
    obtain ⟨others, reading⟩ := DefinitionDerivation.exists_readAs spelled distinct readable
    cases read.symm.trans reading.read
    exact reading.unfolds

end GrammarText

namespace Definition

/-- A second reading makes a grammar with the same symbols, or reports the first symbol after an
unfold sign that is not defined. -/
theorem unfoldFrom_cases {definitions : List Definition} {start : Symbol} {first : Grammar}
    (started : startingFrom start (rules folded definitions) = .ok first) :
    (∃ grammar, unfoldFrom (rules folded definitions) definitions start = .ok grammar ∧
      grammar.nonTerminals = first.nonTerminals ∧ grammar.start = first.start) ∨
    ∃ earlier symbol position later,
      listUnfolds definitions = earlier ++ (symbol, position) :: later ∧
      (∀ sign ∈ earlier, first.rules.defines sign.1 = true) ∧
      first.rules.defines symbol = false ∧
      unfoldFrom (rules folded definitions) definitions start =
        .error (.syntaxAt position (.undefinedUnfold symbol)) := by
  obtain ⟨defined, begun, same⟩ := startingFrom_eq_ok.mp started
  cases found : (listUnfolds definitions).find? fun sign =>
      !(rules folded definitions).defines sign.1 with
  | none =>
    rw [List.find?_eq_none] at found
    have remains :
        (rules (unfolded (rules folded definitions)) definitions).defines start = true := by
      rw [defines_rules, ← defines_rules folded]
      exact defined
    left
    refine ⟨⟨_, start, remains⟩, ?_, ?_, begun.symm⟩
    · refine unfoldFrom_eq_ok.mpr ⟨?_, startingFrom_eq_ok.mpr ⟨remains, rfl, rfl⟩⟩
      intro sign member
      simpa using found sign member
    · rw [Grammar.nonTerminals, Grammar.nonTerminals, same]
      apply Rules.symbols_eq_of_defines
      intro symbol
      rw [defines_rules, defines_rules]
  | some sign =>
    obtain ⟨undefined, earlier, later, split, before⟩ := List.find?_eq_some_iff_append.mp found
    simp only [Bool.not_eq_true', Bool.not_eq_false'] at undefined before
    right
    rw [same]
    exact ⟨earlier, sign.1, sign.2, later, split, before, undefined,
      unfoldFrom_undefined split before undefined⟩

end Definition

namespace Grammar

open GrammarText

theorem ofTokens_eq_unfoldFrom {tokens : List PlacedToken} {start : Symbol}
    {definitions : List Definition} {first : Grammar}
    (read : Definition.ofTokens tokens = .ok definitions)
    (started : Definition.startingFrom start (Definition.rules Definition.folded definitions) =
      .ok first)
    (deferred : Definition.listUnfolds definitions ≠ []) :
    ofTokens tokens start =
      Definition.unfoldFrom (Definition.rules Definition.folded definitions) definitions start := by
  simp only [ofTokens, GrammarReading.ofTokens, GrammarReading.ofResult, read,
    GrammarReading.ofDefinitions, started]
  cases unfolds : Definition.listUnfolds definitions with
  | nil => exact absurd unfolds deferred
  | cons sign later => rfl

/-- Writing the bodies of definitions in place of unfolded names makes the same grammar in a single
reading. If the first reading of the tokens succeeds and leaves names folded, then the second
reading makes a grammar with the same symbols, or it reports the first name after an unfold sign
that is not defined. -/
theorem ofTokens_inlineNames {text : String} {tokens : List PlacedToken} (start : Symbol)
    (cut : Token.tokenize text = .ok tokens) :
    (∀ (grammar : Grammar) (inlined : List PlacedToken), ofTokens tokens start = .ok grammar →
      inlined.map PlacedToken.token = inlineNames (tokens.map PlacedToken.token) →
      GrammarReading.ofTokens inlined start = ⟨.ok grammar, []⟩) ∧
    ∀ (definitions : List Definition) (first : Grammar),
      Definition.ofTokens tokens = .ok definitions →
      Definition.startingFrom start (Definition.rules Definition.folded definitions) = .ok first →
      Definition.listUnfolds definitions ≠ [] →
      (∃ grammar, ofTokens tokens start = .ok grammar ∧
        grammar.nonTerminals = first.nonTerminals ∧ grammar.start = first.start) ∨
      ∃ earlier symbol position later,
        unfoldSigns tokens = earlier ++ (symbol, position) :: later ∧
        (∀ sign ∈ earlier, first.rules.defines sign.1 = true) ∧
        first.rules.defines symbol = false ∧
        ofTokens tokens start = .error (.syntaxAt position (.undefinedUnfold symbol)) := by
  have solid := Token.notEmpty_scan cut
  constructor
  · intro grammar inlined made spelled
    obtain ⟨definitions, accept, rfl⟩ := (ofTokens_eq_ok solid).mp made
    obtain ⟨acceptInlined, none⟩ := accept.inline spelled
    have same : acceptInlined.grammar = accept.grammar := by
      simp only [DefinitionDerivation.Accept.grammar, DefinitionDerivation.rules_inline]
    rw [acceptInlined.ofTokens_eq none, same]
  · intro definitions first read started deferred
    rw [ofTokens_eq_unfoldFrom read started deferred, ← listUnfolds_eq solid read]
    exact Definition.unfoldFrom_cases started

def forwardUnfold : List DefinitionDerivation :=
  [⟨⟨"S"⟩, by decide,
      .lastBranch (.sequence none (.lastPiece (.unfoldSymbol .space "T" (by decide))))⟩,
    ⟨⟨"T"⟩, by decide,
      .lastBranch (.sequence none (.lastPiece (.plain .space (.word "a" none) .noOther)))⟩]

def forwardUnfoldTokens : List PlacedToken :=
  [⟨.word "S", ⟨1, 1⟩⟩, ⟨.define, ⟨1, 2⟩⟩, ⟨.unfold, ⟨1, 5⟩⟩, ⟨.word "T", ⟨1, 6⟩⟩,
    ⟨.semicolon, ⟨1, 7⟩⟩, ⟨.word "T", ⟨1, 8⟩⟩, ⟨.define, ⟨1, 9⟩⟩, ⟨.word "a", ⟨1, 12⟩⟩,
    ⟨.semicolon, ⟨1, 13⟩⟩]

theorem accept_forwardUnfold :
    DefinitionDerivation.Accept forwardUnfold forwardUnfoldTokens ⟨"S"⟩ where
  spelled := rfl
  distinct := by decide
  readable := by simp [forwardUnfoldTokens]
  unfolds := by decide
  start := by decide

theorem tokenize_forwardUnfold : Token.tokenize "S::=>T;T::=a;" = .ok forwardUnfoldTokens := rfl

theorem ofTokens_forwardUnfold :
    ∃ grammar inlined definitions first, ofTokens forwardUnfoldTokens ⟨"S"⟩ = .ok grammar ∧
      inlined.map PlacedToken.token =
        inlineNames (forwardUnfoldTokens.map PlacedToken.token) ∧
      Definition.ofTokens forwardUnfoldTokens = .ok definitions ∧
      Definition.startingFrom ⟨"S"⟩ (Definition.rules Definition.folded definitions) = .ok first ∧
      Definition.listUnfolds definitions ≠ [] ∧
      GrammarReading.ofTokens inlined ⟨"S"⟩ = ⟨.ok grammar, []⟩ ∧
      ((∃ grammar, ofTokens forwardUnfoldTokens ⟨"S"⟩ = .ok grammar ∧
        grammar.nonTerminals = first.nonTerminals ∧ grammar.start = first.start) ∨
      ∃ earlier symbol position later,
        unfoldSigns forwardUnfoldTokens = earlier ++ (symbol, position) :: later ∧
        (∀ sign ∈ earlier, first.rules.defines sign.1 = true) ∧
        first.rules.defines symbol = false ∧
        ofTokens forwardUnfoldTokens ⟨"S"⟩ =
          .error (.syntaxAt position (.undefinedUnfold symbol))) := by
  have accept := accept_forwardUnfold
  have made := (ofTokens_eq_ok (Token.notEmpty_scan tokenize_forwardUnfold)).mpr ⟨_, accept, rfl⟩
  obtain ⟨definitions, reading⟩ :=
    DefinitionDerivation.exists_readAs accept.spelled accept.distinct accept.readable
  have defined : (Definition.rules Definition.folded definitions).defines ⟨"S"⟩ = true := by
    rw [Definition.defines_rules, DefinitionDerivation.map_symbol_eq (reading.rules offers_folded)]
    exact accept.start
  have deferred : Definition.listUnfolds definitions ≠ [] := by
    rw [reading.unfolds]
    decide
  have started := Definition.startingFrom_eq_ok.mpr
    ⟨defined, rfl, show (Grammar.mk _ ⟨"S"⟩ defined).rules = _ from rfl⟩
  have unfolding := ofTokens_inlineNames ⟨"S"⟩ tokenize_forwardUnfold
  have spelled : ((inlineNames (forwardUnfoldTokens.map PlacedToken.token)).map
      fun token => PlacedToken.mk token .first).map PlacedToken.token =
      inlineNames (forwardUnfoldTokens.map PlacedToken.token) := by
    rw [List.map_map]
    exact List.map_id _
  exact ⟨_, _, definitions, _, made, spelled, reading.read, started, deferred,
    unfolding.1 _ _ made spelled, unfolding.2 _ _ reading.read started deferred⟩

end Grammar

end SentenceGrammar
