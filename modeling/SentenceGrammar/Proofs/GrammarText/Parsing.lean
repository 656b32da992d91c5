import SentenceGrammar.Proofs.GrammarText.Halts

/-! Parsing ends. A pass with a cursor takes the tokens of one definition after the other, as
reading does, so that two passes come to what reading comes to. They never stall, and report every
fault at a token. -/

namespace SentenceGrammar

open Character

namespace GrammarText

section Definitions

variable {pass : Pass} {tokens : List PlacedToken} {defined : List Symbol}

open Pass

def Pass.collect (pass : Pass) (definitions : List Definition) (begun : List Symbol × Rules) :
    List Symbol × Rules :=
  definitions.foldl
    (fun begun definition => (definition.symbol :: begun.1,
      begun.2.extend definition.symbol (Branch.denoteList pass.unfold definition.branches)))
    begun

theorem Pass.collect_rules (pass : Pass) (definitions : List Definition)
    (begun : List Symbol × Rules) :
    (pass.collect definitions begun).2 = definitions.foldl
      (fun rules definition =>
        rules.extend definition.symbol (Branch.denoteList pass.unfold definition.branches))
      begun.2 := by
  induction definitions generalizing begun with
  | nil => rfl
  | cons definition later ih => exact ih _

theorem Reads.follows_definition {name : String} {values : List Branch} {later : List PlacedToken}
    {position define closing : Position} (uppercase : startsUppercase name.toList = true)
    {rules : Rules} (fresh : ⟨name⟩ ∉ defined)
    (branches : Reads .branches tokens values (⟨.semicolon, closing⟩ :: later)) :
    pass.Follows (pass.nextDefinition (defined, rules))
      (⟨.word name, position⟩ :: ⟨.define, define⟩ :: tokens) (Branch.listUnfolds values)
      (⟨name⟩ :: defined, rules.extend ⟨name⟩ (Branch.denoteList pass.unfold values)) later := by
  refine .within fun inside place deferred left => ?_
  rw [List.length_cons, List.length_cons] at inside
  rw [nextDefinition_eq left uppercase fresh]
  exact Follows.definition (follows_productions branches.parses (Nat.lt_of_succ_lt inside)) place
    deferred left

theorem ReadsDefinitions.follows {definitions : List Definition}
    (reads : ReadsDefinitions defined tokens definitions) {rounds : Nat}
    (enough : tokens.length ≤ rounds) (rules : Rules) :
    pass.Follows (pass.loop Option.isSome pass.nextDefinition rounds (defined, rules)) tokens
      (Definition.listUnfolds definitions) (pass.collect definitions (defined, rules)) [] := by
  induction reads generalizing rounds rules with
  | nil => exact .loop_end rfl
  | @cons defined tokens later name values definitions position define closing uppercase fresh
      branches _ ih =>
    have fewer : later.length + 1 < tokens.length := branches.takes.fits
    rw [List.length_cons, List.length_cons] at enough
    refine .loop_on rfl (by omega) ?_
    exact (branches.follows_definition uppercase fresh).bind (ih (by omega) _)

theorem Pass.Stops.nextDefinition {begun : List Symbol × Rules} {name : String}
    {position : Position} {fault : ReadingFault} (uppercase : startsUppercase name.toList = true)
    (fresh : ⟨name⟩ ∉ begun.1) (folds : pass.symbols = none)
    (stops : tokens.length < pass.tokens.length → pass.Stops
      (do
        pass.expect .define
        let alternatives ← pass.productions pass.tokens.length
        pass.expect .semicolon
        return (⟨name⟩ :: begun.1, begun.2.extend ⟨name⟩ alternatives)) tokens fault) :
    pass.Stops (pass.nextDefinition begun) (⟨.word name, position⟩ :: tokens) fault := by
  refine .within fun inside place deferred left => ?_
  rw [nextDefinition_eq left uppercase fresh]
  exact (Follows.skip [_]).stops folds (stops inside) place deferred left

theorem FailsDefinitions.stops {fault : ReadingFault}
    (fails : FailsDefinitions defined tokens fault) (folds : pass.symbols = none)
    (filled : pass.tokens ≠ []) {rounds : Nat} (enough : tokens.length ≤ rounds) (rules : Rules) :
    pass.Stops (pass.loop Option.isSome pass.nextDefinition rounds (defined, rules)) tokens
      fault := by
  induction fails generalizing rounds rules with
  | @noName _ _ token absent =>
    obtain ⟨_, position⟩ := token
    refine .loop_on rfl (Nat.zero_lt_of_lt enough) (Stops.bind (.peek ?_))
    split
    · rename_i name first
      cases first
      rw [absent name rfl, if_neg Bool.false_ne_true]
      exact .report filled _
    · exact .report filled _
  | again uppercase before =>
    refine .loop_on rfl (Nat.zero_lt_of_lt enough) (Stops.bind (.peek ?_))
    simp only [firstToken, List.head?_cons, Option.map_some, uppercase, before, if_true]
    exact .report filled _
  | noDefine uppercase fresh absent =>
    refine .loop_on rfl (Nat.zero_lt_of_lt enough) (Stops.bind ?_)
    exact .nextDefinition uppercase fresh folds fun _ => (Stops.expect filled absent).bind
  | inside uppercase fresh branches =>
    refine .loop_on rfl (Nat.zero_lt_of_lt enough) (Stops.bind ?_)
    refine .nextDefinition uppercase fresh folds fun inside => Follows.expect.stops folds ?_
    exact (stops_productions (branches.halts folds filled) (Nat.lt_of_succ_lt inside)).bind
  | unended uppercase fresh branches absent =>
    refine .loop_on rfl (Nat.zero_lt_of_lt enough) (Stops.bind ?_)
    refine .nextDefinition uppercase fresh folds fun inside => Follows.expect.stops folds ?_
    exact (follows_productions branches.parses (Nat.lt_of_succ_lt inside)).stops folds
      (Stops.expect filled absent).bind
  | @later defined tokens after fault name values position define closing uppercase fresh branches
      _ ih =>
    have fewer : after.length + 1 < tokens.length := branches.takes.fits
    rw [List.length_cons, List.length_cons] at enough
    refine .loop_on rfl (by omega) ?_
    exact (branches.follows_definition uppercase fresh).stops folds (ih (by omega) _)

end Definitions

section Outcomes

variable {tokens : List PlacedToken} {definitions : List Definition} {start : Symbol}

theorem build_apply (start : Symbol) (rules : Rules) (cursor : Cursor) :
    Pass.build start rules cursor =
      match Definition.startingFrom start rules with
      | .ok grammar => .ok (grammar, cursor)
      | .error fault => .error (.fault fault) := by
  unfold Pass.build
  cases Definition.startingFrom start rules <;> rfl

theorem outcome_build (start : Symbol) (rules : Rules) (cursor : Cursor) :
    Pass.outcome (Pass.build start rules cursor) = .ok (Definition.startingFrom start rules) := by
  rw [build_apply]
  cases Definition.startingFrom start rules <;> rfl

/-- The first pass makes a grammar in which unfolded symbols are references, and counts those. -/
theorem document_first (read : readDefinitions [] tokens = .ok definitions) (start : Symbol) :
    ∃ further, (Pass.mk tokens none).document start ⟨0, 0⟩ =
      match Definition.startingFrom start (Definition.rules Definition.folded definitions) with
      | .ok grammar => .ok (grammar, ⟨further, (Definition.listUnfolds definitions).length⟩)
      | .error fault => .error (.fault fault) := by
  have reads := reads_definitions read
  have follows : Pass.Follows ⟨tokens, none⟩ _ _ _ _ _ := reads.follows (Nat.le_refl _) .empty
  have taken := follows 0 0 rfl
  rw [Pass.find_misses_eq_none rfl] at taken
  obtain ⟨further, _, made⟩ := taken
  refine ⟨further, ?_⟩
  rw [Pass.document, bind_parsing, made]
  dsimp only
  rw [build_apply, Pass.collect_rules, Nat.zero_add]
  rfl

/-- The second pass makes the grammar in which symbols are unfolded, or misses the first that is not
defined. -/
theorem outcome_second (read : readDefinitions [] tokens = .ok definitions) (rules : Rules)
    (start : Symbol) :
    Pass.outcome ((Pass.mk tokens (some rules)).document start ⟨0, 0⟩) =
      .ok (Definition.unfoldFrom rules definitions start) := by
  have reads := reads_definitions read
  have follows : Pass.Follows ⟨tokens, some rules⟩ _ _ _ _ _ :=
    reads.follows (Nat.le_refl _) .empty
  have taken := follows 0 0 rfl
  unfold Definition.unfoldFrom
  split
  · rename_i symbol position found
    have missed : (Definition.listUnfolds definitions).find? (Pass.misses ⟨tokens, some rules⟩) =
      some (symbol, position) := found
    rw [missed] at taken
    rw [Pass.document, bind_parsing, taken]
    rfl
  · rename_i found
    have defined : (Definition.listUnfolds definitions).find? (Pass.misses ⟨tokens, some rules⟩) =
      none := found
    rw [defined] at taken
    obtain ⟨further, _, made⟩ := taken
    rw [Pass.document, bind_parsing, made]
    dsimp only
    rw [outcome_build, Pass.collect_rules]
    rfl

theorem parseTokens_eq (tokens : List PlacedToken) (start : Symbol) :
    parseTokens tokens start = .ok (GrammarReading.ofTokens tokens start) := by
  rw [GrammarReading.ofTokens, Definition.ofTokens]
  cases outcome : readDefinitions [] tokens with
  | error fault =>
    have fails := fails_definitions outcome
    have filled : tokens ≠ [] := by
      rintro rfl
      cases fails
    have stops : Pass.Stops ⟨tokens, none⟩ _ _ _ :=
      fails.stops rfl filled (Nat.le_refl _) .empty
    have failed : (Pass.mk tokens none).document start ⟨0, 0⟩ =
      .error (.fault (fault.locate tokens)) := stops.bind 0 0 rfl
    rw [parseTokens, failed]
    rfl
  | ok definitions =>
    obtain ⟨further, first⟩ := document_first outcome start
    change parseTokens tokens start = .ok (GrammarReading.ofDefinitions definitions start)
    rw [GrammarReading.ofDefinitions]
    cases started :
        Definition.startingFrom start (Definition.rules Definition.folded definitions) with
    | error fault =>
      rw [started] at first
      rw [parseTokens, first]
      rfl
    | ok grammar =>
      rw [started] at first
      cases unfolds : Definition.listUnfolds definitions with
      | nil =>
        rw [unfolds] at first
        rw [parseTokens, first]
        rfl
      | cons sign later =>
        rw [unfolds] at first
        have same := (Definition.startingFrom_eq_ok.mp started).2.2
        rw [parseTokens, first]
        simp only [List.length_cons, outcome_second outcome, same]
        rfl

theorem liesAtToken_of_outcome {symbols : Option Rules} {fault : GrammarTextFault}
    (failed : Pass.outcome ((Pass.mk tokens symbols).document start ⟨0, 0⟩) = .ok (.error fault)) :
    LiesAtToken tokens fault := by
  have ends := Pass.ends_document ⟨tokens, symbols⟩ start
  cases outcome : (Pass.mk tokens symbols).document start ⟨0, 0⟩ with
  | ok made =>
    rw [outcome] at failed
    cases failed
  | error halt =>
    rw [outcome] at ends failed
    cases ends with
    | failed located =>
      cases failed
      exact located

theorem outcome_eq_of_ok {outcome : Except Stall (Except GrammarTextFault Grammar)}
    {events : List Event} {reading : GrammarReading}
    (parsed : (do return ⟨← outcome, events⟩) = Except.ok reading) :
    outcome = .ok reading.result := by
  cases outcome with
  | error stall => cases parsed
  | ok result =>
    cases parsed
    rfl

theorem liesAtToken_of_parseTokens {reading : GrammarReading} {fault : GrammarTextFault}
    (parsed : parseTokens tokens start = .ok reading) (failed : reading.result = .error fault) :
    LiesAtToken tokens fault := by
  unfold parseTokens at parsed
  dsimp only at parsed
  split at parsed <;>
  · have outcome := outcome_eq_of_ok parsed
    rw [failed] at outcome
    exact liesAtToken_of_outcome outcome

end Outcomes

open Pass

/-- Parsing ends for every text, with what reading comes to, although calls are not nested deeper
and loops take no more rounds than there are tokens. A pass over the tokens of the text, with any
rules to unfold symbols against, makes a grammar or fails, and whatever it repeats takes a token.
Where a fault has a place in the syntax, it lies at one of the tokens. -/
theorem parseText_ends (text : String) (start : Symbol) :
    parseText text start = .ok (GrammarReading.ofText text start) ∧
    ∀ tokens, Token.tokenize text = .ok tokens →
      (∀ symbols, Ends ⟨tokens, symbols⟩ 0 ⟨0, 0⟩ ((Pass.mk tokens symbols).document start ⟨0, 0⟩) ∧
        ∀ room, GoesForward ⟨tokens, symbols⟩ room) ∧
      ∀ position why, Grammar.ofText text start = .error (.syntaxAt position why) →
        ∃ token ∈ tokens, token.position = position := by
  have same : ∀ tokens, Token.tokenize text = .ok tokens →
      GrammarReading.ofText text start = GrammarReading.ofTokens tokens start := by
    intro tokens cut
    rw [GrammarReading.ofText, Definition.ofText, cut]
    rfl
  constructor
  · cases cut : Token.tokenize text with
    | ok tokens => rw [parseText, cut, same tokens cut, ← parseTokens_eq]
    | error fault =>
      rw [parseText, cut, GrammarReading.ofText, Definition.ofText, cut]
      rfl
  · intro tokens cut
    refine ⟨fun symbols => ⟨ends_document _ start, goesForward _⟩, fun position why failed => ?_⟩
    rw [Grammar.ofText, same tokens cut] at failed
    exact liesAtToken_of_parseTokens (parseTokens_eq tokens start) failed position why rfl

def unclosedTokens : List PlacedToken :=
  [⟨.word "S", ⟨1, 1⟩⟩, ⟨.define, ⟨1, 2⟩⟩, ⟨.openParen, ⟨1, 5⟩⟩]

theorem ofText_unclosed :
    Grammar.ofText "S::=(" ⟨"S"⟩ = .error (.syntaxAt ⟨1, 5⟩ .emptyAlternative) := by
  have cut : Token.tokenize "S::=(" = .ok unclosedTokens := rfl
  have parsed : parseTokens unclosedTokens ⟨"S"⟩ =
    .ok ⟨.error (.syntaxAt ⟨1, 5⟩ .emptyAlternative), []⟩ := rfl
  have same := Except.ok.inj ((parseTokens_eq unclosedTokens ⟨"S"⟩).symm.trans parsed)
  rw [Grammar.ofText, GrammarReading.ofText, Definition.ofText, cut]
  exact congrArg GrammarReading.result same

theorem parseText_ends_unclosed :
    parseText "S::=(" ⟨"S"⟩ = .ok (GrammarReading.ofText "S::=(" ⟨"S"⟩) ∧
    Token.tokenize "S::=(" = .ok unclosedTokens ∧
    (∀ symbols, Ends ⟨unclosedTokens, symbols⟩ 0 ⟨0, 0⟩
        ((Pass.mk unclosedTokens symbols).document ⟨"S"⟩ ⟨0, 0⟩) ∧
      ∀ room, GoesForward ⟨unclosedTokens, symbols⟩ room) ∧
    Grammar.ofText "S::=(" ⟨"S"⟩ = .error (.syntaxAt ⟨1, 5⟩ .emptyAlternative) ∧
    ∃ token ∈ unclosedTokens, token.position = ⟨1, 5⟩ := by
  have cut : Token.tokenize "S::=(" = .ok unclosedTokens := rfl
  obtain ⟨parsed, ends⟩ := parseText_ends "S::=(" ⟨"S"⟩
  obtain ⟨passes, located⟩ := ends unclosedTokens cut
  exact ⟨parsed, cut, passes, ofText_unclosed, located _ _ ofText_unclosed⟩

end GrammarText

end SentenceGrammar
