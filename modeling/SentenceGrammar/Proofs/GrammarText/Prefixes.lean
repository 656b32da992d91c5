import Mathlib.Data.List.Dedup
import SentenceGrammar.Proofs.GrammarText.Offences
import SentenceGrammar.Proofs.GrammarText.Placement

/-! Syntax faults lie at the first token that cannot be right. What stands ahead of it may be gone
on with to a text that makes a grammar, and with it nothing can; except that a term behind an unfold
sign is at fault as a whole if it has a chain. -/

namespace SentenceGrammar

open Character

namespace GrammarText

/-- Definitions can go on up to the remaining tokens, but, unless the fault is a chain behind an
unfolded term, not with the first of them. -/
structure OffendsDefinitions (defined : List Symbol) (front remaining : List PlacedToken)
    (why : SyntaxFault) : Prop where
  completable : ∃ tail definitions, ReadsDefinitions defined (front ++ tail) definitions
  stuck : why ≠ .unfoldWithChain → ∀ token behind, remaining = token :: behind →
    ∀ later definitions, ¬ReadsDefinitions defined (front ++ token :: later) definitions

def semicolon : PlacedToken :=
  ⟨.semicolon, .first⟩

theorem endsBefore_semicolon (later : List PlacedToken) :
    Category.branches.EndsBefore (semicolon :: later) :=
  Derivation.endsBefore_closing (.inr (.inr rfl)) .first

theorem reads_filler_branches (later : List PlacedToken) :
    Reads .branches (filler :: semicolon :: later)
      [⟨none, [.plain .space (.reference ⟨"A"⟩ []) []]⟩] (semicolon :: later) := by
  have pieces : Reads .pieces (filler :: semicolon :: later) _ _ := reads_filler_pieces rfl
  have opened : [].map PlacedToken.token = labelTokens none := rfl
  have branch := Reads.sequence opened (fun _ => pieces.beginsWithLabel_eq) pieces.endsBranch_eq
    pieces
  exact .lastBranch branch (endsBefore_semicolon later).2

namespace OffendsDefinitions

variable {defined : List Symbol} {front remaining taken : List PlacedToken} {why : SyntaxFault}
  {name : String} {position define : Position}

theorem noName {token : PlacedToken} {behind : List PlacedToken}
    (absent : ∀ name, token.token = .word name → startsUppercase name.toList = false) :
    OffendsDefinitions defined [] (token :: behind) why where
  completable := ⟨[], [], .nil⟩
  stuck := by
    rintro _ _ _ ⟨⟩ later definitions reads
    cases reads with
    | cons uppercase => exact nomatch uppercase.symm.trans (absent _ rfl)

theorem again {behind : List PlacedToken} (before : ⟨name⟩ ∈ defined) :
    OffendsDefinitions defined [] (⟨.word name, position⟩ :: behind) why where
  completable := ⟨[], [], .nil⟩
  stuck := by
    rintro _ _ _ ⟨⟩ later definitions reads
    cases reads with
    | cons _ fresh => exact fresh before

variable (uppercase : startsUppercase name.toList = true) (fresh : ⟨name⟩ ∉ defined)
include uppercase fresh

theorem noDefine (absent : firstToken remaining ≠ some .define) :
    OffendsDefinitions defined [⟨.word name, position⟩] remaining why where
  completable := ⟨[⟨.define, .first⟩, filler, semicolon], _,
    .cons uppercase fresh (reads_filler_branches []) .nil⟩
  stuck := by
    rintro _ token behind rfl later definitions reads
    cases reads with
    | cons => exact absent rfl

theorem inside (offends : Offends .branches front remaining why) :
    OffendsDefinitions defined (⟨.word name, position⟩ :: ⟨.define, define⟩ :: front) remaining
      why where
  completable := by
    obtain ⟨tail, completes⟩ := offends.completable
    obtain ⟨values, branches, _⟩ := completes [semicolon] (endsBefore_semicolon [])
    exact ⟨tail ++ [semicolon], _, .cons uppercase fresh branches .nil⟩
  stuck different token behind same later definitions reads := by
    rw [List.cons_append, List.cons_append] at reads
    cases reads with
    | cons _ _ branches => exact offends.stuck different token behind same later _ _ branches

theorem unended {values : List Branch}
    (framed : ∀ other, Category.branches.Follows remaining other →
      Reads .branches (taken ++ other) values other)
    (absent : firstToken remaining ≠ some .semicolon) :
    OffendsDefinitions defined (⟨.word name, position⟩ :: ⟨.define, define⟩ :: taken) remaining
      why where
  completable := by
    have branches := framed [semicolon] (.inl (endsBefore_semicolon []))
    exact ⟨[semicolon], _, .cons uppercase fresh branches .nil⟩
  stuck := by
    rintro _ token behind rfl later definitions reads
    rw [List.cons_append, List.cons_append] at reads
    cases reads with
    | cons _ _ branches =>
      obtain ⟨_, same⟩ := (framed (token :: later) (.inr rfl)).unique branches
      cases same
      exact absent rfl

theorem later {values : List Branch} {closing : Position}
    (framed : ∀ more, Reads .branches (taken ++ ⟨.semicolon, closing⟩ :: more) values
      (⟨.semicolon, closing⟩ :: more))
    (offends : OffendsDefinitions (⟨name⟩ :: defined) front remaining why) :
    OffendsDefinitions defined
      (⟨.word name, position⟩ :: ⟨.define, define⟩ :: (taken ++ ⟨.semicolon, closing⟩ :: front))
      remaining why where
  completable := by
    obtain ⟨tail, definitions, others⟩ := offends.completable
    refine ⟨tail, ⟨⟨name⟩, values⟩ :: definitions, ?_⟩
    rw [List.cons_append, List.cons_append, List.append_assoc]
    exact .cons uppercase fresh (framed _) others
  stuck different token behind same later definitions reads := by
    rw [List.cons_append, List.cons_append, List.append_assoc, List.cons_append] at reads
    cases reads with
    | cons _ _ branches others =>
      obtain ⟨_, left⟩ := (framed _).unique branches
      cases left
      exact offends.stuck different token behind same later _ others

end OffendsDefinitions

theorem FailsDefinitions.exists_front {defined : List Symbol} {tokens : List PlacedToken}
    {fault : ReadingFault} (fails : FailsDefinitions defined tokens fault) :
    ∀ {remaining : List PlacedToken} {why : SyntaxFault}, fault = .syntaxBefore remaining why →
      ∃ front, tokens = front ++ remaining ∧ OffendsDefinitions defined front remaining why := by
  induction fails with
  | noName absent =>
    rintro _ _ ⟨⟩
    exact ⟨[], rfl, .noName absent⟩
  | again uppercase before =>
    rintro _ _ ⟨⟩
    exact ⟨[], rfl, .again before⟩
  | noDefine uppercase fresh absent =>
    rintro _ _ ⟨⟩
    exact ⟨[_], rfl, .noDefine uppercase fresh absent⟩
  | inside uppercase fresh branches =>
    rintro remaining why rfl
    obtain ⟨front, rfl, offends⟩ := branches.exists_front rfl
    exact ⟨_ :: _ :: front, rfl, .inside uppercase fresh offends⟩
  | unended uppercase fresh branches absent =>
    rintro _ _ ⟨⟩
    obtain ⟨taken, rfl, framed⟩ := branches.exists_taken
    exact ⟨_ :: _ :: taken, rfl, .unended uppercase fresh framed absent⟩
  | @later _ _ _ _ name _ position define closing uppercase fresh branches _ others =>
    rintro remaining why rfl
    obtain ⟨taken, rfl, framed⟩ := branches.exists_taken
    obtain ⟨front, rfl, offends⟩ := others rfl
    exact ⟨⟨.word name, position⟩ :: ⟨.define, define⟩ ::
        (taken ++ ⟨.semicolon, closing⟩ :: front), by simp,
      .later uppercase fresh (fun more => framed _ (.inr rfl)) offends⟩

section Closing

def supplied (symbol : Symbol) : Definition :=
  ⟨symbol, [⟨none, [.plain .space (.reference ⟨"A"⟩ []) []]⟩]⟩

def suppliedTokens (symbol : Symbol) : List PlacedToken :=
  [⟨.word symbol.name, .first⟩, ⟨.define, .first⟩, filler, semicolon]

theorem reads_supplied {defined symbols : List Symbol} (distinct : symbols.Nodup)
    (fresh : ∀ symbol ∈ symbols, symbol ∉ defined)
    (uppercase : ∀ symbol ∈ symbols, startsUppercase symbol.name.toList = true) :
    ReadsDefinitions defined (symbols.flatMap suppliedTokens) (symbols.map supplied) := by
  induction symbols generalizing defined with
  | nil => exact .nil
  | cons symbol later ih =>
    obtain ⟨absent, distinctLater⟩ := List.nodup_cons.mp distinct
    obtain ⟨here, others⟩ := List.forall_mem_cons.mp uppercase
    refine .cons here (fresh symbol List.mem_cons_self) (reads_filler_branches _)
      (ih distinctLater (fun other member => ?_) others)
    rintro (_ | ⟨_, before⟩)
    · exact absent member
    · exact fresh other (List.mem_cons_of_mem _ member) before

theorem ReadsDefinitions.append {defined : List Symbol} {first second : List PlacedToken}
    {definitions others : List Definition} (reads : ReadsDefinitions defined first definitions)
    (readsToo : ReadsDefinitions ((definitions.map Definition.symbol).reverse ++ defined) second
      others) : ReadsDefinitions defined (first ++ second) (definitions ++ others) := by
  induction reads with
  | nil => exact readsToo
  | cons uppercase fresh branches _ ih =>
    rw [List.map_cons, List.reverse_cons, List.append_assoc] at readsToo
    obtain ⟨taken, rfl, framed⟩ := branches.exists_taken
    rw [List.cons_append, List.cons_append, List.append_assoc]
    exact .cons uppercase fresh (framed _ (.inr rfl)) (ih readsToo)

theorem ReadsDefinitions.uppercase {defined : List Symbol} {tokens : List PlacedToken}
    {definitions : List Definition} (reads : ReadsDefinitions defined tokens definitions) :
    ∀ sign ∈ Definition.listUnfolds definitions, startsUppercase sign.1.name.toList = true := by
  induction reads with
  | nil => exact nofun
  | cons _ _ branches _ ih => exact List.forall_mem_append.mpr ⟨branches.uppercase, ih⟩

theorem ofTokens_of_reads {tokens : List PlacedToken} {definitions : List Definition}
    (reads : ReadsDefinitions [] tokens definitions) (start : Symbol) :
    Grammar.ofTokens tokens start = (GrammarReading.ofDefinitions definitions start).result := by
  rw [Grammar.ofTokens, GrammarReading.ofTokens, Definition.ofTokens, reads.read]
  rfl

theorem exists_result {definitions : List Definition} {start : Symbol}
    (started : start ∈ definitions.map Definition.symbol)
    (unfolds : ∀ sign ∈ Definition.listUnfolds definitions,
      sign.1 ∈ definitions.map Definition.symbol) :
    ∃ grammar, (GrammarReading.ofDefinitions definitions start).result = .ok grammar := by
  have defined := (Definition.defines_rules
    (Definition.unfolded (Definition.rules Definition.folded definitions)) definitions start).mpr
    started
  exact ⟨⟨_, start, defined⟩, GrammarReading.ofDefinitions_eq_ok.mpr ⟨started, unfolds, rfl, rfl⟩⟩

theorem listUnfolds_supplied (symbols : List Symbol) :
    Definition.listUnfolds (symbols.map supplied) = [] := by
  rw [Definition.listUnfolds, List.flatMap_map, List.flatMap_eq_nil_iff]
  exact fun _ _ => rfl

/-- The symbols that have to be defined after some definitions, and the name that stands in for
missing terms. -/
def missing (definitions : List Definition) : List Symbol :=
  ((⟨"A"⟩ :: (Definition.listUnfolds definitions).map Prod.fst).filter
    (· ∉ definitions.map Definition.symbol)).dedup

theorem mem_missing {definitions : List Definition} {symbol : Symbol} :
    symbol ∈ missing definitions ↔
      (symbol = ⟨"A"⟩ ∨ symbol ∈ (Definition.listUnfolds definitions).map Prod.fst) ∧
        symbol ∉ definitions.map Definition.symbol := by
  rw [missing, List.mem_dedup, List.mem_filter, List.mem_cons, decide_eq_true_eq]

theorem ReadsDefinitions.exists_grammar {tokens : List PlacedToken} {definitions : List Definition}
    (reads : ReadsDefinitions [] tokens definitions) :
    ∃ later start grammar, Grammar.ofTokens (tokens ++ later) start = .ok grammar := by
  have fresh : ∀ symbol ∈ missing definitions,
      symbol ∉ (definitions.map Definition.symbol).reverse ++ [] := by
    intro symbol member
    rw [List.append_nil, List.mem_reverse]
    exact (mem_missing.mp member).2
  have uppercase : ∀ symbol ∈ missing definitions, startsUppercase symbol.name.toList = true := by
    intro symbol member
    obtain ⟨rfl | unfolded, _⟩ := mem_missing.mp member
    · decide
    · obtain ⟨sign, there, rfl⟩ := List.mem_map.mp unfolded
      exact reads.uppercase sign there
  have whole := reads.append (reads_supplied (List.nodup_dedup _) fresh uppercase)
  have enough : ∀ symbol, symbol = ⟨"A"⟩ ∨
      symbol ∈ (Definition.listUnfolds definitions).map Prod.fst →
        symbol ∈ (definitions ++ (missing definitions).map supplied).map Definition.symbol := by
    intro symbol needed
    have same : (missing definitions).map (Definition.symbol ∘ supplied) = missing definitions :=
      List.map_id _
    rw [List.map_append, List.map_map, same, List.mem_append]
    by_cases defined : symbol ∈ definitions.map Definition.symbol
    · exact .inl defined
    · exact .inr (mem_missing.mpr ⟨needed, defined⟩)
  have unfolds : ∀ sign ∈ Definition.listUnfolds
      (definitions ++ (missing definitions).map supplied), sign.1 ∈
        (definitions ++ (missing definitions).map supplied).map Definition.symbol := by
    intro sign member
    rw [Definition.listUnfolds, List.flatMap_append] at member
    rcases List.mem_append.mp member with here | added
    · exact enough _ (.inr (List.mem_map_of_mem here))
    · rw [← Definition.listUnfolds, listUnfolds_supplied] at added
      cases added
  obtain ⟨grammar, made⟩ := exists_result (enough ⟨"A"⟩ (.inl rfl)) unfolds
  exact ⟨_, ⟨"A"⟩, grammar, (ofTokens_of_reads whole _).trans made⟩

end Closing

theorem exists_reads_of_ofTokens {tokens : List PlacedToken} {start : Symbol} {grammar : Grammar}
    (made : Grammar.ofTokens tokens start = .ok grammar) :
    ∃ definitions, ReadsDefinitions [] tokens definitions := by
  cases outcome : readDefinitions [] tokens with
  | ok definitions => exact ⟨definitions, reads_definitions outcome⟩
  | error fault =>
    rw [Grammar.ofTokens, GrammarReading.ofTokens, Definition.ofTokens, outcome] at made
    cases made

theorem exists_reported {tokens remaining : List PlacedToken} {why : SyntaxFault}
    (failed : readDefinitions [] tokens = .error (.syntaxBefore remaining why)) :
    ∃ reported ∈ remaining.head?.or tokens.getLast?, ∀ start,
      Grammar.ofTokens tokens start = .error (.syntaxAt reported.position why) := by
  have located : ∀ start, Grammar.ofTokens tokens start =
      .error ((ReadingFault.syntaxBefore remaining why).locate tokens) := by
    intro start
    rw [Grammar.ofTokens, GrammarReading.ofTokens, Definition.ofTokens, failed]
    rfl
  cases remaining with
  | cons token behind => exact ⟨token, rfl, located⟩
  | nil =>
    cases last : tokens.getLast? with
    | none =>
      rw [List.getLast?_eq_none_iff.mp last, readDefinitions] at failed
      cases failed
    | some token =>
      rw [ReadingFault.locate, last] at located
      exact ⟨token, rfl, located⟩

theorem OffendsDefinitions.ofTokens_ne_ok {front remaining : List PlacedToken} {why : SyntaxFault}
    (offends : OffendsDefinitions [] (front.map PlacedToken.unplaced)
      (remaining.map PlacedToken.unplaced) why) (different : why ≠ .unfoldWithChain)
    {token : PlacedToken} (first : token ∈ remaining.head?) {others : List PlacedToken}
    (begins : (front ++ [token]).map PlacedToken.token <+: others.map PlacedToken.token)
    (start : Symbol) (grammar : Grammar) : Grammar.ofTokens others start ≠ .ok grammar := by
  intro made
  obtain ⟨definitions, reads⟩ := exists_reads_of_ofTokens made
  obtain ⟨behind, rfl⟩ := List.head?_eq_some_iff.mp first
  obtain ⟨later, spelled⟩ := begins
  have same : others.map PlacedToken.unplaced = front.map PlacedToken.unplaced ++
      token.unplaced :: later.map (⟨·, .first⟩) := by
    rw [map_unplaced_eq others, ← spelled, List.map_append, ← map_unplaced_eq, List.map_append,
      List.append_assoc]
    rfl
  exact offends.stuck different token.unplaced _ rfl _ _ (same ▸ reads.unplaced)

end GrammarText

open GrammarText

/-- A syntax fault is reported at a token, or at the last one if it lies at the end. The tokens
ahead of it can be gone on with to tokens that make a grammar. Together with it they begin no tokens
that make one, unless the fault is a chain behind an unfolded term. -/
theorem Grammar.exists_correct_prefix {tokens remaining : List PlacedToken} {why : SyntaxFault}
    (failed : readDefinitions [] tokens = .error (.syntaxBefore remaining why)) :
    ∃ front, tokens = front ++ remaining ∧
      (∃ reported ∈ remaining.head?.or tokens.getLast?, ∀ start,
        ofTokens tokens start = .error (.syntaxAt reported.position why)) ∧
      (∃ later start grammar, ofTokens (front ++ later) start = .ok grammar) ∧
      (why ≠ .unfoldWithChain → ∀ token ∈ remaining.head?, ∀ others start grammar,
        (front ++ [token]).map PlacedToken.token <+: others.map PlacedToken.token →
          ofTokens others start ≠ .ok grammar) := by
  have fails := fails_definitions failed
  obtain ⟨front, rfl, offends⟩ := fails.exists_front rfl
  refine ⟨front, rfl, exists_reported failed, ?_, ?_⟩
  · obtain ⟨tail, definitions, reads⟩ := offends.completable
    obtain ⟨later, start, grammar, made⟩ := reads.exists_grammar
    exact ⟨tail ++ later, start, grammar, by rwa [← List.append_assoc]⟩
  · -- The other tokens may stand elsewhere, so they are compared without their places.
    intro different token first others start grammar begins
    obtain ⟨frontToo, same, offendsToo⟩ := fails.unplaced.exists_front rfl
    rw [List.map_append, List.append_cancel_right_eq] at same
    exact (same ▸ offendsToo).ofTokens_ne_ok different first begins start grammar

namespace GrammarText

/-- The tokens of `S ::= a )`, in which no parenthesis is open where one is closed. -/
def unopened : List PlacedToken :=
  [⟨.word "S", ⟨1, 1⟩⟩, ⟨.define, ⟨1, 3⟩⟩, ⟨.word "a", ⟨1, 7⟩⟩, ⟨.closeParen, ⟨1, 9⟩⟩]

theorem failed_unopened : readDefinitions [] unopened = .error (.syntaxBefore
    [⟨.closeParen, ⟨1, 9⟩⟩] (.expectedToken .semicolon (some .closeParen))) := by
  have chain : Takes (readChain [⟨.closeParen, ⟨1, 9⟩⟩]) [] [⟨.closeParen, ⟨1, 9⟩⟩] :=
    (takes_readChain_other (by simp [firstToken])).mpr ⟨rfl, rfl⟩
  have joined : [].map PlacedToken.token = junctionTokens .space := rfl
  have opened : [].map PlacedToken.token = labelTokens none := rfl
  have pieces : Reads .pieces [⟨.word "a", ⟨1, 7⟩⟩, ⟨.closeParen, ⟨1, 9⟩⟩] _ _ :=
    .lastPiece (.plain joined (.word chain) (.noOther (by simp [firstToken]))) rfl
  have branches := Reads.lastBranch
    (.sequence opened (fun _ => pieces.beginsWithLabel_eq) pieces.endsBranch_eq pieces)
    (by simp [firstToken])
  have unended : FailsDefinitions [] unopened _ :=
    .unended (by decide) List.not_mem_nil branches (by simp [firstToken])
  exact unended.failed

end GrammarText

theorem Grammar.exists_correct_prefix_unopened :
    readDefinitions [] unopened = .error (.syntaxBefore [⟨.closeParen, ⟨1, 9⟩⟩]
      (.expectedToken .semicolon (some .closeParen))) ∧
    ∃ front, unopened = front ++ [⟨.closeParen, ⟨1, 9⟩⟩] ∧
      (∃ reported ∈ [PlacedToken.mk .closeParen ⟨1, 9⟩].head?.or unopened.getLast?, ∀ start,
        ofTokens unopened start = .error (.syntaxAt reported.position
          (.expectedToken .semicolon (some .closeParen)))) ∧
      (∃ later start grammar, ofTokens (front ++ later) start = .ok grammar) ∧
      (SyntaxFault.expectedToken .semicolon (some .closeParen) ≠ .unfoldWithChain →
        ∀ token ∈ [PlacedToken.mk .closeParen ⟨1, 9⟩].head?, ∀ others start grammar,
          (front ++ [token]).map PlacedToken.token <+: others.map PlacedToken.token →
            ofTokens others start ≠ .ok grammar) :=
  ⟨failed_unopened, exists_correct_prefix failed_unopened⟩

end SentenceGrammar
