import SentenceGrammar.GrammarText
import SentenceGrammar.Proofs.GrammarText.Soundness
import SentenceGrammar.Proofs.GrammarText.Unfolding

/-! A text is accepted exactly if its tokens can be derived, no symbol is defined twice, its chains
can be read, and what it unfolds and the start symbol are defined; and the grammar that is made of
it is the one that the derivation denotes. -/

namespace SentenceGrammar

open Character

namespace Chain

theorem readFrom_ne_nil (place : Place) (inside : place ≠ .betweenElements) (text : List Char) :
    readFrom place text ≠ .ok [] := by
  induction text generalizing place with
  | nil => cases place <;> simp_all [readFrom]
  | cons c rest ih =>
    cases place with
    | betweenElements => exact absurd rfl inside
    | afterDot =>
      rw [readFrom]
      split
      · cases readFrom .afterDot rest <;> simp [bind, Except.bind, pure, Except.pure]
      · split
        · exact ih _ nofun
        · split
          · exact ih _ nofun
          · nofun
    | inLabel seen =>
      rw [readFrom]
      split
      · exact ih _ nofun
      · split
        · cases readFrom .afterDot rest <;> simp [bind, Except.bind, pure, Except.pure]
        · nofun
    | inGroup seen =>
      rw [readFrom]
      split
      · cases readNames (Text.splitAt '|' seen.reverse) <;>
          cases readFrom .betweenElements rest <;> simp [bind, Except.bind, pure, Except.pure]
      · exact ih _ nofun

end Chain

namespace Token

open GrammarText

-- There is one character more than `grind` splits cases by itself.
theorem punctuation_ne_chain (c : Char) (text : String) : punctuation c ≠ some (.chain text) := by
  unfold punctuation
  by_cases colon : c = ':' <;> grind

theorem punctuation_ne_word (c : Char) (text : String) : punctuation c ≠ some (.word text) := by
  unfold punctuation
  by_cases colon : c = ':' <;> grind

theorem front_cases {c : Char} {rest : List Char} {token : Token} {length : Nat}
    (recognised : front c rest = .ok ⟨some token, length⟩) :
    token = .define ∨ (∃ text, token = .quoted text) ∨
      (∃ others, token = .chain (String.ofList ('.' :: others))) ∨
      (isWordChar c = true ∧
        token = .word (String.ofList (c :: rest.takeWhile isWordChar))) ∨
      punctuation c = some token := by
  rw [front] at recognised
  by_cases blank : isBlank c = true
  · rw [if_pos blank] at recognised
    cases recognised
  rw [if_neg blank] at recognised
  by_cases comment : c = '(' ∧ rest.head? = some '*'
  · rw [if_pos comment] at recognised
    cases measured : commentLength 0 rest.tail <;> (rw [measured] at recognised; cases recognised)
  rw [if_neg comment] at recognised
  by_cases define : c = ':' ∧ rest.take 2 = [':', '=']
  · rw [if_pos define] at recognised
    cases recognised
    exact .inl rfl
  rw [if_neg define] at recognised
  by_cases quote : c = '\"'
  · rw [if_pos quote] at recognised
    cases quoted : quotation rest <;> (rw [quoted] at recognised; cases recognised)
    exact .inr (.inl ⟨_, rfl⟩)
  rw [if_neg quote] at recognised
  by_cases dot : c = '.'
  · rw [if_pos dot] at recognised
    cases recognised
    exact .inr (.inr (.inl ⟨_, by rw [dot]⟩))
  rw [if_neg dot] at recognised
  by_cases word : isWordChar c = true
  · rw [if_pos word] at recognised
    cases recognised
    exact .inr (.inr (.inr (.inl ⟨word, rfl⟩)))
  rw [if_neg word] at recognised
  cases mark : punctuation c with
  | none =>
    rw [mark] at recognised
    cases recognised
  | some found =>
    rw [mark] at recognised
    cases recognised
    exact .inr (.inr (.inr (.inr rfl)))

theorem exists_dot_of_front {c : Char} {rest : List Char} {text : String} {length : Nat}
    (recognised : front c rest = .ok ⟨some (.chain text), length⟩) :
    ∃ others, text = String.ofList ('.' :: others) := by
  rcases front_cases recognised with same | ⟨_, same⟩ | ⟨others, same⟩ | ⟨_, same⟩ | mark
  · cases same
  · cases same
  · cases same
    exact ⟨others, rfl⟩
  · cases same
  · exact absurd mark (punctuation_ne_chain c text)

theorem notEmpty_of_front {c : Char} {rest : List Char} {token : Token} {length : Nat}
    (recognised : front c rest = .ok ⟨some token, length⟩) (text : String)
    (chain : token = .chain text) : Chain.NotEmpty text := by
  subst chain
  obtain ⟨others, rfl⟩ := exists_dot_of_front recognised
  have inside := Chain.readFrom_ne_nil .afterDot nofun others
  intro read
  rw [Chain.read, String.toList_ofList, Chain.readFrom, if_pos rfl] at read
  cases outcome : Chain.readFrom .afterDot others with
  | error fault =>
    rw [outcome] at read
    cases read
  | ok chain =>
    rw [outcome] at read
    cases read
    exact inside outcome

/-- What holds of every token that is recognised at the front of a text holds of all tokens that are
cut out of one. -/
theorem forall_mem_of_scan {property : Token → Prop}
    (recognised : ∀ {c rest token length}, front c rest = .ok ⟨some token, length⟩ → property token)
    {position : Position} {passing : Nat} {text : List Char} {tokens : List PlacedToken}
    (scanned : scan position passing text = .ok tokens) :
    ∀ token ∈ tokens.map PlacedToken.token, property token := by
  induction text generalizing position passing tokens with
  | nil =>
    cases passing <;> cases scanned <;> exact nofun
  | cons c rest ih =>
    cases passing with
    | succ passing => exact ih scanned
    | zero =>
      rw [scan] at scanned
      split at scanned
      · cases scanned
      · exact ih scanned
      · rename_i token length front
        cases later : scan (position.after c) (length - 1) rest with
        | error fault => simp [later, bind, Except.bind] at scanned
        | ok others =>
          simp only [later, bind, Except.bind, pure, Except.pure, Except.ok.injEq] at scanned
          rw [← scanned, List.map_cons, List.forall_mem_cons]
          exact ⟨recognised front, ih later⟩

theorem notEmpty_scan {position : Position} {passing : Nat} {text : List Char}
    {tokens : List PlacedToken} (scanned : scan position passing text = .ok tokens) :
    EachChain Chain.NotEmpty (tokens.map PlacedToken.token) :=
  fun text member => forall_mem_of_scan notEmpty_of_front scanned _ member text rfl

end Token

namespace GrammarText

namespace DefinitionDerivation

variable {derivations : List DefinitionDerivation} {definitions : List Definition}

section Rules

variable {unfold : Junction → Symbol → Fragment} {unfolded : Symbol → List Alternative}

theorem map_symbol_eq
    (same : definitions.map (Definition.rule unfold) = derivations.map (rule unfolded)) :
    definitions.map Definition.symbol = derivations.map symbol := by
  have symbols := congrArg (List.map Rule.symbol) same
  rwa [List.map_map, List.map_map] at symbols

theorem rules_eq_insertAll (distinct : (derivations.map symbol).Nodup)
    (same : definitions.map (Definition.rule unfold) = derivations.map (rule unfolded)) :
    Definition.rules unfold definitions =
      Rules.empty.insertAll (derivations.map (rule unfolded)) := by
  rw [Definition.rules_eq_insertAll (map_symbol_eq same ▸ distinct), same]

end Rules

/-- What is read from derived tokens is what the derivations stand for. -/
structure ReadAs (derivations : List DefinitionDerivation) (tokens : List PlacedToken)
    (definitions : List Definition) : Prop where
  read : Definition.ofTokens tokens = .ok definitions
  unfolds : Definition.listUnfolds definitions = unfoldSigns tokens
  rules : ∀ {unfold unfolded}, Offers unfold unfolded →
    definitions.map (Definition.rule unfold) = derivations.map (rule unfolded)

theorem exists_readAs {tokens : List PlacedToken}
    (spelled : tokens.map PlacedToken.token = listYield derivations)
    (distinct : (derivations.map symbol).Nodup)
    (readable : EachChain Chain.Readable (tokens.map PlacedToken.token)) :
    ∃ definitions, ReadAs derivations tokens definitions := by
  obtain ⟨definitions, read, unfolds, rules⟩ :=
    exists_readDefinitions spelled distinct readable fun _ _ => List.not_mem_nil
  exact ⟨definitions, by rw [Definition.ofTokens, read]; rfl, unfolds, rules⟩

namespace ReadAs

variable {tokens : List PlacedToken}

theorem rules_eq (reading : ReadAs derivations tokens definitions)
    (distinct : (derivations.map symbol).Nodup) :
    Definition.rules (Definition.unfolded (Definition.rules Definition.folded definitions))
      definitions = DefinitionDerivation.rules derivations := by
  have offers : Offers (Definition.unfolded (Definition.rules Definition.folded definitions))
      (unfolded derivations) := by
    intro junction other
    rw [Definition.unfolded, Fragment.options, rules_eq_insertAll distinct
      (reading.rules offers_folded), lookup_insertAll distinct, unfolded]
  rw [rules_eq_insertAll distinct (reading.rules offers), DefinitionDerivation.rules]

theorem result_eq_ok (reading : ReadAs derivations tokens definitions)
    (distinct : (derivations.map symbol).Nodup) {start : Symbol} {grammar : Grammar} :
    (GrammarReading.ofDefinitions definitions start).result = .ok grammar ↔
      start ∈ derivations.map symbol ∧
      (∀ sign ∈ unfoldSigns tokens, sign.1 ∈ derivations.map symbol) ∧
      grammar.start = start ∧ grammar.rules = DefinitionDerivation.rules derivations := by
  rw [GrammarReading.ofDefinitions_eq_ok, reading.rules_eq distinct, reading.unfolds,
    map_symbol_eq (reading.rules offers_folded)]

end ReadAs

end DefinitionDerivation

end GrammarText

namespace Grammar

open GrammarText

/-- Tokens without empty chains make a grammar exactly if they are accepted, and then the one that
they denote. -/
theorem ofTokens_eq_ok {tokens : List PlacedToken} {start : Symbol} {grammar : Grammar}
    (solid : EachChain Chain.NotEmpty (tokens.map PlacedToken.token)) :
    ofTokens tokens start = .ok grammar ↔
      ∃ definitions, ∃ accept : DefinitionDerivation.Accept definitions tokens start,
        accept.grammar = grammar := by
  constructor
  · intro made
    cases outcome : readDefinitions [] tokens with
    | error fault =>
      rw [ofTokens, GrammarReading.ofTokens, Definition.ofTokens, outcome] at made
      cases made
    | ok values =>
      obtain ⟨definitions, spelled, readable, distinct, _⟩ := exists_definitions solid outcome
      obtain ⟨others, reading⟩ := DefinitionDerivation.exists_readAs spelled distinct readable
      simp only [ofTokens, GrammarReading.ofTokens, GrammarReading.ofResult, reading.read] at made
      obtain ⟨start, unfolds, rfl, rules⟩ := (reading.result_eq_ok distinct).mp made
      refine ⟨definitions, ⟨spelled, distinct, readable, unfolds, start⟩, ?_⟩
      cases grammar
      cases rules
      rfl
  · intro denoted
    rcases denoted with ⟨definitions, accept, rfl⟩
    obtain ⟨values, reading⟩ :=
      DefinitionDerivation.exists_readAs accept.spelled accept.distinct accept.readable
    simp only [ofTokens, GrammarReading.ofTokens, GrammarReading.ofResult, reading.read]
    exact (reading.result_eq_ok accept.distinct).mpr ⟨accept.start, accept.unfolds, rfl, rfl⟩

theorem ofText_eq_ofTokens {text : String} {tokens : List PlacedToken} (start : Symbol)
    (cut : Token.tokenize text = .ok tokens) : ofText text start = ofTokens tokens start := by
  simp only [ofText, ofTokens, GrammarReading.ofText, GrammarReading.ofTokens, Definition.ofText,
    cut, bind, Except.bind]

theorem exists_accept_of_ofText {text : String} {start : Symbol} {grammar : Grammar}
    (made : ofText text start = .ok grammar) :
    ∃ tokens definitions, Token.tokenize text = .ok tokens ∧
      ∃ accept : DefinitionDerivation.Accept definitions tokens start,
        accept.grammar = grammar := by
  cases cut : Token.tokenize text with
  | error fault =>
    rw [ofText, GrammarReading.ofText, Definition.ofText, cut] at made
    cases made
  | ok tokens =>
    rw [ofText_eq_ofTokens start cut] at made
    obtain ⟨definitions, accepted⟩ := (ofTokens_eq_ok (Token.notEmpty_scan cut)).mp made
    exact ⟨tokens, definitions, rfl, accepted⟩

theorem ofText_of_accept {text : String} {tokens : List PlacedToken} {start : Symbol}
    {definitions : List DefinitionDerivation} (cut : Token.tokenize text = .ok tokens)
    (accept : DefinitionDerivation.Accept definitions tokens start) :
    ofText text start = .ok accept.grammar := by
  rw [ofText_eq_ofTokens start cut]
  exact (ofTokens_eq_ok (Token.notEmpty_scan cut)).mpr ⟨definitions, accept, rfl⟩

/-- A text makes a grammar exactly if its tokens are accepted with the start symbol. The grammar is
the one that a derivation of the tokens denotes. -/
theorem ofText_eq_ok_iff (text : String) (start : Symbol) (grammar : Grammar) :
    ofText text start = .ok grammar ↔
      ∃ tokens definitions, Token.tokenize text = .ok tokens ∧
        ∃ accept : DefinitionDerivation.Accept definitions tokens start,
          accept.grammar = grammar := by
  constructor
  · intro made
    cases cut : Token.tokenize text with
    | error fault =>
      simp [ofText, GrammarReading.ofText, Definition.ofText, cut, bind, Except.bind,
        GrammarReading.ofResult] at made
    | ok tokens =>
      rw [ofText_eq_ofTokens start cut] at made
      obtain ⟨definitions, accepted⟩ := (ofTokens_eq_ok (Token.notEmpty_scan cut)).mp made
      exact ⟨tokens, definitions, rfl, accepted⟩
  · intro denoted
    rcases denoted with ⟨tokens, definitions, cut, accepted⟩
    rw [ofText_eq_ofTokens start cut]
    exact (ofTokens_eq_ok (Token.notEmpty_scan cut)).mpr ⟨definitions, accepted⟩

end Grammar

end SentenceGrammar
