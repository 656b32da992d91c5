import SentenceGrammar.GrammarText.Unfolding
import SentenceGrammar.Proofs.Grammar.Lookup

/-! What the grammar of written definitions depends on. It has the rules that are written whatever
unfolded symbols stand for, and only those symbols matter that are unfolded. -/

namespace SentenceGrammar

def AgreeOn (first second : Junction → Symbol → Fragment) (unfolds : List (Symbol × Position)) :
    Prop :=
  ∀ sign ∈ unfolds, ∀ junction, first junction sign.1 = second junction sign.1

section Congruence

variable {first second : Junction → Symbol → Fragment}

@[simp] theorem agreeOn_append {unfolds others : List (Symbol × Position)} :
    AgreeOn first second (unfolds ++ others) ↔
      AgreeOn first second unfolds ∧ AgreeOn first second others := by
  simp only [AgreeOn, List.forall_mem_append]

mutual

theorem Term.denote_congr : (term : Term) → AgreeOn first second term.unfolds →
    term.denote first = term.denote second
  | .terminal _, _ => rfl
  | .reference _ _, _ => rfl
  | .group branches _, agree => by
    rw [Term.denote, Term.denote, Branch.denoteList_congr branches agree]
  | .optional branches _, agree => by
    rw [Term.denote, Term.denote, Branch.denoteList_congr branches agree]
  | .epsilon, _ => rfl

theorem Term.denoteList_congr : (terms : List Term) →
    AgreeOn first second (Term.listUnfolds terms) →
    Term.denoteList first terms = Term.denoteList second terms
  | [], _ => rfl
  | term :: rest, agree => by
    obtain ⟨here, later⟩ := agreeOn_append.mp agree
    rw [Term.denoteList, Term.denoteList, term.denote_congr here, Term.denoteList_congr rest later]

theorem Piece.denote_congr : (piece : Piece) → AgreeOn first second piece.unfolds →
    piece.denote first = piece.denote second
  | .plain junction term [], agree => by
    obtain ⟨here, _⟩ := agreeOn_append.mp agree
    rw [Piece.denote, Piece.denote, term.denote_congr here]
  | .plain junction term (next :: others), agree => by
    obtain ⟨here, later⟩ := agreeOn_append.mp agree
    have terms := Term.denoteList_congr (next :: others) later
    simp only [Term.denoteList] at terms
    rw [Piece.denote, Piece.denote, term.denote_congr here, terms]
  | .unfoldGroup junction branches, agree => by
    rw [Piece.denote, Piece.denote, Branch.denoteList_congr branches agree]
  | .unfoldOptional junction branches, agree => by
    rw [Piece.denote, Piece.denote, Branch.denoteList_congr branches agree]
  | .unfoldSymbol junction symbol position, agree => agree _ List.mem_cons_self junction

theorem Piece.denoteList_congr : (pieces : List Piece) →
    AgreeOn first second (Piece.listUnfolds pieces) →
    Piece.denoteList first pieces = Piece.denoteList second pieces
  | [], _ => rfl
  | piece :: rest, agree => by
    obtain ⟨here, later⟩ := agreeOn_append.mp agree
    rw [Piece.denoteList, Piece.denoteList, piece.denote_congr here,
      Piece.denoteList_congr rest later]

theorem Branch.denoteList_congr : (branches : List Branch) →
    AgreeOn first second (Branch.listUnfolds branches) →
    Branch.denoteList first branches = Branch.denoteList second branches
  | [], _ => rfl
  | ⟨label, pieces⟩ :: rest, agree => by
    obtain ⟨here, later⟩ := agreeOn_append.mp agree
    rw [Branch.denoteList, Branch.denoteList, Piece.denoteList_congr pieces here,
      Branch.denoteList_congr rest later]

end

end Congruence

namespace Definition

def rule (unfold : Junction → Symbol → Fragment) (definition : Definition) : Rule :=
  ⟨definition.symbol, Branch.denoteList unfold definition.branches⟩

theorem rules_eq_foldl (unfold : Junction → Symbol → Fragment) (definitions : List Definition) :
    rules unfold definitions =
      (definitions.map (rule unfold)).foldl
        (fun rules rule => rules.extend rule.symbol rule.alternatives) .empty := by
  rw [List.foldl_map]
  rfl

theorem rules_congr {first second : Junction → Symbol → Fragment} {definitions : List Definition}
    (agree : AgreeOn first second (listUnfolds definitions)) :
    rules first definitions = rules second definitions := by
  have same : definitions.map (rule first) = definitions.map (rule second) := by
    apply List.map_congr_left
    intro definition member
    rw [rule, rule, Branch.denoteList_congr]
    intro sign unfolded
    exact agree sign (List.mem_flatMap.mpr ⟨definition, member, unfolded⟩)
  rw [rules_eq_foldl, rules_eq_foldl, same]

end Definition

namespace Rules

theorem foldl_extend {listing : List Rule} (distinct : (listing.map Rule.symbol).Nodup)
    {rules : Rules} (fresh : ∀ rule ∈ listing, rules.lookup rule.symbol = none) :
    listing.foldl (fun rules rule => rules.extend rule.symbol rule.alternatives) rules =
      rules.insertAll listing := by
  induction listing generalizing rules with
  | nil => rfl
  | cons rule rest ih =>
    obtain ⟨absent, later⟩ := List.nodup_cons.mp distinct
    have added : rules.extend rule.symbol rule.alternatives =
        rules.insert rule.symbol rule.alternatives := by
      rw [extend, fresh rule List.mem_cons_self]
      rfl
    rw [List.foldl_cons, added, ih later, insertAll, insertAll, List.foldl_cons]
    intro other member
    have different : rule.symbol ≠ other.symbol := fun same =>
      absent (same ▸ List.mem_map_of_mem member)
    rw [lookup_insert, if_neg different, fresh other (List.mem_cons_of_mem _ member)]

theorem defines_foldl_extend (listing : List Rule) (rules : Rules) (symbol : Symbol) :
    (listing.foldl (fun rules rule => rules.extend rule.symbol rule.alternatives) rules).defines
        symbol = true ↔ symbol ∈ listing.map Rule.symbol ∨ rules.defines symbol = true := by
  induction listing generalizing rules with
  | nil => simp
  | cons rule rest ih =>
    rw [List.foldl_cons, ih, List.map_cons, List.mem_cons]
    simp only [defines, extend, lookup_insert]
    by_cases same : rule.symbol = symbol
    · simp [same]
    · simp [same, Ne.symm same]

end Rules

namespace Definition

theorem rules_eq_insertAll {unfold : Junction → Symbol → Fragment} {definitions : List Definition}
    (distinct : (definitions.map Definition.symbol).Nodup) :
    rules unfold definitions = Rules.empty.insertAll (definitions.map (rule unfold)) := by
  rw [rules_eq_foldl, Rules.foldl_extend]
  · rw [List.map_map]
    exact distinct
  · exact fun _ _ => Rules.lookup_empty _

theorem defines_rules (unfold : Junction → Symbol → Fragment) (definitions : List Definition)
    (symbol : Symbol) :
    (rules unfold definitions).defines symbol = true ↔
      symbol ∈ definitions.map Definition.symbol := by
  rw [rules_eq_foldl, Rules.defines_foldl_extend, List.map_map]
  simp [Rules.defines, Function.comp_def, rule]

theorem startingFrom_eq_ok {start : Symbol} {rules : Rules} {grammar : Grammar} :
    startingFrom start rules = .ok grammar ↔
      rules.defines start = true ∧ grammar.start = start ∧ grammar.rules = rules :=
  Grammar.mapError_ofRules_eq_ok

theorem unfoldFrom_eq_ok {table : Rules} {definitions : List Definition} {start : Symbol}
    {grammar : Grammar} :
    unfoldFrom table definitions start = .ok grammar ↔
      (∀ sign ∈ listUnfolds definitions, table.defines sign.1 = true) ∧
        startingFrom start (rules (unfolded table) definitions) = .ok grammar := by
  rw [unfoldFrom]
  split
  · rename_i symbol position found
    have undefined := List.find?_some found
    have member := List.mem_of_find?_eq_some found
    simp only [reduceCtorEq, false_iff, not_and]
    intro defined
    simp [defined _ member] at undefined
  · rename_i absent
    rw [List.find?_eq_none] at absent
    refine (and_iff_right fun sign member => ?_).symm
    simpa using absent sign member

theorem unfoldFrom_undefined {table : Rules} {definitions : List Definition} {start symbol : Symbol}
    {position : Position} {earlier later : List (Symbol × Position)}
    (unfolds : listUnfolds definitions = earlier ++ (symbol, position) :: later)
    (before : ∀ sign ∈ earlier, table.defines sign.1 = true)
    (undefined : table.defines symbol = false) :
    unfoldFrom table definitions start =
      .error (.syntaxAt position (.undefinedUnfold symbol)) := by
  rw [unfoldFrom, unfolds, List.find?_append, List.find?_eq_none.mpr, Option.none_or,
    List.find?_cons_of_pos]
  · show (!table.defines symbol) = true
    rw [undefined]
    rfl
  · intro sign member
    simp [before sign member]

end Definition

/-- Definitions make a grammar if the start symbol and all unfolded symbols are defined. -/
theorem GrammarReading.ofDefinitions_eq_ok {definitions : List Definition} {start : Symbol}
    {grammar : Grammar} :
    (ofDefinitions definitions start).result = .ok grammar ↔
      start ∈ definitions.map Definition.symbol ∧
      (∀ sign ∈ Definition.listUnfolds definitions, sign.1 ∈ definitions.map Definition.symbol) ∧
      grammar.start = start ∧
      grammar.rules = Definition.rules
        (Definition.unfolded (Definition.rules Definition.folded definitions)) definitions := by
  cases started :
      Definition.startingFrom start (Definition.rules Definition.folded definitions) with
  | error fault =>
    have undefined : start ∉ definitions.map Definition.symbol := by
      intro defined
      rw [← Definition.defines_rules Definition.folded] at defined
      have made : Definition.startingFrom start (Definition.rules Definition.folded definitions) =
          .ok ⟨_, start, defined⟩ := Definition.startingFrom_eq_ok.mpr ⟨defined, rfl, rfl⟩
      cases started.symm.trans made
    simp [ofDefinitions, started, undefined]
  | ok first =>
    have defined := (Definition.startingFrom_eq_ok.mp started).1
    rw [Definition.defines_rules] at defined
    cases unfolds : Definition.listUnfolds definitions with
    | nil =>
      have same : Definition.rules Definition.folded definitions = Definition.rules
          (Definition.unfolded (Definition.rules Definition.folded definitions)) definitions :=
        Definition.rules_congr (unfolds ▸ fun _ member => absurd member List.not_mem_nil)
      rw [ofDefinitions]
      simp only [started, unfolds, ← same]
      rw [← started, Definition.startingFrom_eq_ok, Definition.defines_rules]
      simp
    | cons sign others =>
      rw [ofDefinitions]
      simp only [started, unfolds]
      rw [Definition.unfoldFrom_eq_ok, Definition.startingFrom_eq_ok, Definition.defines_rules,
        unfolds]
      simp only [Definition.defines_rules]
      grind

end SentenceGrammar
