import SentenceGrammar.Proofs.GrammarText.Framing
import SentenceGrammar.Proofs.GrammarText.Progress

/-! What passes with a cursor make of phrases. Where tokens are read as a phrase, a parser takes the
same tokens and makes of them what the phrase stands for in this pass; in the second pass it may
fail at the first symbol that it cannot unfold. -/

namespace SentenceGrammar

open Character

namespace GrammarText

variable {α β : Type}

namespace Pass

def unfold (pass : Pass) : Junction → Symbol → Fragment :=
  match pass.symbols with
  | none => Definition.folded
  | some rules => Definition.unfolded rules

def misses (pass : Pass) (sign : Symbol × Position) : Bool :=
  match pass.symbols with
  | none => false
  | some rules => !rules.defines sign.1

def references (pass : Pass) (unfolds : List (Symbol × Position)) : Nat :=
  match pass.symbols with
  | none => unfolds.length
  | some _ => 0

/-- A step takes some tokens up to others. It comes to a result, if it does not miss one of the
symbols that are unfolded in between. -/
def Follows (pass : Pass) (action : Parsing α) (tokens : List PlacedToken)
    (unfolds : List (Symbol × Position)) (result : α) (rest : List PlacedToken) : Prop :=
  ∀ place deferred, pass.tokens.drop place = tokens →
    match unfolds.find? pass.misses with
    | some (symbol, position) =>
      action ⟨place, deferred⟩ = .error (.fault (.syntaxAt position (.undefinedUnfold symbol)))
    | none => ∃ further, pass.tokens.drop further = rest ∧
      action ⟨place, deferred⟩ = .ok (result, ⟨further, deferred + pass.references unfolds⟩)

variable {pass : Pass} {tokens between rest : List PlacedToken}
  {unfolds others : List (Symbol × Position)}

theorem references_append (pass : Pass) (unfolds others : List (Symbol × Position)) :
    pass.references (unfolds ++ others) = pass.references unfolds + pass.references others := by
  unfold references
  split
  · exact List.length_append
  · rfl

theorem references_nil (pass : Pass) : pass.references [] = 0 := by
  unfold references
  split <;> rfl

theorem length_le {place : Nat} (left : pass.tokens.drop place = tokens) :
    tokens.length ≤ pass.tokens.length := by
  rw [← left, List.length_drop]
  exact Nat.sub_le _ _

theorem drop_succ {place : Nat} {token : PlacedToken}
    (left : pass.tokens.drop place = token :: tokens) : pass.tokens.drop (place + 1) = tokens := by
  rw [← List.drop_drop, left]
  rfl

theorem tokenAt_add {place : Nat} (left : pass.tokens.drop place = tokens) (offset : Nat) :
    pass.tokenAt (place + offset) = firstToken (tokens.drop offset) := by
  rw [← left, List.drop_drop, firstToken, List.head?_drop]
  rfl

theorem tokenAt_eq {place : Nat} (left : pass.tokens.drop place = tokens) :
    pass.tokenAt place = firstToken tokens :=
  tokenAt_add left 0

theorem reportAt_eq (filled : pass.tokens ≠ []) {index : Nat}
    (left : pass.tokens.drop index = tokens) (why : SyntaxFault) (cursor : Cursor) :
    (pass.reportAt index why cursor : Except Halt (α × Cursor)) =
      .error (.fault ((ReadingFault.syntaxBefore tokens why).locate pass.tokens)) := by
  have here : pass.tokens[index]? = tokens.head? := by rw [← left, List.head?_drop]
  rw [reportAt, here]
  cases tokens with
  | cons token later => rfl
  | nil =>
    cases last : pass.tokens.getLast? with
    | none => exact absurd (List.getLast?_eq_none_iff.mp last) filled
    | some token =>
      rw [ReadingFault.locate, last]
      rfl

theorem bind_peek (next : Option Token → Parsing α) (cursor : Cursor) :
    (pass.peek >>= next) cursor = next (pass.tokenAt cursor.position) cursor :=
  rfl

theorem peekAt_eq {place : Nat} (left : pass.tokens.drop place = tokens) {offset : Nat}
    {next : Option Token → Parsing α} {deferred : Nat} :
    (pass.peekAt offset >>= next) ⟨place, deferred⟩ =
      next (firstToken (tokens.drop offset)) ⟨place, deferred⟩ := by
  rw [← tokenAt_add left]
  rfl

theorem loop_eq {goesOn : Option Token → Bool} {round : α → Parsing α} {rounds : Nat} {value : α}
    {place : Nat} (left : pass.tokens.drop place = tokens)
    (on : goesOn (firstToken tokens) = true) (enough : 0 < rounds) {deferred : Nat} :
    pass.loop goesOn round rounds value ⟨place, deferred⟩ =
      (round value >>= pass.loop goesOn round (rounds - 1)) ⟨place, deferred⟩ := by
  cases rounds with
  | zero => cases enough
  | succ rounds =>
    rw [loop, bind_peek, tokenAt_eq left, on]
    rfl

theorem unit_eq {inner : Parsing (List Alternative)} {token : PlacedToken} {place : Nat}
    (left : pass.tokens.drop place = token :: tokens) {deferred : Nat} :
    pass.unit inner ⟨place, deferred⟩ = pass.unitFrom inner token.token ⟨place + 1, deferred⟩ := by
  have taken : pass.advance ⟨place, deferred⟩ =
      .ok (some token.token, ⟨place + 1, deferred⟩) := by
    rw [advance, bind_peek, tokenAt_eq left]
    rfl
  rw [unit, bind_parsing, taken]

theorem nextDefinition_eq {begun : List Symbol × Rules} {name : String} {position : Position}
    {place : Nat} (left : pass.tokens.drop place = ⟨.word name, position⟩ :: tokens)
    (uppercase : startsUppercase name.toList = true) (fresh : ⟨name⟩ ∉ begun.1) {deferred : Nat} :
    pass.nextDefinition begun ⟨place, deferred⟩ =
      pass.definition begun ⟨name⟩ ⟨place, deferred⟩ := by
  rw [nextDefinition, bind_peek, tokenAt_eq left]
  simp only [firstToken, List.head?_cons, Option.map_some, uppercase, fresh, if_true, if_false]

namespace Follows

theorem of_ok {action : Parsing α} {result : α}
    (taken : ∀ place deferred, pass.tokens.drop place = tokens → ∃ further,
      pass.tokens.drop further = rest ∧
        action ⟨place, deferred⟩ = .ok (result, ⟨further, deferred⟩)) :
    pass.Follows action tokens [] result rest := by
  intro place deferred left
  obtain ⟨further, leaves, made⟩ := taken place deferred left
  exact ⟨further, leaves, by rw [made, references_nil]; rfl⟩

theorem pure (result : α) : pass.Follows (Pure.pure result) tokens [] result tokens :=
  of_ok fun place _ left => ⟨place, left, rfl⟩

theorem bind {first : Parsing α} {next : α → Parsing β} {value : α} {result : β}
    (here : pass.Follows first tokens unfolds value between)
    (later : pass.Follows (next value) between others result rest) :
    pass.Follows (first >>= next) tokens (unfolds ++ others) result rest := by
  intro place deferred left
  have taken := here place deferred left
  rw [bind_parsing, List.find?_append]
  cases found : unfolds.find? pass.misses with
  | some sign =>
    rw [found] at taken
    rw [taken]
    rfl
  | none =>
    rw [found] at taken
    obtain ⟨further, leaves, made⟩ := taken
    rw [made, references_append, ← Nat.add_assoc]
    exact later further _ leaves

theorem last {first : Parsing α} {next : α → Parsing β} {value : α} {result : β}
    (here : pass.Follows first tokens unfolds value between)
    (later : pass.Follows (next value) between [] result rest) :
    pass.Follows (first >>= next) tokens unfolds result rest := by
  rw [← List.append_nil unfolds]
  exact here.bind later

theorem get {next : Cursor → Parsing α} {result : α}
    (later : ∀ start : Cursor, pass.tokens.drop start.position = tokens →
      pass.Follows (next start) tokens unfolds result rest) :
    pass.Follows (MonadState.get >>= next) tokens unfolds result rest :=
  fun place deferred left => later ⟨place, deferred⟩ left place deferred left

theorem peekAt {offset : Nat} {next : Option Token → Parsing α} {result : α}
    (later : pass.Follows (next (firstToken (tokens.drop offset))) tokens unfolds result rest) :
    pass.Follows (pass.peekAt offset >>= next) tokens unfolds result rest := by
  intro place deferred left
  rw [peekAt_eq left]
  exact later place deferred left

theorem peek {next : Option Token → Parsing α} {result : α}
    (later : pass.Follows (next (firstToken tokens)) tokens unfolds result rest) :
    pass.Follows (pass.peek >>= next) tokens unfolds result rest :=
  peekAt later

theorem skip (front : List PlacedToken) :
    pass.Follows (skip front.length) (front ++ rest) [] () rest := by
  refine of_ok fun place deferred left => ⟨place + front.length, ?_, rfl⟩
  rw [← List.drop_drop, left, List.drop_left]

theorem within {action : Parsing α} {result : α}
    (follows : tokens.length ≤ pass.tokens.length →
      pass.Follows action tokens unfolds result rest) :
    pass.Follows action tokens unfolds result rest :=
  fun place deferred left => follows (length_le left) place deferred left

theorem expect {wanted : Token} {position : Position} :
    pass.Follows (pass.expect wanted) (⟨wanted, position⟩ :: rest) [] () rest := by
  refine peek ?_
  rw [if_pos (show firstToken _ = some wanted from rfl)]
  exact skip [_]

theorem chain {chain : Chain} (chained : Takes (readChain tokens) chain rest) :
    pass.Follows pass.chain tokens [] chain rest := by
  refine peek ?_
  rcases exists_chain_or_not tokens with ⟨text, position, later, rfl⟩ | absent
  · obtain ⟨read, rfl⟩ := takes_readChain_chain.mp chained
    simp only [firstToken, List.head?_cons, Option.map_some, read]
    exact (skip [_]).bind (pure _)
  · obtain ⟨rfl, rfl⟩ := (takes_readChain_other absent).mp chained
    split
    · rename_i text first
      exact absurd first (absent text)
    · exact pure _

theorem junction {front : List PlacedToken} {junction : Junction}
    (joined : front.map PlacedToken.token = junctionTokens junction)
    (bare : junction = .space → firstToken rest ≠ some .caret) :
    pass.Follows pass.junction (front ++ rest) [] junction rest := by
  refine peek ?_
  cases junction with
  | space =>
    rw [List.map_eq_nil_iff.mp joined, List.nil_append, if_neg (bare rfl)]
    exact pure _
  | glue =>
    obtain ⟨position, later, rfl, empty⟩ := map_token_eq_cons.mp joined
    rw [List.map_eq_nil_iff.mp empty]
    exact (skip [_]).bind (pure _)

theorem label {front : List PlacedToken} {label : Option String}
    (opened : front.map PlacedToken.token = labelTokens label)
    (bare : label = none → beginsWithLabel (rest.map PlacedToken.token) = false) :
    pass.Follows pass.label (front ++ rest) [] (label.map Label.mk) rest := by
  refine peek (peekAt ?_)
  cases label with
  | none =>
    rw [List.map_eq_nil_iff.mp opened, List.nil_append]
    split
    · rename_i text first second
      obtain ⟨position, later, rfl⟩ := exists_of_firstToken first
      obtain ⟨colon, _, rfl⟩ := exists_of_firstToken second
      cases bare rfl
    · exact pure _
  | some label =>
    obtain ⟨position, after, rfl, spelled⟩ := map_token_eq_cons.mp opened
    obtain ⟨colon, none, rfl, empty⟩ := map_token_eq_cons.mp spelled
    rw [List.map_eq_nil_iff.mp empty]
    exact (skip [_, _]).bind (pure _)

section Loops

variable {goesOn : Option Token → Bool} {round : α → Parsing α} {rounds : Nat} {value result : α}

theorem loop_end (ends : goesOn (firstToken tokens) = false) :
    pass.Follows (pass.loop goesOn round rounds value) tokens [] value tokens := by
  cases rounds <;>
  · refine peek ?_
    rw [ends]
    exact pure _

theorem loop_on (on : goesOn (firstToken tokens) = true) (enough : 0 < rounds)
    (later : pass.Follows (round value >>= pass.loop goesOn round (rounds - 1)) tokens unfolds
      result rest) :
    pass.Follows (pass.loop goesOn round rounds value) tokens unfolds result rest := by
  intro place deferred left
  rw [loop_eq left on enough]
  exact later place deferred left

end Loops

section Levels

variable {inner : Parsing (List Alternative)}

theorem unit {token : PlacedToken} {result : Atom}
    (later : pass.Follows (pass.unitFrom inner token.token) between unfolds result rest) :
    pass.Follows (pass.unit inner) (token :: between) unfolds result rest := by
  intro place deferred left
  rw [unit_eq left]
  exact later _ deferred (drop_succ left)

theorem group {closing : Token} {after : List PlacedToken} {position : Position} {chain : Chain}
    {alternatives : List Alternative} (added : List Alternative)
    (inside : pass.Follows inner tokens unfolds alternatives (⟨closing, position⟩ :: after))
    (chained : Takes (readChain after) chain rest) :
    pass.Follows (pass.group inner closing added) tokens unfolds
      (.group (alternatives ++ added) chain) rest :=
  inside.last (expect.bind ((Follows.chain chained).bind (pure _)))

theorem atom_single {atom : Atom} (first : pass.Follows (pass.unit inner) tokens unfolds atom rest)
    (ends : firstToken rest ≠ some .comma) :
    pass.Follows (pass.atom inner) tokens unfolds atom rest := by
  refine first.last (peek ?_)
  rw [if_neg ends]
  exact pure _

theorem atom_positional {atom : Atom} {choices : List Atom} {position : Position}
    (first : pass.Follows (pass.unit inner) tokens unfolds atom (⟨.comma, position⟩ :: between))
    (later : pass.Follows
      (pass.loop (· == some .comma) (pass.nextChoice inner) pass.tokens.length [atom])
      (⟨.comma, position⟩ :: between) others choices rest) :
    pass.Follows (pass.atom inner) tokens (unfolds ++ others) (.positional choices) rest := by
  refine first.bind (peek ?_)
  rw [if_pos (show firstToken _ = some Token.comma from rfl)]
  exact later.last (pure _)

theorem item_plain {front : List PlacedToken} {junction : Junction} {atom : Atom}
    (joined : front.map PlacedToken.token = junctionTokens junction)
    (bare : firstToken tokens ≠ some .caret) (folded : firstToken tokens ≠ some .unfold)
    (follows : pass.Follows (pass.atom inner) tokens unfolds atom rest) :
    pass.Follows (pass.item inner) (front ++ tokens) unfolds (.part ⟨junction, atom⟩) rest := by
  refine (Follows.junction joined fun _ => bare).bind (peek ?_)
  rw [if_neg folded]
  exact follows.last (pure _)

theorem item_unfolded {front : List PlacedToken} {junction : Junction} {sign : Position}
    {atom : Atom} {fragment : Fragment}
    (joined : front.map PlacedToken.token = junctionTokens junction)
    (follows : pass.Follows (pass.unit inner) tokens unfolds atom rest)
    (spliced : ∀ index, pass.tokens.drop index = tokens →
      pass.Follows (pass.splice junction index atom) rest others fragment rest) :
    pass.Follows (pass.item inner) (front ++ ⟨.unfold, sign⟩ :: tokens) (unfolds ++ others) fragment
      rest := by
  refine (Follows.junction joined fun _ => firstToken_unfold_ne_caret).bind (peek ?_)
  rw [if_pos (show firstToken _ = some Token.unfold from rfl)]
  exact (skip [_]).bind (get fun start left => follows.bind (spliced start.position left))

end Levels

theorem splice_symbol (junction : Junction) (symbol : Symbol) {index : Nat}
    (left : pass.tokens.drop index = tokens) (filled : tokens ≠ []) :
    pass.Follows (pass.splice junction index (.reference symbol [])) rest
      [(symbol, firstPosition tokens)] (pass.unfold junction symbol) rest := by
  obtain ⟨token, later, rfl⟩ := List.exists_cons_of_ne_nil filled
  have given : pass.tokens ≠ [] := by
    rintro empty
    rw [empty, List.drop_nil] at left
    cases left
  intro place deferred leaves
  cases symbols : pass.symbols with
  | none =>
    have folded : pass.misses (symbol, firstPosition (token :: later)) = false := by
      rw [misses, symbols]
    simp only [List.find?_cons, folded, List.find?_nil]
    refine ⟨place, leaves, ?_⟩
    rw [Pass.splice, symbols, unfold, symbols, references, symbols]
    rfl
  | some rules =>
    cases found : rules.lookup symbol with
    | none =>
      have missing : pass.misses (symbol, firstPosition (token :: later)) = true := by
        rw [misses, symbols]
        simp [Rules.defines, found]
      simp only [List.find?_cons, missing]
      simp only [Pass.splice, symbols, found]
      exact reportAt_eq given left _ _
    | some alternatives =>
      have present : pass.misses (symbol, firstPosition (token :: later)) = false := by
        rw [misses, symbols]
        simp [Rules.defines, found]
      simp only [List.find?_cons, present, List.find?_nil]
      refine ⟨place, leaves, ?_⟩
      simp only [Pass.splice, symbols, found, unfold, references, Definition.unfolded]
      rfl

theorem exists_splice {junction : Junction} {value : Term} {piece : Piece} (filled : tokens ≠ [])
    (made : unfoldedPiece junction (firstPosition tokens) value = some piece) :
    ∃ others, value.unfolds ++ others = piece.unfolds ∧
      ∀ index, pass.tokens.drop index = tokens →
        pass.Follows (pass.splice junction index (value.denote pass.unfold)) rest others
          (piece.denote pass.unfold) rest := by
  unfold unfoldedPiece at made
  split at made
  · cases made
    exact ⟨[], List.append_nil _, fun _ _ => pure _⟩
  · cases made
    exact ⟨[], List.append_nil _, fun _ _ => pure _⟩
  · cases made
    exact ⟨_, rfl, fun _ left => splice_symbol junction _ left filled⟩
  · cases made

theorem definition {begun : List Symbol × Rules} {symbol : Symbol} {token : PlacedToken}
    {define closing : Position} {alternatives : List Alternative}
    (inside : pass.Follows (pass.productions pass.tokens.length) tokens unfolds alternatives
      (⟨.semicolon, closing⟩ :: rest)) :
    pass.Follows (pass.definition begun symbol) (token :: ⟨.define, define⟩ :: tokens) unfolds
      (symbol :: begun.1, begun.2.extend symbol alternatives) rest :=
  (skip [token]).bind (expect.bind (inside.last (expect.bind (pure _))))

end Follows

end Pass

/-- A parser does what the reader of a category does, if there is room for as many nested calls and
rounds of loops as there are tokens. A loop continues what has been parsed before it. -/
def Category.Parses (pass : Pass) : (category : Category) → List PlacedToken → category.Value →
    List PlacedToken → Prop
  | .branches, tokens, values, rest => ∀ room rounds begun, tokens.length ≤ room →
    tokens.length ≤ rounds → pass.Follows
      (do
        let first ← pass.production (pass.productions room)
        pass.loop (· == some .bar) (pass.nextProduction (pass.productions room)) rounds
          (begun ++ first))
      tokens (Branch.listUnfolds values) (begun ++ Branch.denoteList pass.unfold values) rest
  | .branch, tokens, value, rest => ∀ room, tokens.length ≤ room →
    pass.Follows (pass.production (pass.productions room)) tokens (Branch.listUnfolds [value])
      (Branch.denoteList pass.unfold [value]) rest
  | .pieces, tokens, values, rest => ∀ room rounds begun, tokens.length ≤ room →
    tokens.length ≤ rounds → pass.Follows
      (pass.loop Pass.goesOn (pass.nextItem (pass.productions room)) rounds begun) tokens
      (Piece.listUnfolds values) (begun ++ Piece.denoteList pass.unfold values) rest
  | .piece, tokens, value, rest => ∀ room, tokens.length ≤ room →
    pass.Follows (pass.item (pass.productions room)) tokens value.unfolds
      (value.denote pass.unfold) rest
  | .others, tokens, values, rest => ∀ room rounds begun, tokens.length ≤ room →
    tokens.length ≤ rounds → pass.Follows
      (pass.loop (· == some .comma) (pass.nextChoice (pass.productions room)) rounds begun) tokens
      (Term.listUnfolds values) (begun ++ Term.denoteList pass.unfold values) rest
  | .term, tokens, value, rest => ∀ room, tokens.length ≤ room →
    pass.Follows (pass.unit (pass.productions room)) tokens value.unfolds
      (value.denote pass.unfold) rest

theorem Pass.goesOn_firstToken (tokens : List PlacedToken) :
    Pass.goesOn (firstToken tokens) = !endsBranch tokens := by
  unfold endsBranch Pass.goesOn
  split <;> simp_all

theorem unfolds_ofWord (text : String) (chain : Chain) : (Term.ofWord text chain).unfolds = [] := by
  unfold Term.ofWord
  split
  · rfl
  · split <;> rfl

theorem denote_ofWord (unfold : Junction → Symbol → Fragment) (text : String) (chain : Chain) :
    (Term.ofWord text chain).denote unfold =
      if text = "_" then .epsilon
      else if startsUppercase text.toList then .reference ⟨text⟩ chain
      else .terminal text := by
  unfold Term.ofWord
  split
  · rfl
  · split <;> rfl

section Phrases

variable {pass : Pass} {tokens rest : List PlacedToken}

open Pass

theorem follows_productions {values : List Branch}
    (parses : Category.branches.Parses pass tokens values rest) {room : Nat}
    (fits : tokens.length < room) :
    pass.Follows (pass.productions room) tokens (Branch.listUnfolds values)
      (Branch.denoteList pass.unfold values) rest := by
  obtain ⟨room, rfl⟩ := Nat.exists_eq_add_one.mpr (Nat.zero_lt_of_lt fits)
  exact .within fun inside =>
    parses room pass.tokens.length [] (Nat.le_of_lt_succ fits) inside

theorem Reads.parses {category : Category} {value : category.Value}
    (reads : Reads category tokens value rest) : category.Parses pass tokens value rest := by
  -- What a phrase consists of has fewer tokens, so the room and the rounds left to it are enough.
  induction reads with
  | lastBranch _ ends branch =>
    intro room rounds begun fits enough
    exact (branch room fits).last (.loop_end (beq_eq_false_iff_ne.mpr ends))
  | @nextBranch tokens after rest value values bar reads _ branch later =>
    intro room rounds begun fits enough
    have fewer : after.length + 1 < tokens.length := reads.takes.fits
    rw [listUnfolds_cons, denoteList_cons, ← List.append_assoc]
    refine (branch room fits).bind (.loop_on rfl (by omega) ?_)
    rw [nextProduction, bind_assoc]
    refine (Follows.skip [_]).bind ?_
    simp only [bind_assoc, pure_bind]
    exact later room (rounds - 1) _ (by omega) (by omega)
  | @sequence front tokens rest label values opened bare filled reads pieces =>
    intro room fits
    have shorter := length_le_append front tokens
    refine .within fun inside => ?_
    have written : (Piece.denoteList pass.unfold values).isEmpty = false := by
      cases reads <;> rfl
    have body := pieces room pass.tokens.length [] (by omega) (by omega)
    rw [Branch.listUnfolds, Branch.denoteList]
    refine (Follows.label opened bare).bind (body.bind ?_)
    rw [List.nil_append, written, Branch.denoteList, List.append_nil]
    exact .pure _
  | lastPiece reads ends piece =>
    intro room rounds begun fits enough
    have filled := (Reads.lastPiece reads ends).endsBranch_eq
    have fewer := reads.takes.fits
    refine .loop_on (by rw [goesOn_firstToken, filled]; rfl) (by omega) ?_
    rw [nextItem, bind_assoc]
    simp only [pure_bind]
    exact (piece room fits).bind (.loop_end (by rw [goesOn_firstToken, ends]; rfl))
  | @nextPiece tokens between rest value values reads goesOn readsLater piece later =>
    intro room rounds begun fits enough
    have filled := (Reads.nextPiece reads goesOn readsLater).endsBranch_eq
    have fewer : between.length < tokens.length := reads.takes.fits
    refine .loop_on (by rw [goesOn_firstToken, filled]; rfl) (by omega) ?_
    rw [nextItem, bind_assoc]
    simp only [pure_bind]
    rw [Piece.listUnfolds, Piece.denoteList, List.append_cons]
    exact (piece room fits).bind (later room (rounds - 1) _ (by omega) (by omega))
  | @plain front tokens between rest junction value values joined first others term choices =>
    intro room fits
    have shorter := length_le_append front tokens
    have fewer : between.length < tokens.length := first.takes.fits
    have single := term room (by omega)
    refine .within fun inside => ?_
    have later := choices room pass.tokens.length [value.denote pass.unfold] (by omega) (by omega)
    cases others with
    | noOther ends =>
      have alone : (Piece.plain junction value []).unfolds = value.unfolds := List.append_nil _
      rw [alone]
      exact .item_plain joined (first.firstToken_ne rfl) (first.firstToken_ne rfl)
        (.atom_single single ends)
    | nextOther term others =>
      exact .item_plain joined (first.firstToken_ne rfl) (first.firstToken_ne rfl)
        (.atom_positional single later)
  | @unfolded front tokens rest junction value piece sign joined reads made term =>
    intro room fits
    have shorter := length_le_append front (⟨.unfold, sign⟩ :: tokens)
    rw [List.length_cons] at shorter
    have filled : tokens ≠ [] := by
      rintro rfl
      exact absurd reads.takes.fits (Nat.not_lt_zero _)
    obtain ⟨others, same, spliced⟩ := Follows.exists_splice filled made
    rw [← same]
    exact .item_unfolded joined (term room (by omega)) spliced
  | noOther ends =>
    intro room rounds begun fits enough
    rw [Term.denoteList, List.append_nil]
    exact .loop_end (beq_eq_false_iff_ne.mpr ends)
  | @nextOther tokens between rest value values comma reads _ term later =>
    intro room rounds begun fits enough
    have fewer : between.length < tokens.length := reads.takes.fits
    rw [List.length_cons] at fits enough
    rw [Term.listUnfolds, Term.denoteList, List.append_cons]
    refine .loop_on rfl (by omega) ?_
    rw [nextChoice, bind_assoc]
    refine (Follows.skip [_]).bind ?_
    simp only [bind_assoc, pure_bind]
    exact (term room (by omega)).bind (later room (rounds - 1) _ (by omega) (by omega))
  | word chained =>
    intro room fits
    rw [unfolds_ofWord, denote_ofWord]
    exact .unit ((Follows.chain chained).bind (.pure _))
  | quoted chained =>
    intro room fits
    exact .unit ((Follows.chain chained).bind (.pure _))
  | enclosed encloses _ chained branches =>
    intro room fits
    have nested := follows_productions branches fits
    cases encloses with
    | parentheses =>
      have whole : pass.Follows (pass.unitFrom (pass.productions room) .openParen) _ _ _ _ :=
        .group [] nested chained
      rw [List.append_nil] at whole
      exact .unit whole
    | brackets => exact .unit (.group [.nothing] nested chained)

end Phrases

end GrammarText

end SentenceGrammar
