import SentenceGrammar.Proofs.GrammarText.Passes

/-! Where reading a phrase fails, the first pass with a cursor does, for the same reason and at the
same place. There is nothing that it could miss, so it comes as far as reading does. -/

namespace SentenceGrammar

open Character

namespace GrammarText

variable {α β : Type}

namespace Pass

def Stops (pass : Pass) (action : Parsing α) (tokens : List PlacedToken) (fault : ReadingFault) :
    Prop :=
  ∀ place deferred, pass.tokens.drop place = tokens →
    action ⟨place, deferred⟩ = .error (.fault (fault.locate pass.tokens))

variable {pass : Pass} {tokens between rest : List PlacedToken}
  {unfolds others : List (Symbol × Position)}

theorem find_misses_eq_none (folds : pass.symbols = none) (unfolds : List (Symbol × Position)) :
    unfolds.find? pass.misses = none := by
  rw [List.find?_eq_none]
  intro sign _
  rw [misses, folds]
  exact Bool.false_ne_true

theorem Follows.stops {first : Parsing α} {next : α → Parsing β} {value : α} {fault : ReadingFault}
    (here : pass.Follows first tokens unfolds value between) (folds : pass.symbols = none)
    (later : pass.Stops (next value) between fault) : pass.Stops (first >>= next) tokens fault := by
  intro place deferred left
  have taken := here place deferred left
  rw [find_misses_eq_none folds] at taken
  obtain ⟨further, leaves, made⟩ := taken
  rw [bind_parsing, made]
  exact later further _ leaves

namespace Stops

variable {fault : ReadingFault}

theorem bind {first : Parsing α} {next : α → Parsing β} (stops : pass.Stops first tokens fault) :
    pass.Stops (first >>= next) tokens fault := by
  intro place deferred left
  rw [bind_parsing, stops place deferred left]

theorem get {next : Cursor → Parsing α}
    (later : ∀ start : Cursor, pass.tokens.drop start.position = tokens →
      pass.Stops (next start) tokens fault) :
    pass.Stops (MonadState.get >>= next) tokens fault :=
  fun place deferred left => later ⟨place, deferred⟩ left place deferred left

theorem peek {next : Option Token → Parsing α}
    (later : pass.Stops (next (firstToken tokens)) tokens fault) :
    pass.Stops (pass.peek >>= next) tokens fault := by
  intro place deferred left
  rw [bind_peek, tokenAt_eq left]
  exact later place deferred left

theorem within {action : Parsing α}
    (stops : tokens.length ≤ pass.tokens.length → pass.Stops action tokens fault) :
    pass.Stops action tokens fault :=
  fun place deferred left => stops (length_le left) place deferred left

theorem reportAt (filled : pass.tokens ≠ []) {index : Nat}
    (left : pass.tokens.drop index = tokens) (why : SyntaxFault) :
    pass.Stops (pass.reportAt index why : Parsing α) rest (.syntaxBefore tokens why) :=
  fun _ _ _ => reportAt_eq filled left why _

theorem report (filled : pass.tokens ≠ []) (why : SyntaxFault) :
    pass.Stops (pass.report why : Parsing α) tokens (.syntaxBefore tokens why) :=
  get fun _ left => reportAt filled left why

theorem expect (filled : pass.tokens ≠ []) {wanted : Token}
    (absent : firstToken tokens ≠ some wanted) :
    pass.Stops (pass.expect wanted) tokens
      (.syntaxBefore tokens (.expectedToken wanted (firstToken tokens))) := by
  refine peek ?_
  rw [if_neg absent]
  exact report filled _

theorem chain (failed : readChain tokens = .error fault) : pass.Stops pass.chain tokens fault := by
  obtain ⟨text, malformed, first, read, rfl⟩ := readChain_eq_error.mp failed
  refine peek ?_
  simp only [first, read]
  exact fun _ _ _ => rfl

theorem loop_on {goesOn : Option Token → Bool} {round : α → Parsing α} {rounds : Nat} {value : α}
    (on : goesOn (firstToken tokens) = true) (enough : 0 < rounds)
    (later : pass.Stops (round value >>= pass.loop goesOn round (rounds - 1)) tokens fault) :
    pass.Stops (pass.loop goesOn round rounds value) tokens fault := by
  intro place deferred left
  rw [loop_eq left on enough]
  exact later place deferred left

section Levels

variable {inner : Parsing (List Alternative)}

theorem unit {token : PlacedToken}
    (later : pass.Stops (pass.unitFrom inner token.token) rest fault) :
    pass.Stops (pass.unit inner) (token :: rest) fault := by
  intro place deferred left
  rw [unit_eq left]
  exact later _ deferred (drop_succ left)

theorem no_unit (filled : pass.tokens ≠ [])
    (absent : ∀ token ∈ firstToken tokens, token.opensTerm = false) :
    pass.Stops (pass.unit inner) tokens
      (.syntaxBefore tokens (.expectedAtom (firstToken tokens))) := by
  intro place deferred left
  cases tokens with
  | nil =>
    have finished : pass.advance ⟨place, deferred⟩ = .ok (none, ⟨place, deferred⟩) := by
      rw [advance, bind_peek, tokenAt_eq left]
      rfl
    rw [Pass.unit, bind_parsing, finished]
    exact report filled _ place deferred left
  | cons token later =>
    rw [unit_eq left]
    have other : token.token.opensTerm = false := absent token.token rfl
    obtain ⟨token, position⟩ := token
    cases token with
    | word | quoted | openParen | openBracket => cases other
    | _ => exact reportAt_eq filled left _ _

theorem item_plain {front : List PlacedToken} {junction : Junction} (folds : pass.symbols = none)
    (joined : front.map PlacedToken.token = junctionTokens junction)
    (bare : junction = .space → firstToken tokens ≠ some .caret)
    (folded : firstToken tokens ≠ some .unfold)
    (stops : pass.Stops (pass.atom inner) tokens fault) :
    pass.Stops (pass.item inner) (front ++ tokens) fault := by
  refine (Follows.junction joined bare).stops folds (peek ?_)
  rw [if_neg folded]
  exact stops.bind

theorem item_unfolded {front : List PlacedToken} {junction : Junction} {sign : Position}
    (folds : pass.symbols = none)
    (joined : front.map PlacedToken.token = junctionTokens junction)
    (stops : ∀ index, pass.tokens.drop index = tokens → pass.Stops
      (do
        let atom ← pass.unit inner
        pass.splice junction index atom) tokens fault) :
    pass.Stops (pass.item inner) (front ++ ⟨.unfold, sign⟩ :: tokens) fault := by
  refine (Follows.junction joined fun _ => firstToken_unfold_ne_caret).stops folds (peek ?_)
  rw [if_pos (show firstToken _ = some Token.unfold from rfl)]
  exact (Follows.skip [_]).stops folds (get fun start left => stops start.position left)

end Levels

theorem splice (filled : pass.tokens ≠ []) {junction : Junction} {value : Term} {why : SyntaxFault}
    {index : Nat} (left : pass.tokens.drop index = tokens) (wrong : unfoldFault value = some why) :
    pass.Stops (pass.splice junction index (value.denote pass.unfold)) rest
      (.syntaxBefore tokens why) := by
  rcases value with _ | ⟨_, _ | _⟩ | ⟨_, _ | _⟩ | ⟨_, _ | _⟩ | _
  all_goals cases wrong
  all_goals exact reportAt filled left _

end Stops

end Pass

theorem length_pos_of_endsBranch {tokens : List PlacedToken} (on : endsBranch tokens = false) :
    0 < tokens.length := by
  cases tokens with
  | nil => cases on
  | cons => exact Nat.succ_pos _

def Category.Halts (pass : Pass) : Category → List PlacedToken → ReadingFault → Prop
  | .branches, tokens, fault => ∀ room rounds begun, tokens.length ≤ room →
    tokens.length ≤ rounds → pass.Stops
      (do
        let first ← pass.production (pass.productions room)
        pass.loop (· == some .bar) (pass.nextProduction (pass.productions room)) rounds
          (begun ++ first))
      tokens fault
  | .branch, tokens, fault => ∀ room, tokens.length ≤ room →
    pass.Stops (pass.production (pass.productions room)) tokens fault
  | .pieces, tokens, fault => ∀ room rounds begun, tokens.length ≤ room →
    tokens.length ≤ rounds → endsBranch tokens = false → pass.Stops
      (pass.loop Pass.goesOn (pass.nextItem (pass.productions room)) rounds begun) tokens fault
  | .piece, tokens, fault => ∀ room, tokens.length ≤ room →
    pass.Stops (pass.item (pass.productions room)) tokens fault
  | .others, tokens, fault => ∀ room rounds begun, tokens.length ≤ room →
    tokens.length ≤ rounds → pass.Stops
      (pass.loop (· == some .comma) (pass.nextChoice (pass.productions room)) rounds begun) tokens
      fault
  | .term, tokens, fault => ∀ room, tokens.length ≤ room →
    pass.Stops (pass.unit (pass.productions room)) tokens fault

section Faults

variable {pass : Pass} {tokens : List PlacedToken} {fault : ReadingFault}

open Pass

theorem stops_productions (halts : Category.branches.Halts pass tokens fault) {room : Nat}
    (fits : tokens.length < room) : pass.Stops (pass.productions room) tokens fault := by
  obtain ⟨room, rfl⟩ := Nat.exists_eq_add_one.mpr (Nat.zero_lt_of_lt fits)
  exact .within fun inside => halts room pass.tokens.length [] (Nat.le_of_lt_succ fits) inside

/-- Every fault that is read is that of the first pass. -/
theorem Fails.halts {category : Category} (fails : Fails category tokens fault)
    (folds : pass.symbols = none) (filled : pass.tokens ≠ []) :
    category.Halts pass tokens fault := by
  induction fails with
  | firstBranch _ branch =>
    intro room rounds begun fits enough
    exact (branch room fits).bind
  | @laterBranch tokens after fault value bar reads _ later =>
    intro room rounds begun fits enough
    have fewer : after.length + 1 < tokens.length := reads.takes.fits
    refine (reads.parses room fits).stops folds (.loop_on rfl (by omega) ?_)
    rw [nextProduction, bind_assoc]
    refine (Follows.skip [_]).stops folds ?_
    simp only [bind_assoc, pure_bind]
    exact later room (rounds - 1) _ (by omega) (by omega)
  | empty opened ends =>
    intro room fits
    refine (Follows.label opened fun _ => beginsWithLabel_of_endsBranch ends).stops folds ?_
    refine (Follows.loop_end (by rw [goesOn_firstToken, ends]; rfl)).stops folds ?_
    exact .report filled _
  | @sequence front tokens fault label opened bare goesOn _ pieces =>
    intro room fits
    have shorter := length_le_append front tokens
    refine .within fun inside => ?_
    refine (Follows.label opened bare).stops folds ?_
    exact (pieces room pass.tokens.length [] (by omega) (by omega) goesOn).bind
  | firstPiece _ piece =>
    intro room rounds begun fits enough on
    have fewer := length_pos_of_endsBranch on
    exact .loop_on (by rw [goesOn_firstToken, on]; rfl) (by omega) (piece room fits).bind.bind
  | @laterPiece tokens between fault value reads goesOn _ later =>
    intro room rounds begun fits enough on
    have fewer : between.length < tokens.length := reads.takes.fits
    refine .loop_on (by rw [goesOn_firstToken, on]; rfl) (by omega) ?_
    rw [nextItem, bind_assoc]
    simp only [pure_bind]
    exact (reads.parses room fits).stops folds
      (later room (rounds - 1) _ (by omega) (by omega) goesOn)
  | @firstTerm front tokens fault junction joined bare folded _ first =>
    intro room fits
    have shorter := length_le_append front tokens
    exact .item_plain folds joined bare folded (first room (by omega)).bind
  | @laterTerm front tokens between fault junction value joined first others later =>
    intro room fits
    have shorter := length_le_append front tokens
    have fewer : between.length < tokens.length := first.takes.fits
    refine .within fun inside => ?_
    refine .item_plain folds joined (fun _ => first.firstToken_ne rfl) (first.firstToken_ne rfl) ?_
    refine (first.parses room (by omega)).stops folds (.peek ?_)
    have comma : firstToken between = some .comma := by
      cases others <;> rfl
    rw [if_pos comma]
    exact (later room pass.tokens.length _ (by omega) (by omega)).bind
  | @unfoldedTerm front tokens fault junction sign joined _ term =>
    intro room fits
    have shorter := length_le_append front (⟨.unfold, sign⟩ :: tokens)
    rw [List.length_cons] at shorter
    exact .item_unfolded folds joined fun index _ => (term room (by omega)).bind
  | @unfolded front tokens rest why junction value sign joined reads wrong =>
    intro room fits
    have shorter := length_le_append front (⟨.unfold, sign⟩ :: tokens)
    rw [List.length_cons] at shorter
    exact .item_unfolded folds joined fun index left =>
      (reads.parses room (by omega)).stops folds (.splice filled left wrong)
  | nextTerm _ term =>
    intro room rounds begun fits enough
    rw [List.length_cons] at fits enough
    refine .loop_on rfl (by omega) ?_
    exact ((Follows.skip [_]).stops folds (term room (by omega)).bind).bind
  | @laterOther tokens between fault value comma reads _ later =>
    intro room rounds begun fits enough
    have fewer : between.length < tokens.length := reads.takes.fits
    rw [List.length_cons] at fits enough
    refine .loop_on rfl (by omega) ?_
    rw [nextChoice, bind_assoc]
    refine (Follows.skip [_]).stops folds ?_
    simp only [bind_assoc, pure_bind]
    exact (reads.parses room (by omega)).stops folds
      (later room (rounds - 1) _ (by omega) (by omega))
  | noTerm absent => exact fun room fits => .no_unit filled absent
  | word chained => exact fun room fits => .unit (Stops.chain chained).bind
  | quoted chained => exact fun room fits => .unit (Stops.chain chained).bind
  | inside encloses _ branches =>
    intro room fits
    have nested := stops_productions branches fits
    cases encloses <;> exact .unit nested.bind
  | unclosed encloses reads absent =>
    intro room fits
    have parses : Category.branches.Parses pass _ _ _ := reads.parses
    have missing := Stops.expect filled absent
    cases encloses <;> exact .unit ((follows_productions parses fits).stops folds missing.bind)
  | enclosed encloses reads chained =>
    intro room fits
    have parses : Category.branches.Parses pass _ _ _ := reads.parses
    have stops : pass.Stops pass.chain _ _ := .chain chained
    cases encloses <;>
    · refine .unit ((follows_productions parses fits).stops folds ?_)
      exact Follows.expect.stops folds stops.bind

end Faults

end GrammarText

end SentenceGrammar
