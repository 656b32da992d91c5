import SentenceGrammar.Proofs.GrammarText.Placement
import SentenceGrammar.Proofs.GrammarText.RoundTrip
import SentenceGrammar.Proofs.GrammarText.Tiling

/-! What a chain belongs to. It belongs to the word, quotation or closing mark that is the last
token ahead of it, even if there are blanks and comments between them: these make no difference. -/

namespace SentenceGrammar

open Character

namespace Token

theorem Attached.exists_last {tokens first later : List Token} {text : String}
    (attached : Attached tokens) (same : tokens = first ++ .chain text :: later) :
    ∃ earlier last, first = earlier ++ [last] ∧ last.endsTerm = true := by
  induction attached generalizing first with
  | nil => exact absurd same.symm (by simp)
  | @plain token behind single after ih =>
    cases first with
    | nil =>
      obtain ⟨rfl, _⟩ := List.cons.inj same
      cases single
    | cons here first =>
      obtain ⟨rfl, rest⟩ := List.cons.inj same
      obtain ⟨earlier, last, rfl, ends⟩ := ih rest
      exact ⟨token :: earlier, last, rfl, ends⟩
  | @chained token chain behind ends after ih =>
    match first with
    | [] =>
      obtain ⟨rfl, _⟩ := List.cons.inj same
      cases ends
    | [here] =>
      obtain ⟨rfl, _⟩ := List.cons.inj same
      exact ⟨[], token, rfl, ends⟩
    | here :: next :: first =>
      obtain ⟨rfl, others⟩ := List.cons.inj same
      obtain ⟨rfl, rest⟩ := List.cons.inj others
      obtain ⟨earlier, last, rfl, ends⟩ := ih rest
      exact ⟨token :: .chain chain :: earlier, last, rfl, ends⟩

theorem Spans.exists_dot {chain : String} {span behind : List Char}
    (spans : Spans (.chain chain) span behind) : ∃ others, span = '.' :: others := by
  cases spans with
  | chain nonempty => exact Link.exists_dot nonempty
  | mark fixed => cases fixed

theorem Spans.before_dot {token : Token} {span behind others : List Char}
    (spans : Spans token span behind) (single : token.isChain = false) :
    Spans token span ('.' :: others) := by
  cases spans with
  | word nonempty each => exact .word nonempty each fun c begins => by cases begins; rfl
  | quoted quotes => exact .quoted quotes
  | chain => cases single
  | mark fixed => exact .mark fixed (fun _ => by simp) fun _ => by simp

namespace Tile

section Gaps

variable {behind first second stretch span : List Char} {tiles earlier gap later : List Tile}
  {last : Token} {chain : String}

/-- Tiles stay what they are if the text behind some text behind them changes, and does not begin
with the end of a definition mark. -/
theorem ListFits.replaced {front : List Char} (fits : ListFits (front ++ first) tiles)
    (nonempty : front ≠ []) (notEqual : second.head? ≠ some '=') :
    ListFits (front ++ second) tiles := by
  induction tiles with
  | nil => trivial
  | cons tile later ih =>
    obtain ⟨here, others⟩ := fits
    refine ⟨?_, ih others⟩
    rw [← List.append_assoc] at here ⊢
    obtain ⟨c, ahead, same⟩ := List.exists_cons_of_ne_nil
      (List.append_ne_nil_of_right_ne_nil (later.flatMap text) nonempty)
    rw [same] at here ⊢
    cases tile with
    | blank | comment => exact here
    | token found span =>
      refine Spans.of_head here (fun _ begins => begins) ?_
      rintro rfl taken
      cases ahead with
      | nil =>
        -- The colon has one character behind it, and then the changed text.
        cases second with
        | nil => cases taken
        | cons next rest =>
          obtain ⟨_, others⟩ := List.cons.inj taken
          exact notEqual (congrArg some (List.cons.inj others).1)
      | cons => exact Spans.notDefine here taken

theorem ListFits.without_gap
    (fits : ListFits behind
      (earlier ++ .token last stretch :: (gap ++ .token (.chain chain) span :: later)))
    (single : last.isChain = false) :
    ListFits behind (earlier ++ .token last stretch :: .token (.chain chain) span :: later) := by
  obtain ⟨ahead, here, rest⟩ := listFits_append.mp fits
  obtain ⟨chained, after⟩ := (listFits_append.mp rest).2
  obtain ⟨others, rfl⟩ := Spans.exists_dot chained
  have nonempty : stretch ≠ [] := Fits.text_ne_nil here
  -- The tiles further ahead have the last token behind them, before and after.
  rw [List.flatMap_cons, List.append_assoc] at ahead
  refine listFits_append.mpr ⟨?_, Spans.before_dot here single, chained, after⟩
  rw [List.flatMap_cons, List.append_assoc]
  exact ahead.replaced nonempty (by simp [text])

theorem filterMap_without_gap (blank : ∀ tile ∈ gap, tile.token? = none) :
    (earlier ++ .token last stretch :: (gap ++ .token (.chain chain) span :: later)).filterMap
        token? =
      (earlier ++ .token last stretch :: .token (.chain chain) span :: later).filterMap token? := by
  have nothing : gap.filterMap token? = [] := List.filterMap_eq_nil_iff.mpr blank
  rw [List.filterMap_append, List.filterMap_append, List.filterMap_cons, List.filterMap_cons,
    List.filterMap_append, nothing, List.nil_append]

theorem map_token_placed (before : List Char) (tiles : List Tile) :
    (placed before tiles).map PlacedToken.token = tiles.filterMap token? := by
  induction tiles generalizing before with
  | nil => rfl
  | cons tile later ih =>
    rw [placed, List.map_append, ih, List.filterMap_cons]
    cases tile.token? <;> rfl

theorem exists_last_token {tokens : List Token} (same : tiles.filterMap token? = tokens ++ [last]) :
    ∃ earlier stretch gap, tiles = earlier ++ .token last stretch :: gap ∧
      ∀ tile ∈ gap, tile.token? = none := by
  obtain ⟨front, back, rfl, _, single⟩ := List.filterMap_eq_append_iff.mp same
  obtain ⟨skipped, tile, gap, rfl, _, found, nothing⟩ := List.filterMap_eq_cons_iff.mp single
  cases tile with
  | blank | comment => cases found
  | token token stretch =>
    cases found
    exact ⟨front ++ skipped, stretch, gap, (List.append_assoc _ _ _).symm,
      List.filterMap_eq_nil_iff.mp nothing⟩

end Gaps

end Tile

end Token

namespace Grammar

open GrammarText Token

variable {text : String}

theorem ofText_eq_of_tiles {second : String} {tiles others : List Tile}
    (covering : Tiles text.toList tiles []) (coveringToo : Tiles second.toList others [])
    (same : tiles.filterMap Tile.token? = others.filterMap Tile.token?) (start : Symbol) :
    (ofText text start).mapError GrammarTextFault.unplaced =
      (ofText second start).mapError GrammarTextFault.unplaced := by
  rw [ofText_eq_ofTokens start covering.tokenize_eq_ok,
    ofText_eq_ofTokens start coveringToo.tokenize_eq_ok]
  refine congrArg GrammarReading.result (GrammarReading.unplaced_eq ?_ start)
  rw [Tile.map_token_placed, Tile.map_token_placed, same]

/-- Wherever there is a chain in a text that makes a grammar, the last token ahead of it ends a
term. Between them there may be blanks and comments, and whatever the text makes, or which fault is
reported, it is the same without them. -/
theorem ofText_chain_apart {ahead later : List Tile} {chain : String} {span : List Char}
    (covering : Tiles text.toList (ahead ++ .token (.chain chain) span :: later) [])
    (start : Symbol) :
    (∀ grammar, ofText text start = .ok grammar →
      ∃ earlier last stretch gap, ahead = earlier ++ .token last stretch :: gap ∧
        last.endsTerm = true ∧ ∀ tile ∈ gap, tile.token? = none) ∧
    ∀ earlier last stretch gap, ahead = earlier ++ .token last stretch :: gap →
      last.isChain = false → (∀ tile ∈ gap, tile.token? = none) →
      (ofText text start).mapError GrammarTextFault.unplaced =
        (ofText (String.ofList ((earlier ++ .token last stretch ::
          .token (.chain chain) span :: later).flatMap Tile.text)) start).mapError
            GrammarTextFault.unplaced := by
  constructor
  · intro grammar made
    obtain ⟨tokens, definitions, cut, accept, _⟩ := exists_accept_of_ofText made
    obtain rfl := Except.ok.inj (cut.symm.trans covering.tokenize_eq_ok)
    have spelled := accept.spelled
    rw [Tile.map_token_placed, List.filterMap_append] at spelled
    obtain ⟨tokens, last, listed, ends⟩ :=
      (DefinitionDerivation.attached_listYield definitions).exists_last spelled.symm
    obtain ⟨earlier, stretch, gap, rfl, blank⟩ := Tile.exists_last_token listed
    exact ⟨earlier, last, stretch, gap, rfl, ends, blank⟩
  · rintro earlier last stretch gap rfl single blank
    rw [List.append_assoc, List.cons_append] at covering
    have closed := (covering.fits.without_gap single).covering
    refine ofText_eq_of_tiles covering ?_ (Tile.filterMap_without_gap blank) start
    rwa [String.toList_ofList]

end Grammar

/-- The tiles of `A ::= x: a | A `, with a blank behind the last name. -/
def Token.Tile.untilBlank : List Tile :=
  [.token (.word "A") ['A'], .blank ' ', .token .define [':', ':', '='], .blank ' ',
    .token (.word "x") ['x'], .token .colon [':'], .blank ' ', .token (.word "a") ['a'],
    .blank ' ', .token .bar ['|'], .blank ' ', .token (.word "A") ['A'], .blank ' ']

theorem Token.Tile.tiles_untilBlank : Tiles "A ::= x: a | A .x;".toList
    (untilBlank ++ [.token (.chain ".x") ['.', 'x'], .token .semicolon [';']]) [] := by
  have word : ∀ c next rest, isWordChar c = true → isWordChar next = false →
      Spans (.word (String.ofList [c])) [c] (next :: rest) := by
    intro c next rest letter ends
    refine .word (List.cons_ne_nil _ _) (List.forall_mem_singleton.mpr letter) ?_
    rintro _ ⟨⟩
    exact ends
  have mark : ∀ token behind, token.isMark = true → token ≠ .openParen →
      (token = .colon → behind.take 2 ≠ [':', '=']) → Spans token token.spelling behind :=
    fun _ _ fixed notOpen notDefine => .mark fixed notDefine fun same => absurd same notOpen
  have link : Link.ListEndsBefore [';'] [.label ['x']] := by
    refine ⟨⟨List.cons_ne_nil _ _, List.forall_mem_singleton.mpr (by decide), ?_⟩, ?_⟩
    · rintro _ ⟨⟩
      decide
    · rintro _ ⟨⟩
      decide
  have chain : Spans (.chain ".x") ['.', 'x'] [';'] := .chain (List.cons_ne_nil _ _) link
  have fits : ListFits []
      (untilBlank ++ [.token (.chain ".x") ['.', 'x'], .token .semicolon [';']]) :=
    ⟨word _ _ _ (by decide) (by decide), rfl, mark _ _ rfl nofun nofun, rfl,
      word _ _ _ (by decide) (by decide), mark _ _ rfl nofun (by decide), rfl,
      word _ _ _ (by decide) (by decide), rfl, mark _ _ rfl nofun nofun, rfl,
      word _ _ _ (by decide) (by decide), rfl, chain, mark _ _ rfl nofun nofun, trivial⟩
  exact fits.covering

def Grammar.narrowed : Grammar :=
  ⟨.insert .empty ⟨"A"⟩ [⟨some ⟨"x"⟩, [.spaced (.terminal "a")]⟩,
      ⟨none, [.spaced (.reference ⟨"A"⟩ [.anyOf [⟨"x"⟩]])]⟩],
    ⟨"A"⟩, by decide⟩

theorem Grammar.ofText_narrowed : ofText "A ::= x: a | A .x;" ⟨"A"⟩ = .ok narrowed := by
  decide +kernel

namespace Grammar

open Token

/-- A chain behind a blank is accepted, and it belongs to the name ahead of the blank. -/
theorem ofText_named_apart :
    Tiles "A ::= x: a | A .x;".toList
        (Tile.untilBlank ++ [.token (.chain ".x") ['.', 'x'], .token .semicolon [';']]) [] ∧
      Tile.untilBlank.getLast? = some (.blank ' ') ∧
      ofText "A ::= x: a | A .x;" ⟨"A"⟩ = .ok narrowed ∧
      narrowed.startAlternatives = [⟨some ⟨"x"⟩, [.spaced (.terminal "a")]⟩,
        ⟨none, [.spaced (.reference ⟨"A"⟩ [.anyOf [⟨"x"⟩]])]⟩] :=
  ⟨Tile.tiles_untilBlank, rfl, ofText_narrowed, rfl⟩

theorem ofText_chain_apart_named :
    (∃ earlier last stretch gap, Tile.untilBlank = earlier ++ .token last stretch :: gap ∧
      last.endsTerm = true ∧ ∀ tile ∈ gap, tile.token? = none) ∧
    (ofText "A ::= x: a | A .x;" ⟨"A"⟩).mapError GrammarTextFault.unplaced =
      (ofText "A ::= x: a | A.x;" ⟨"A"⟩).mapError GrammarTextFault.unplaced := by
  obtain ⟨attached, same⟩ := ofText_chain_apart Tile.tiles_untilBlank ⟨"A"⟩
  refine ⟨attached narrowed ofText_narrowed, ?_⟩
  exact same (Tile.untilBlank.take 11) (.word "A") ['A'] [.blank ' '] rfl rfl
    (List.forall_mem_singleton.mpr rfl)

end Grammar

end SentenceGrammar
