import SentenceGrammar.Proofs.GrammarText.Placement
import SentenceGrammar.Proofs.GrammarText.Tiles

/-! The layouts of a grammar text. A chain stands directly behind the token that it belongs to, and
any other token behind a blank, around which there may be more blanks and comments. Whatever the
layout, the tokens are recovered, so it makes no difference to the grammar. -/

namespace SentenceGrammar

open Character

namespace Token

inductive Gap : List Char → Prop where
  | nil : Gap []
  | blank {c : Char} {rest : List Char} (blank : isBlank c = true) (after : Gap rest) :
    Gap (c :: rest)
  | comment {body rest : List Char} (whole : CommentBody body) (after : Gap rest) :
    Gap ('(' :: '*' :: (body ++ rest))

def Separates (text : List Char) : Prop :=
  ∃ c gap, text = c :: gap ∧ isBlank c = true ∧ Gap gap

/-- The ways to write a token. In a quotation any character may have a backslash. A chain is written
as it is, and every parenthesis in it is closed. -/
inductive Written : Token → List Char → Prop where
  | word {text : String} (word : IsWord text) : Written (.word text) text.toList
  | quoted {body text : List Char} (quotes : Quotes body text) :
    Written (.quoted (String.ofList text)) ('\"' :: (body ++ ['\"']))
  | chain {links : List Link} (nonempty : links ≠ []) (whole : Link.ListEndsBefore [] links)
    (closed : ∀ body, .unclosed body ∉ links) :
    Written (.chain (String.ofList (links.flatMap Link.text))) (links.flatMap Link.text)
  | mark {token : Token} (fixed : token.isMark = true) : Written token token.spelling

/-- What may stand between a token and the tokens behind it. -/
inductive Joins (token : Token) : List Token → List Char → Prop where
  | last : Joins token [] []
  | trailing {between : List Char} (separates : Separates between) : Joins token [] between
  | chained {text : String} {later : List Token} (single : token.isChain = false) :
    Joins token (.chain text :: later) []
  | apart {next : Token} {later : List Token} {between : List Char} (other : next.isChain = false)
    (separates : Separates between) : Joins token (next :: later) between

/-- The texts that tokens may be laid out as, from the first token on. -/
inductive LaidOut : List Token → List Char → Prop where
  | nil : LaidOut [] []
  | cons {token : Token} {later : List Token} {span between rest : List Char}
    (written : Written token span) (joins : token.Joins later between)
    (after : LaidOut later rest) : LaidOut (token :: later) (span ++ (between ++ rest))

section Spans

variable {behind : List Char}

theorem Link.EndsBefore.append {link : Link} {passage : List Char} (ends : link.EndsBefore passage)
    (closed : ∀ body, link ≠ .unclosed body) (blank : ∀ c ∈ behind.head?, isBlank c = true) :
    link.EndsBefore (passage ++ behind) := by
  have next : ∀ c ∈ (passage ++ behind).head?, c ∈ passage.head? ∨ isBlank c = true := by
    intro c begins
    cases passage with
    | nil => exact .inr (blank c begins)
    | cons first rest => exact .inl begins
  cases link with
  | dot =>
    intro c begins
    rcases next c begins with inside | blank
    · exact ends c inside
    · exact ⟨ne_of_kind blank (by decide), isLabelChar_eq_false_of_isBlank blank⟩
  | label name =>
    obtain ⟨nonempty, labelled, ends⟩ := ends
    refine ⟨nonempty, labelled, fun c begins => ?_⟩
    rcases next c begins with inside | blank
    · exact ends c inside
    · exact isLabelChar_eq_false_of_isBlank blank
  | closed body => exact ends
  | unclosed body => exact absurd rfl (closed body)

theorem Link.ListEndsBefore.before_blank {links : List Link} (whole : Link.ListEndsBefore [] links)
    (closed : ∀ body, .unclosed body ∉ links) (blank : ∀ c ∈ behind.head?, isBlank c = true) :
    Link.ListEndsBefore behind links := by
  induction links with
  | nil => exact fun c begins => ne_of_kind (blank c begins) (by decide)
  | cons link later ih =>
    obtain ⟨here, others⟩ := whole
    rw [List.append_nil] at here
    refine ⟨here.append ?_ blank, ih others fun body member => ?_⟩
    · rintro body rfl
      exact closed body List.mem_cons_self
    · exact closed body (List.mem_cons_of_mem _ member)

theorem Written.spans {token : Token} {span : List Char} (written : Written token span)
    (ends : token.EndsBefore behind) : Spans token span behind := by
  cases written with
  | word word =>
    have spans := Spans.word word.1 word.2 ends.notWord
    rwa [String.ofList_toList] at spans
  | quoted quotes => exact .quoted quotes
  | chain nonempty whole closed =>
    refine .chain nonempty (whole.before_blank closed fun c begins => ?_)
    exact (ends c begins).resolve_right nofun
  | mark fixed =>
    exact .mark fixed (fun _ => ends.notDefine) fun _ => ends.head_ne (by decide) (by decide)

end Spans

section Cuts

variable {rest : List Char} {later : List Token}

theorem Cuts.of_spans {token : Token} {span : List Char} (spans : Spans token span rest)
    (after : Cuts rest later) : Cuts (span ++ rest) (token :: later) := by
  obtain ⟨c, others, rfl, recognised⟩ := spans.front_eq
  exact after.of_front recognised

theorem Cuts.comment {body : List Char} (whole : CommentBody body) (after : Cuts rest later) :
    Cuts ('(' :: '*' :: (body ++ rest)) later := by
  intro position
  have fits : (Tile.comment body).Fits rest := whole
  obtain ⟨c, others, same, recognised⟩ := fits.front_eq
  obtain ⟨rfl, rfl⟩ := List.cons.inj same
  obtain ⟨placed, cut, spelled⟩ :=
    after (('*' :: body).foldl Position.after (position.after '('))
  refine ⟨placed, ?_, spelled⟩
  have skipped := scan_length_append (position.after '(') ('*' :: body) rest
  rw [scan, ← List.cons_append, recognised, ← cut, ← skipped]
  rfl

theorem Cuts.gap {gap : List Char} (blank : Gap gap) (after : Cuts rest later) :
    Cuts (gap ++ rest) later := by
  induction blank with
  | nil => exact after
  | @blank c others visible _ ih =>
    have single : ∀ other ∈ [c], isBlank other = true := List.forall_mem_singleton.mpr visible
    rw [List.cons_append, ← List.singleton_append]
    exact ih.blanks single
  | comment whole _ ih =>
    rw [List.cons_append, List.cons_append, List.append_assoc]
    exact ih.comment whole

end Cuts

section Joins

variable {token : Token} {later : List Token} {between rest : List Char}

theorem Separates.isGap (separates : Separates between) : Gap between := by
  obtain ⟨c, gap, rfl, blank, rest⟩ := separates
  exact .blank blank rest

theorem Joins.isGap (joins : token.Joins later between) : Gap between := by
  cases joins with
  | last | chained => exact .nil
  | trailing separates | apart _ separates => exact separates.isGap

theorem LaidOut.head_chain {text : String} (laidOut : LaidOut (.chain text :: later) rest) :
    ∃ others, rest = '.' :: others := by
  cases laidOut with
  | cons written =>
    cases written with
    | chain nonempty =>
      obtain ⟨others, same⟩ := Link.exists_dot nonempty
      exact ⟨_, by rw [same, List.cons_append]⟩
    | mark fixed => cases fixed

theorem Joins.endsBefore (joins : token.Joins later between) (after : LaidOut later rest) :
    token.EndsBefore (between ++ rest) := by
  have separated : Separates between → token.EndsBefore (between ++ rest) := by
    rintro ⟨c, gap, rfl, blank, _⟩ _ ⟨⟩
    exact .inl blank
  cases joins with
  | last =>
    cases after
    exact nofun
  | trailing separates | apart _ separates => exact separated separates
  | chained single =>
    obtain ⟨others, rfl⟩ := after.head_chain
    rintro _ ⟨⟩
    exact .inr ⟨rfl, single⟩

end Joins

/-- Tokens are cut out of every text that they are laid out as. -/
theorem LaidOut.cuts {tokens : List Token} {text : List Char} (laidOut : LaidOut tokens text) :
    Cuts text tokens := by
  induction laidOut with
  | nil => exact cuts_nil
  | cons written joins after ih =>
    exact (ih.gap joins.isGap).of_spans (written.spans (joins.endsBefore after))

theorem LaidOut.exists_tokenize {tokens : List Token} {gap body : List Char} {text : String}
    (blank : Gap gap) (laidOut : LaidOut tokens body) (same : text.toList = gap ++ body) :
    ∃ placed, tokenize text = .ok placed ∧ placed.map PlacedToken.token = tokens := by
  rw [tokenize, same]
  exact laidOut.cuts.gap blank .first

end Token

/-- A text lays out tokens, behind a gap that there may be at its beginning. -/
def Token.LaysOut (tokens : List Token) (text : String) : Prop :=
  ∃ gap body, text.toList = gap ++ body ∧ Gap gap ∧ LaidOut tokens body

/-- Two texts that lay out the same tokens make the same grammar, or the same fault is reported,
only at another place. -/
theorem Grammar.ofText_relaid {tokens : List Token} {first second : String}
    (laysOut : Token.LaysOut tokens first) (laysOutToo : Token.LaysOut tokens second)
    (start : Symbol) :
    (ofText first start).mapError GrammarTextFault.unplaced =
      (ofText second start).mapError GrammarTextFault.unplaced := by
  obtain ⟨gap, body, same, blank, laidOut⟩ := laysOut
  obtain ⟨gapToo, bodyToo, sameToo, blankToo, laidOutToo⟩ := laysOutToo
  obtain ⟨placed, cut, spelled⟩ := laidOut.exists_tokenize blank same
  obtain ⟨placedToo, cutToo, spelledToo⟩ := laidOutToo.exists_tokenize blankToo sameToo
  rw [ofText_eq_ofTokens start cut, ofText_eq_ofTokens start cutToo]
  exact congrArg GrammarReading.result
    (GrammarReading.unplaced_eq (spelled.trans spelledToo.symm) start)

/-- The tokens of a definition with a chain in it and without its end. -/
def Token.unended : List Token :=
  [.word "S", .define, .word "A", .chain ".x"]

theorem Token.written_unended : Written (.word "S") ['S'] ∧ Written .define [':', ':', '='] ∧
    Written (.word "A") ['A'] ∧ Written (.chain ".x") ['.', 'x'] := by
  refine ⟨.word (by decide), .mark rfl, .word (by decide), ?_⟩
  have whole : Link.ListEndsBefore [] [.label ['x']] :=
    ⟨⟨List.cons_ne_nil _ _, List.forall_mem_singleton.mpr (by decide), nofun⟩, nofun⟩
  exact .chain (List.cons_ne_nil _ _) whole (by simp)

theorem Token.laysOut_unended :
    LaysOut unended "S ::= A.x" ∧ LaysOut unended "(* *)\nS\t(**)\n::= A.x " := by
  obtain ⟨symbol, define, name, chain⟩ := written_unended
  have space : Separates [' '] := ⟨' ', [], rfl, rfl, .nil⟩
  have comment : Gap ('(' :: '*' :: ([' ', '*', ')'] ++ ['\n'])) :=
    .comment (.plain nofun nofun .closing) (.blank rfl .nil)
  have empty : Separates ('\t' :: '(' :: '*' :: (['*', ')'] ++ ['\n'])) :=
    ⟨_, _, rfl, rfl, .comment .closing (.blank rfl .nil)⟩
  have close : LaidOut (unended.drop 2) "A.x".toList :=
    .cons name (.chained rfl) (.cons chain .last .nil)
  have wide : LaidOut (unended.drop 2) "A.x ".toList :=
    .cons name (.chained rfl) (.cons chain (.trailing space) .nil)
  constructor
  · exact ⟨[], _, rfl, .nil,
      .cons symbol (.apart rfl space) (.cons define (.apart rfl space) close)⟩
  · exact ⟨_, _, rfl, comment,
      .cons symbol (.apart rfl empty) (.cons define (.apart rfl space) wide)⟩

theorem Grammar.ofText_relaid_unended :
    Token.LaysOut Token.unended "S ::= A.x" ∧
      Token.LaysOut Token.unended "(* *)\nS\t(**)\n::= A.x " ∧
      (ofText "S ::= A.x" ⟨"S"⟩).mapError GrammarTextFault.unplaced =
        (ofText "(* *)\nS\t(**)\n::= A.x " ⟨"S"⟩).mapError GrammarTextFault.unplaced :=
  ⟨Token.laysOut_unended.1, Token.laysOut_unended.2,
    ofText_relaid Token.laysOut_unended.1 Token.laysOut_unended.2 ⟨"S"⟩⟩

end SentenceGrammar
