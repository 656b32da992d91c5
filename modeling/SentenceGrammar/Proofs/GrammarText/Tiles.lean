import SentenceGrammar.Proofs.GrammarText.Comments
import SentenceGrammar.Proofs.GrammarText.Cutting
import SentenceGrammar.Proofs.GrammarText.Links

/-! The stretches that a text is made up of: blanks, comments and the spans of tokens. Each of them
is recognised at the front of a text, and where none of them is at the front, the text halts. -/

namespace SentenceGrammar

open Character

namespace Position

/-- The place behind some text: on the line after its line feeds, and in the column after the
characters since the last of them. -/
def behind (before : List Char) : Position :=
  ⟨before.count '\n' + 1, (before.reverse.takeWhile (· ≠ '\n')).length + 1⟩

theorem behind_nil : behind [] = first :=
  rfl

theorem behind_concat (before : List Char) (c : Char) :
    behind (before ++ [c]) = (behind before).after c := by
  unfold behind after
  split
  · rename_i feed
    simp [feed]
  · rename_i plain
    simp [plain]

theorem behind_append (before text : List Char) :
    behind (before ++ text) = text.foldl after (behind before) := by
  induction text generalizing before with
  | nil => rw [List.append_nil, List.foldl_nil]
  | cons c rest ih =>
    rw [List.foldl_cons, ← behind_concat, ← ih, List.append_assoc, List.singleton_append]

end Position

namespace Token

/-- What stands between the quotes of a quotation, and the text that it stands for. -/
inductive Quotes : List Char → List Char → Prop where
  | nil : Quotes [] []
  | plain {c : Char} {body text : List Char} (notQuote : c ≠ '\"') (notBackslash : c ≠ '\\')
    (after : Quotes body text) : Quotes (c :: body) (c :: text)
  | escaped {c : Char} {body text : List Char} (after : Quotes body text) :
    Quotes ('\\' :: c :: body) (c :: text)

theorem quotation_eq_some_iff {rest text : List Char} {length : Nat} :
    quotation rest = some (text, length) ↔
      ∃ body behind, rest = body ++ '\"' :: behind ∧ Quotes body text ∧
        body.length + 1 = length := by
  constructor
  · intro read
    fun_induction quotation rest generalizing text length with
    | case1 => cases read
    | case2 rest =>
      cases read
      exact ⟨[], rest, rfl, .nil, rfl⟩
    | case3 => cases read
    | case4 escaped rest notQuote ih =>
      obtain ⟨⟨inner, passed⟩, inside, made⟩ := Option.map_eq_some_iff.mp read
      cases made
      obtain ⟨body, behind, rfl, quotes, rfl⟩ := ih inside
      exact ⟨'\\' :: escaped :: body, behind, rfl, .escaped quotes, rfl⟩
    | case5 c rest notQuote notEscape ih =>
      obtain ⟨⟨inner, passed⟩, inside, made⟩ := Option.map_eq_some_iff.mp read
      cases made
      obtain ⟨body, behind, rfl, quotes, rfl⟩ := ih inside
      exact ⟨c :: body, behind, rfl, .plain notQuote notEscape quotes, rfl⟩
  · rintro ⟨body, behind, rfl, quotes, rfl⟩
    induction quotes with
    | nil =>
      rw [quotation.eq_def]
      rfl
    | plain notQuote notBackslash after ih =>
      rw [List.cons_append, quotation.eq_def]
      simp [notQuote, notBackslash, ih]
    | escaped after ih =>
      rw [quotation.eq_def]
      simp [ih]

def isMark : Token → Bool
  | word _ | quoted _ | chain _ => false
  | _ => true

/-- A stretch of a text is a token in front of the text behind it. A word goes as far as there are
characters of words, a quotation to its closing quote, and a chain as far as there are links. -/
inductive Spans : Token → List Char → List Char → Prop where
  | word {span behind : List Char} (nonempty : span ≠ [])
    (each : ∀ c ∈ span, isWordChar c = true) (ends : ∀ c ∈ behind.head?, isWordChar c = false) :
    Spans (.word (String.ofList span)) span behind
  | quoted {body text behind : List Char} (quotes : Quotes body text) :
    Spans (.quoted (String.ofList text)) ('\"' :: (body ++ ['\"'])) behind
  | chain {links : List Link} {behind : List Char} (nonempty : links ≠ [])
    (ends : Link.ListEndsBefore behind links) :
    Spans (.chain (String.ofList (links.flatMap Link.text))) (links.flatMap Link.text) behind
  | mark {token : Token} {behind : List Char} (fixed : token.isMark = true)
    (notDefine : token = .colon → behind.take 2 ≠ [':', '='])
    (notComment : token = .openParen → behind.head? ≠ some '*') :
    Spans token token.spelling behind

/-- A stretch of a text: a blank or a comment, which separate tokens, or a token. -/
inductive Tile where
  | blank (c : Char)
  | comment (body : List Char)
  | token (token : Token) (span : List Char)

namespace Tile

def text : Tile → List Char
  | .blank c => [c]
  | .comment body => '(' :: '*' :: body
  | .token _ span => span

def token? : Tile → Option Token
  | .blank _ | .comment _ => none
  | .token found _ => some found

def Fits (behind : List Char) : Tile → Prop
  | .blank c => isBlank c = true
  | .comment body => CommentBody body
  | .token found span => Spans found span behind

def ListFits (behind : List Char) : List Tile → Prop
  | [] => True
  | tile :: later => tile.Fits (later.flatMap text ++ behind) ∧ ListFits behind later

/-- The tokens of some tiles behind the given text, each at the place of its first character. -/
def placed (before : List Char) : List Tile → List PlacedToken
  | [] => []
  | tile :: later =>
    (tile.token?.map (⟨·, .behind before⟩)).toList ++ placed (before ++ tile.text) later

end Tile

section Front

variable {behind : List Char}

theorem front_mark {token : Token} (fixed : token.isMark = true)
    (notDefine : token = .colon → behind.take 2 ≠ [':', '='])
    (notComment : token = .openParen → behind.head? ≠ some '*') :
    ∃ c others, token.spelling = c :: others ∧
      front c (others ++ behind) = .ok ⟨some token, token.spelling.length⟩ := by
  cases token with
  | word | quoted | chain => cases fixed
  | define => exact ⟨':', [':', '='], rfl, rfl⟩
  | colon =>
    exact ⟨':', [], rfl, front_punctuation rfl (by decide) (by decide) (by decide) rfl nofun
      fun _ => notDefine rfl⟩
  | openParen =>
    exact ⟨'(', [], rfl, front_punctuation rfl (by decide) (by decide) (by decide) rfl
      (fun _ => notComment rfl) nofun⟩
  | semicolon | bar | closeParen | openBracket | closeBracket | caret | comma | unfold =>
    exact ⟨_, [], rfl, front_punctuation rfl (by decide) (by decide) (by decide) rfl nofun nofun⟩

theorem Spans.front_eq {token : Token} {span : List Char} (spans : Spans token span behind) :
    ∃ c others, span = c :: others ∧
      front c (others ++ behind) = .ok ⟨some token, span.length⟩ := by
  cases spans with
  | word nonempty each ends =>
    obtain ⟨c, others, rfl⟩ := List.exists_cons_of_ne_nil nonempty
    obtain ⟨first, later⟩ := List.forall_mem_cons.mp each
    exact ⟨c, others, rfl, front_word first later ends⟩
  | @quoted body text _ quotes =>
    have read := quotation_eq_some_iff.mpr ⟨body, behind, rfl, quotes, rfl⟩
    refine ⟨'\"', _, rfl, ?_⟩
    rw [List.append_assoc, List.singleton_append, front_quote, read]
    simp
  | @chain links _ nonempty ends =>
    have scanned := Link.chainLength_flatMap ends
    obtain ⟨others, same⟩ := Link.exists_dot nonempty
    rw [same] at scanned ⊢
    have length : chainLength .afterDot (others ++ behind) = others.length := Nat.succ.inj scanned
    exact ⟨'.', others, rfl, by rw [front_dot, length, List.take_left]; rfl⟩
  | mark fixed notDefine notComment => exact front_mark fixed notDefine notComment

theorem Tile.Fits.front_eq {tile : Tile} (fits : tile.Fits behind) :
    ∃ c others, tile.text = c :: others ∧
      front c (others ++ behind) = .ok ⟨tile.token?, tile.text.length⟩ := by
  cases tile with
  | blank c => exact ⟨c, [], rfl, if_pos fits⟩
  | comment body =>
    have read := commentLength_eq_some_iff.mpr ⟨body, behind, rfl, fits, rfl⟩
    exact ⟨'(', '*' :: body, rfl, by rw [List.cons_append, front_comment, read]; rfl⟩
  | token found span => exact Spans.front_eq fits

theorem spelling_of_punctuation {c : Char} {token : Token} (mark : punctuation c = some token) :
    token.isMark = true ∧ token.spelling = [c] := by
  rw [punctuation] at mark
  iterate 10
    obtain ⟨rfl, same⟩ | ⟨_, mark⟩ := ite_eq_iff.mp mark
    · cases same
      exact ⟨rfl, rfl⟩
  cases mark

end Front

theorem front_unrecognised {c : Char} (visible : isBlank c = false) (notQuote : c ≠ '\"')
    (notDot : c ≠ '.') (notWord : isWordChar c = false) (noMark : punctuation c = none)
    (rest : List Char) : front c rest = .error (.unexpectedCharacter c) := by
  have notOpen : c ≠ '(' := by
    rintro rfl
    cases noMark
  have notColon : c ≠ ':' := by
    rintro rfl
    cases noMark
  simp only [front, visible, notOpen, notColon, notQuote, notDot, notWord, noMark, false_and,
    Bool.false_eq_true, if_false]

/-- A text whose first character begins neither a blank nor a comment nor a token, and what is wrong
there. -/
inductive Halts : List Char → SyntaxFault → Prop where
  | character {c : Char} {rest : List Char}
    (noTile : ∀ (tile : Tile) behind, tile.Fits behind → tile.text.head? ≠ some c) :
    Halts (c :: rest) (.unexpectedCharacter c)
  | comment {rest : List Char}
    (unterminated : ∀ body behind, CommentBody body → rest ≠ body ++ behind) :
    Halts ('(' :: '*' :: rest) .unterminatedComment
  | quotation {rest : List Char}
    (unterminated : ∀ body text behind, Quotes body text → rest ≠ body ++ '\"' :: behind) :
    Halts ('\"' :: rest) .unterminatedQuotation

section Halts

theorem spans_word {c : Char} (word : isWordChar c = true) (rest : List Char) :
    Spans (.word (String.ofList (c :: rest.takeWhile isWordChar)))
      (c :: rest.takeWhile isWordChar) (rest.dropWhile isWordChar) := by
  refine .word (List.cons_ne_nil _ _) ?_ fun next begins => ?_
  · exact List.forall_mem_cons.mpr ⟨word, List.all_eq_true.mp List.all_takeWhile⟩
  · have stops := List.head?_dropWhile_not isWordChar rest
    rwa [begins] at stops

theorem spans_chain (rest : List Char) :
    Spans (.chain (String.ofList ('.' :: rest.take (chainLength .afterDot rest))))
      ('.' :: rest.take (chainLength .afterDot rest)) (rest.drop (chainLength .afterDot rest)) := by
  obtain ⟨links, same, ends⟩ := Link.linked_chain rest
  have nonempty : links ≠ [] := by
    rintro rfl
    cases same
  rw [same]
  exact .chain nonempty ends

def Begins (text : List Char) : Prop :=
  ∃ tile behind, text = Tile.text tile ++ behind ∧ tile.Fits behind

def Stops (c : Char) (rest : List Char) : Prop :=
  ∃ why, Halts (c :: rest) why ∧ front c rest = .error why

theorem comment_begins_or_stops (rest : List Char) :
    Begins ('(' :: '*' :: rest) ∨ Stops '(' ('*' :: rest) := by
  cases measured : commentLength 0 rest with
  | some length =>
    obtain ⟨body, behind, rfl, whole, _⟩ := commentLength_eq_some_iff.mp measured
    exact .inl ⟨.comment body, behind, rfl, whole⟩
  | none =>
    refine .inr ⟨_, .comment fun body behind whole same => ?_, by rw [front_comment, measured]⟩
    rw [commentLength_eq_some_iff.mpr ⟨body, behind, same, whole, rfl⟩] at measured
    cases measured

theorem quotation_begins_or_stops (rest : List Char) :
    Begins ('\"' :: rest) ∨ Stops '\"' rest := by
  cases quoted : quotation rest with
  | some content =>
    obtain ⟨text, length⟩ := content
    obtain ⟨body, behind, rfl, quotes, _⟩ := quotation_eq_some_iff.mp quoted
    refine .inl ⟨.token (.quoted (String.ofList text)) ('\"' :: (body ++ ['\"'])), behind, ?_,
      .quoted quotes⟩
    rw [Tile.text, List.cons_append, List.append_assoc, List.singleton_append]
  | none =>
    refine .inr ⟨_, .quotation fun body text behind quotes same => ?_, by rw [front_quote, quoted]⟩
    rw [quotation_eq_some_iff.mpr ⟨body, behind, same, quotes, rfl⟩] at quoted
    cases quoted

theorem begins_or_stops (c : Char) (rest : List Char) : Begins (c :: rest) ∨ Stops c rest := by
  -- The cases are those of `front`, in its order.
  by_cases blank : isBlank c = true
  · exact .inl ⟨.blank c, rest, rfl, blank⟩
  by_cases comment : c = '(' ∧ rest.head? = some '*'
  · obtain ⟨rfl, star⟩ := comment
    obtain _ | ⟨_, rest⟩ := rest <;> cases star
    exact comment_begins_or_stops rest
  by_cases define : c = ':' ∧ rest.take 2 = [':', '=']
  · obtain ⟨rfl, next⟩ := define
    refine .inl ⟨.token .define [':', ':', '='], rest.drop 2, ?_, .mark rfl nofun nofun⟩
    rw [Tile.text, List.cons_append, ← next, List.take_append_drop]
  by_cases quote : c = '\"'
  · subst quote
    exact quotation_begins_or_stops rest
  by_cases dot : c = '.'
  · subst dot
    refine .inl ⟨.token _ _, _, ?_, spans_chain rest⟩
    rw [Tile.text, List.cons_append, List.take_append_drop]
  by_cases word : isWordChar c = true
  · refine .inl ⟨.token _ _, _, ?_, spans_word word rest⟩
    rw [Tile.text, List.cons_append, List.takeWhile_append_dropWhile]
  cases mark : punctuation c with
  | some token =>
    obtain ⟨fixed, spelled⟩ := spelling_of_punctuation mark
    refine .inl ⟨.token token [c], rest, rfl, ?_⟩
    rw [Tile.Fits, ← spelled]
    refine .mark fixed ?_ ?_
    · rintro rfl taken
      cases spelled
      exact define ⟨rfl, taken⟩
    · rintro rfl star
      cases spelled
      exact comment ⟨rfl, star⟩
  | none =>
    -- The fault does not depend on the rest of the text, so no tile at all begins like that.
    have unread := front_unrecognised (by simpa using blank) quote dot (by simpa using word) mark
    refine .inr ⟨_, .character fun tile behind fits begins => ?_, unread rest⟩
    obtain ⟨_, others, same, recognised⟩ := fits.front_eq
    rw [same] at begins
    cases begins
    cases (unread _).symm.trans recognised

theorem front_of_halts {c : Char} {rest : List Char} {why : SyntaxFault}
    (halts : Halts (c :: rest) why) : front c rest = .error why := by
  cases halts with
  | character noTile =>
    rcases begins_or_stops c rest with ⟨tile, behind, same, fits⟩ | ⟨other, stuck, read⟩
    · obtain ⟨d, others, text, _⟩ := fits.front_eq
      rw [text] at same
      cases same
      exact absurd (congrArg List.head? text) (noTile tile _ fits)
    cases stuck with
    | character => exact read
    | comment =>
      have opens : (Tile.token .openParen ['(']).Fits [] := .mark rfl nofun nofun
      exact absurd rfl (noTile _ _ opens)
    | quotation =>
      have quoted : (Tile.token (.quoted "") ['\"', '\"']).Fits [] := .quoted .nil
      exact absurd rfl (noTile _ _ quoted)
  | @comment rest unterminated =>
    rw [front_comment]
    cases measured : commentLength 0 rest with
    | none => rfl
    | some length =>
      obtain ⟨body, behind, same, whole, _⟩ := commentLength_eq_some_iff.mp measured
      exact absurd same (unterminated body behind whole)
  | quotation unterminated =>
    rw [front_quote]
    cases quoted : quotation rest with
    | none => rfl
    | some content =>
      obtain ⟨text, length⟩ := content
      obtain ⟨body, behind, same, quotes, _⟩ := quotation_eq_some_iff.mp quoted
      exact absurd same (unterminated body text behind quotes)

end Halts

end Token

end SentenceGrammar
