import SentenceGrammar.Proofs.GrammarText.Meaning

/-! Writing tokens so that they are cut out of the text again. Blanks set them apart, except that a
chain stands directly behind the token that it belongs to. -/

namespace SentenceGrammar

open Character

/-- Where a scan for the end of a chain stands while a reader stands at a place. -/
def Chain.Place.scanning : Chain.Place → Token.ChainPlace
  | .betweenElements => .betweenElements
  | .afterDot => .afterDot
  | .inLabel _ => .inLabel
  | .inGroup _ => .inGroup

namespace Token

def isChain : Token → Bool
  | chain _ => true
  | _ => false

/-- A character in quotes. What would end the quotation gets a backslash. -/
def escape (c : Char) : List Char :=
  if c = '\"' ∨ c = '\\' then ['\\', c] else [c]

def spelling : Token → List Char
  | word text => text.toList
  | quoted text => '\"' :: (text.toList.flatMap escape ++ ['\"'])
  | chain text => text.toList
  | define => [':', ':', '=']
  | colon => [':']
  | semicolon => [';']
  | bar => ['|']
  | openParen => ['(']
  | closeParen => [')']
  | openBracket => ['[']
  | closeBracket => [']']
  | caret => ['^']
  | comma => [',']
  | unfold => ['>']

/-- The blanks to write ahead of the tokens that are left, of which there is at least one. -/
structure Layout where
  gap : List Token → List Char
  nonempty : ∀ left, gap left ≠ []
  blank : ∀ left, ∀ c ∈ gap left, isBlank c = true

namespace Layout

def singleSpaces : Layout :=
  ⟨fun _ => [' '], fun _ => List.cons_ne_nil _ _, fun _ => List.forall_mem_singleton.mpr rfl⟩

def ahead (layout : Layout) : List Token → List Char
  | [] => []
  | next :: later => if next.isChain then [] else layout.gap (next :: later)

def spell (layout : Layout) : List Token → List Char
  | [] => []
  | token :: later => token.spelling ++ (layout.ahead later ++ layout.spell later)

end Layout

/-- A text that is cut into the given tokens, wherever it begins. -/
def Cuts (text : List Char) (tokens : List Token) : Prop :=
  ∀ position, ∃ placed, scan position 0 text = .ok placed ∧ placed.map PlacedToken.token = tokens

/-- A token does not go on into a text that begins with a blank, or, unless it is a chain itself,
with a chain. -/
def EndsBefore (token : Token) (rest : List Char) : Prop :=
  ∀ c ∈ rest.head?, isBlank c = true ∨ (c = '.' ∧ token.isChain = false)

theorem EndsBefore.head_ne {token : Token} {rest : List Char} (ends : token.EndsBefore rest)
    {mark : Char} (visible : isBlank mark = false) (notDot : mark ≠ '.') :
    rest.head? ≠ some mark := by
  intro begins
  rcases ends mark begins with blank | ⟨dot, _⟩
  · exact ne_of_kind blank visible rfl
  · exact notDot dot

theorem EndsBefore.notWord {token : Token} {rest : List Char} (ends : token.EndsBefore rest) :
    ∀ next ∈ rest.head?, isWordChar next = false := by
  intro next begins
  rcases ends next begins with blank | ⟨rfl, _⟩
  · exact isWordChar_eq_false_of_isBlank blank
  · decide

theorem EndsBefore.notDefine {token : Token} {rest : List Char} (ends : token.EndsBefore rest) :
    rest.take 2 ≠ [':', '='] := by
  intro taken
  have begins : rest.head? = some ':' := by
    cases rest with
    | nil => cases taken
    | cons next rest => exact congrArg some (List.cons.inj taken).1
  exact ends.head_ne (by decide) (by decide) begins

theorem cuts_nil : Cuts [] [] :=
  fun _ => ⟨[], rfl, rfl⟩

section Cuts

variable {rest : List Char} {later : List Token}

theorem Cuts.blanks {gap : List Char} (blank : ∀ c ∈ gap, isBlank c = true)
    (after : Cuts rest later) : Cuts (gap ++ rest) later := by
  induction gap with
  | nil => exact after
  | cons c gap ih =>
    obtain ⟨first, others⟩ := List.forall_mem_cons.mp blank
    intro position
    rw [List.cons_append, scan, front, if_pos first]
    exact ih others (position.after c)

theorem scan_length_append (position : Position) (passed rest : List Char) :
    scan position passed.length (passed ++ rest) =
      scan (passed.foldl Position.after position) 0 rest := by
  induction passed generalizing position with
  | nil => rfl
  | cons c passed ih => exact ih (position.after c)

theorem Cuts.of_front {c : Char} {others : List Char} {token : Token}
    (recognised : front c (others ++ rest) = .ok ⟨some token, others.length + 1⟩)
    (after : Cuts rest later) : Cuts (c :: others ++ rest) (token :: later) := by
  intro position
  obtain ⟨placed, cut, same⟩ := after (others.foldl Position.after (position.after c))
  refine ⟨⟨token, position⟩ :: placed, ?_, by rw [List.map_cons, same]⟩
  rw [List.cons_append, scan, recognised]
  simp only [Nat.add_sub_cancel, scan_length_append, cut, bind, Except.bind, pure, Except.pure]

end Cuts

section Front

variable {rest : List Char}

theorem front_punctuation {c : Char} {token : Token} (visible : isBlank c = false)
    (notQuote : c ≠ '\"') (notDot : c ≠ '.') (notWord : isWordChar c = false)
    (mark : punctuation c = some token) (notComment : c = '(' → rest.head? ≠ some '*')
    (notDefine : c = ':' → rest.take 2 ≠ [':', '=']) : front c rest = .ok ⟨some token, 1⟩ := by
  have separate : ¬(c = '(' ∧ rest.head? = some '*') := fun opens => notComment opens.1 opens.2
  have single : ¬(c = ':' ∧ rest.take 2 = [':', '=']) := fun begins => notDefine begins.1 begins.2
  simp only [front, visible, if_neg separate, if_neg single, if_neg notQuote, if_neg notDot,
    notWord, Bool.false_eq_true, if_false, mark]

theorem front_word {c : Char} {others : List Char} (first : isWordChar c = true)
    (each : ∀ other ∈ others, isWordChar other = true)
    (ends : ∀ next ∈ rest.head?, isWordChar next = false) :
    front c (others ++ rest) =
      .ok ⟨some (.word (String.ofList (c :: others))), others.length + 1⟩ := by
  have visible := isBlank_eq_false_of_isWordChar first
  have other : ∀ mark, isWordChar mark = false → c ≠ mark := fun _ => ne_of_kind first
  have stops : rest.takeWhile isWordChar = [] := by
    cases rest with
    | nil => rfl
    | cons next rest => exact List.takeWhile_cons_of_neg (by simp [ends next rfl])
  have word : (others ++ rest).takeWhile isWordChar = others := by
    rw [List.takeWhile_append_of_pos each, stops, List.append_nil]
  simp only [front, visible, other '(' (by decide), other ':' (by decide), other '\"' (by decide),
    other '.' (by decide), first, word, Bool.false_eq_true, if_false, if_true, false_and]

theorem quotation_escape (text rest : List Char) :
    quotation (text.flatMap escape ++ '\"' :: rest) =
      some (text, (text.flatMap escape).length + 1) := by
  induction text with
  | nil =>
    rw [quotation.eq_def]
    rfl
  | cons c text ih =>
    rw [List.flatMap_cons, List.append_assoc]
    by_cases quote : c = '\"'
    · subst quote
      simp [escape, quotation, ih]
    · by_cases backslash : c = '\\'
      · subst backslash
        simp [escape, quotation, ih]
      · have plain : escape c = [c] := if_neg (not_or.mpr ⟨quote, backslash⟩)
        rw [plain, List.singleton_append, quotation.eq_def]
        simp [quote, backslash, ih]

theorem front_quoted (text : String) :
    front '\"' (text.toList.flatMap escape ++ ['\"'] ++ rest) =
      .ok ⟨some (.quoted text), (text.toList.flatMap escape ++ ['\"']).length + 1⟩ := by
  have quoted := quotation_escape text.toList rest
  simp only [front, List.append_assoc, List.singleton_append, quoted, List.length_append,
    List.length_singleton, String.ofList_toList]
  rfl

theorem chainLength_eq_zero {place : ChainPlace} (outside : place ≠ .inGroup)
    (ends : ∀ c ∈ rest.head?, isBlank c = true) : chainLength place rest = 0 := by
  cases rest with
  | nil => cases place <;> rfl
  | cons c rest =>
    have blank := ends c rfl
    have notLabel := isLabelChar_eq_false_of_isBlank blank
    have notDot : c ≠ '.' := ne_of_kind blank (by decide)
    have notOpen : c ≠ '(' := ne_of_kind blank (by decide)
    cases place with
    | inGroup => exact absurd rfl outside
    | betweenElements | afterDot | inLabel => simp [chainLength, notLabel, notDot, notOpen]

/-- A scan follows the steps of a reader. -/
theorem chainLength_step {place next : Chain.Place} {c : Char} {done : Chain}
    (step : Chain.Step place c next done) (rest : List Char) :
    chainLength place.scanning (c :: rest) = chainLength next.scanning rest + 1 := by
  cases step with
  | dot | reset | openGroup | closeGroup => rfl
  | beginLabel labelled =>
    have other : ∀ mark, isLabelChar mark = false → c ≠ mark := fun _ => ne_of_kind labelled
    simp [Chain.Place.scanning, chainLength, other '.' (by decide), other '(' (by decide), labelled]
  | continueLabel labelled => exact if_pos labelled
  | endLabel seen => exact (if_neg (by decide)).trans (if_pos rfl)
  | continueGroup inside => exact if_neg inside

theorem chainLength_of_readFrom {place : Chain.Place} {text : List Char} {chain : Chain}
    (read : Chain.readFrom place text = .ok chain) (ends : ∀ c ∈ rest.head?, isBlank c = true) :
    chainLength place.scanning (text ++ rest) = text.length := by
  induction text generalizing place chain with
  | nil =>
    apply chainLength_eq_zero ?_ ends
    intro same
    cases place <;> cases same
    cases read
  | cons c text ih =>
    obtain ⟨next, done, later, step, after, _⟩ := Chain.exists_step read
    rw [List.cons_append, chainLength_step step, ih after, List.length_cons]

theorem exists_dot_of_read {text : String} (readable : Chain.Readable text)
    (solid : Chain.NotEmpty text) :
    ∃ others chain, text = String.ofList ('.' :: others) ∧
      Chain.readFrom .afterDot others = .ok chain := by
  obtain ⟨chain, read⟩ := readable
  cases outcome : Chain.readFrom .betweenElements text.toList with
  | error fault =>
    rw [Chain.read, outcome] at read
    cases read
  | ok found =>
    rcases Chain.readFrom_betweenElements.mp outcome with ⟨_, rfl⟩ | ⟨others, dot, after⟩
    · rw [Chain.NotEmpty, Chain.read, outcome] at solid
      exact absurd rfl solid
    · exact ⟨others, found, by rw [← dot, String.ofList_toList], after⟩

theorem front_chain {others : List Char} {chain : Chain}
    (read : Chain.readFrom .afterDot others = .ok chain)
    (ends : ∀ c ∈ rest.head?, isBlank c = true) :
    front '.' (others ++ rest) =
      .ok ⟨some (.chain (String.ofList ('.' :: others))), others.length + 1⟩ := by
  have length : chainLength .afterDot (others ++ rest) = others.length :=
    chainLength_of_readFrom read ends
  simp only [front, length, List.take_left]
  rfl

end Front

def Spellable : Token → Prop
  | word text => IsWord text
  | chain text => Chain.Readable text ∧ Chain.NotEmpty text
  | _ => True

theorem Cuts.spelling {token : Token} {rest : List Char} {later : List Token}
    (spellable : token.Spellable) (ends : token.EndsBefore rest) (after : Cuts rest later) :
    Cuts (token.spelling ++ rest) (token :: later) := by
  cases token with
  | word text =>
    obtain ⟨nonempty, each⟩ := spellable
    cases spelled : text.toList with
    | nil => exact absurd spelled nonempty
    | cons c others =>
      obtain rfl : text = String.ofList (c :: others) := by rw [← spelled, String.ofList_toList]
      rw [spelled, List.forall_mem_cons] at each
      rw [Token.spelling, spelled]
      exact after.of_front (front_word each.1 each.2 ends.notWord)
  | quoted text => exact after.of_front (front_quoted text)
  | chain text =>
    obtain ⟨others, chain, rfl, read⟩ := exists_dot_of_read spellable.1 spellable.2
    have blank : ∀ c ∈ rest.head?, isBlank c = true :=
      fun c member => (ends c member).resolve_right nofun
    rw [Token.spelling, String.toList_ofList]
    exact after.of_front (front_chain read blank)
  | define => exact after.of_front rfl
  | colon | semicolon | bar | openParen | closeParen | openBracket | closeBracket | caret | comma
  | unfold =>
    exact after.of_front (front_punctuation rfl (by decide) (by decide) (by decide) rfl
      (fun _ => ends.head_ne (by decide) (by decide)) fun _ => ends.notDefine)

/-- Tokens in which every chain stands directly behind a token that is not one. -/
inductive Separated : List Token → Prop where
  | nil : Separated []
  | plain {token : Token} {later : List Token} (single : token.isChain = false)
    (after : Separated later) : Separated (token :: later)
  | chained {token : Token} {text : String} {later : List Token} (single : token.isChain = false)
    (after : Separated later) : Separated (token :: .chain text :: later)

/-- A token that a term ends with if there is no chain behind it. -/
def endsTerm : Token → Bool
  | word _ | quoted _ | closeParen | closeBracket => true
  | _ => false

/-- Tokens in which every chain stands directly behind a token that a term ends with. -/
inductive Attached : List Token → Prop where
  | nil : Attached []
  | plain {token : Token} {later : List Token} (single : token.isChain = false)
    (after : Attached later) : Attached (token :: later)
  | chained {token : Token} {text : String} {later : List Token} (ends : token.endsTerm = true)
    (after : Attached later) : Attached (token :: .chain text :: later)

theorem isChain_eq_false_of_endsTerm {token : Token} (ends : token.endsTerm = true) :
    token.isChain = false := by
  cases token with
  | chain text => cases ends
  | _ => rfl

namespace Attached

variable {first later : List Token}

theorem append (before : Attached first) (after : Attached later) : Attached (first ++ later) := by
  induction before with
  | nil => exact after
  | plain single _ ih => exact .plain single ih
  | chained ends _ ih => exact .chained ends ih

theorem separated (attached : Attached first) : Separated first := by
  induction attached with
  | nil => exact .nil
  | plain single _ ih => exact .plain single ih
  | chained ends _ ih => exact .chained (isChain_eq_false_of_endsTerm ends) ih

end Attached

namespace Layout

variable (layout : Layout)

theorem blank_ahead (left : List Token) : ∀ c ∈ layout.ahead left, isBlank c = true := by
  cases left with
  | nil => exact nofun
  | cons next later =>
    rw [ahead]
    split
    · exact nofun
    · exact layout.blank _

theorem head_blank {left : List Token} (separated : Separated left) :
    ∀ c ∈ (layout.ahead left ++ layout.spell left).head?, isBlank c = true := by
  have gap : ∀ next later, next.isChain = false →
      ∀ c ∈ (layout.ahead (next :: later) ++ layout.spell (next :: later)).head?,
        isBlank c = true := by
    intro next later single c begins
    rw [ahead, if_neg (by simp [single])] at begins
    cases written : layout.gap (next :: later) with
    | nil => exact absurd written (layout.nonempty _)
    | cons first rest =>
      rw [written] at begins
      cases begins
      exact layout.blank (next :: later) c (written ▸ List.mem_cons_self)
  cases separated with
  | nil => exact nofun
  | plain single after => exact gap _ _ single
  | chained single after => exact gap _ _ single

theorem cuts_spell {tokens : List Token} (separated : Separated tokens)
    (spellable : ∀ token ∈ tokens, token.Spellable) : Cuts (layout.spell tokens) tokens := by
  induction separated with
  | nil => exact cuts_nil
  | @plain token later single after ih =>
    obtain ⟨first, others⟩ := List.forall_mem_cons.mp spellable
    have left := (ih others).blanks (layout.blank_ahead later)
    exact left.spelling first fun c begins => .inl (layout.head_blank after c begins)
  | @chained token text later single after ih =>
    obtain ⟨first, chained, others⟩ := by simpa only [List.forall_mem_cons] using spellable
    have left := (ih others).blanks (layout.blank_ahead later)
    -- Only the chain has a gap behind it; the token ahead of the chain ends at its dot.
    have chain := left.spelling chained fun c begins => .inl (layout.head_blank after c begins)
    refine chain.spelling first fun c begins => .inr ⟨?_, single⟩
    obtain ⟨behind, _, rfl, _⟩ := exists_dot_of_read chained.1 chained.2
    simp only [ahead, isChain, if_true, spell, spelling, String.toList_ofList] at begins
    cases begins
    rfl

end Layout

theorem isWord_of_front {c : Char} {rest : List Char} {text : String} {length : Nat}
    (recognised : front c rest = .ok ⟨some (.word text), length⟩) : IsWord text := by
  rcases front_cases recognised with same | ⟨_, same⟩ | ⟨_, same⟩ | ⟨first, same⟩ | mark
  · cases same
  · cases same
  · cases same
  · cases same
    rw [IsWord, String.toList_ofList, List.forall_mem_cons]
    exact ⟨List.cons_ne_nil _ _, first,
      fun other => List.all_eq_true.mp List.all_takeWhile other⟩
  · exact absurd mark (punctuation_ne_word c text)

end Token

namespace GrammarText

theorem eachWord_scan {position : Position} {passing : Nat} {text : List Char}
    {tokens : List PlacedToken} (scanned : Token.scan position passing text = .ok tokens) :
    EachWord (tokens.map PlacedToken.token) := by
  have words := Token.forall_mem_of_scan
    (fun {_ _ token _} recognised text (same : token = .word text) =>
      Token.isWord_of_front (same ▸ recognised)) scanned
  exact fun text member => words _ member text rfl

end GrammarText

end SentenceGrammar
