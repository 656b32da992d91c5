import Mathlib.Data.List.Forall2
import SentenceGrammar.Proofs.GrammarText.Acceptance

/-! A blank in place of an unfold sign takes the sign out of the tokens of a text and leaves all
others as they are, each at its place. Outside quotations and chains nothing tells the two
characters apart, and what stands in those is not touched. -/

namespace SentenceGrammar

open Character

namespace Token

/-- A text with a blank in place of every unfold sign. The first characters may belong to something
that was recognised before. -/
def blankUnfolds : Nat → List Char → List Char
  | _, [] => []
  | passing + 1, c :: rest => c :: blankUnfolds passing rest
  | 0, c :: rest =>
    match front c rest with
    | .error _ => c :: rest
    | .ok ⟨some .unfold, _⟩ => ' ' :: blankUnfolds 0 rest
    | .ok ⟨_, length⟩ => c :: blankUnfolds (length - 1) rest

def Blanked (c other : Char) : Prop :=
  other = c ∨ c = '>' ∧ other = ' '

theorem Blanked.eq_iff {c other : Char} (blanked : Blanked c other) {mark : Char}
    (notSign : mark ≠ '>') (notBlank : mark ≠ ' ') : other = mark ↔ c = mark := by
  rcases blanked with rfl | ⟨rfl, rfl⟩
  · rfl
  · simp [notSign.symm, notBlank.symm]

theorem Blanked.isWordChar {c other : Char} (blanked : Blanked c other) :
    isWordChar other = isWordChar c := by
  rcases blanked with rfl | ⟨rfl, rfl⟩
  · rfl
  · decide

theorem Blanked.isLabelChar {c other : Char} (blanked : Blanked c other) :
    isLabelChar other = isLabelChar c := by
  rcases blanked with rfl | ⟨rfl, rfl⟩
  · rfl
  · decide

theorem commentLength_blanked {text other : List Char} (blanked : List.Forall₂ Blanked text other)
    (nesting : Nat) : commentLength nesting other = commentLength nesting text := by
  fun_induction commentLength nesting text generalizing other with
  | case1 =>
    cases blanked
    rfl
  | case2 =>
    cases blanked with
    | cons _ none =>
      cases none
      rfl
  | case3 nesting first second rest opens ih =>
    obtain _ | ⟨here, _ | ⟨next, later⟩⟩ := blanked
    simp [commentLength, here.eq_iff, next.eq_iff, opens, ih later]
  | case4 first second rest notOpens closes =>
    obtain _ | ⟨here, _ | ⟨next, later⟩⟩ := blanked
    simp [commentLength, here.eq_iff, next.eq_iff, closes]
  | case5 nesting first second rest notOpens closes inner ih =>
    obtain _ | ⟨here, _ | ⟨next, later⟩⟩ := blanked
    simp [commentLength, here.eq_iff, next.eq_iff, closes, inner, ih later]
  | case6 nesting first second rest notOpens notCloses ih =>
    obtain _ | ⟨here, _ | ⟨next, later⟩⟩ := blanked
    simp [commentLength, here.eq_iff, next.eq_iff, notOpens, notCloses, ih (.cons next later)]

theorem takeWhile_blanked {text other : List Char} (blanked : List.Forall₂ Blanked text other) :
    other.takeWhile Character.isWordChar = text.takeWhile Character.isWordChar := by
  induction blanked with
  | nil => rfl
  | @cons c d rest later here _ ih =>
    rw [List.takeWhile_cons, List.takeWhile_cons, here.isWordChar, ih]
    split
    · rename_i word
      rcases here with rfl | ⟨rfl, rfl⟩
      · rfl
      · exact absurd word (by decide)
    · rfl

theorem chainLength_blanked {text other : List Char} (blanked : List.Forall₂ Blanked text other)
    (place : ChainPlace) : chainLength place other = chainLength place text := by
  induction blanked generalizing place with
  | nil => cases place <;> rfl
  | @cons c d rest later here _ ih =>
    cases place <;> simp [chainLength, here.isLabelChar, here.eq_iff, ih]

theorem quotation_of_take {text other quoted : List Char} {length : Nat}
    (read : quotation text = some (quoted, length)) (same : other.take length = text.take length) :
    quotation other = some (quoted, length) := by
  fun_induction quotation text generalizing other quoted length with
  | case1 => cases read
  | case2 rest =>
    cases read
    obtain _ | ⟨c, later⟩ := other
    · cases same
    obtain ⟨rfl, _⟩ := List.cons.inj same
    rw [quotation.eq_def]
    rfl
  | case3 => cases read
  | case4 escaped rest notQuote ih =>
    obtain ⟨⟨text, inner⟩, inside, made⟩ := Option.map_eq_some_iff.mp read
    cases made
    obtain _ | ⟨c, _ | ⟨d, later⟩⟩ := other
    · cases same
    · cases (List.cons.inj same).2
    obtain ⟨rfl, behind⟩ := List.cons.inj same
    obtain ⟨rfl, further⟩ := List.cons.inj behind
    rw [quotation.eq_def]
    simp [ih inside further]
  | case5 c rest notQuote notEscape ih =>
    obtain ⟨⟨text, inner⟩, inside, made⟩ := Option.map_eq_some_iff.mp read
    cases made
    obtain _ | ⟨d, later⟩ := other
    · cases same
    obtain ⟨rfl, behind⟩ := List.cons.inj same
    rw [quotation.eq_def]
    simp [notQuote, notEscape, ih inside behind]

theorem front_quote (rest : List Char) :
    front '\"' rest = match quotation rest with
      | some (text, length) => .ok ⟨some (.quoted (String.ofList text)), length + 1⟩
      | none => .error .unterminatedQuotation :=
  rfl

theorem front_dot (rest : List Char) :
    front '.' rest = .ok ⟨some (.chain (String.ofList
      ('.' :: rest.take (chainLength .afterDot rest)))), chainLength .afterDot rest + 1⟩ :=
  rfl

/-- What is recognised at the front of a text stays the same if unfold signs behind it are replaced.
-/
theorem front_blanked {c : Char} {rest other : List Char} {recognised : Front}
    (read : front c rest = .ok recognised) (blanked : List.Forall₂ Blanked rest other)
    (same : other.take (recognised.length - 1) = rest.take (recognised.length - 1)) :
    front c other = .ok recognised := by
  have comment : other.head? = some '*' ↔ rest.head? = some '*' := by
    cases blanked with
    | nil => rfl
    | cons here _ => simp [here.eq_iff]
  have define : other.take 2 = [':', '='] ↔ rest.take 2 = [':', '='] := by
    obtain _ | ⟨here, _ | ⟨next, _⟩⟩ := blanked
    · rfl
    · simp
    · simp [here.eq_iff, next.eq_iff]
  have inner : ∀ nesting, commentLength nesting other.tail = commentLength nesting rest.tail := by
    cases blanked with
    | nil => exact fun _ => rfl
    | cons _ later => exact commentLength_blanked later
  have words := takeWhile_blanked blanked
  -- Only quotations and chains take up signs, and those have been left alone there.
  by_cases quote : c = '\"'
  · subst quote
    rw [front_quote] at read ⊢
    cases quoted : quotation rest with
    | none => simp [quoted] at read
    | some content =>
      rw [quoted] at read
      cases read
      rw [quotation_of_take quoted same]
  by_cases dot : c = '.'
  · subst dot
    rw [front_dot] at read ⊢
    cases read
    have taken : other.take (chainLength .afterDot rest) = rest.take (chainLength .afterDot rest) :=
      same
    rw [chainLength_blanked blanked, taken]
  rw [← read, front, front]
  simp only [comment, define, inner, words, if_neg quote, if_neg dot]

theorem eq_mark_of_front {c mark : Char} {rest : List Char} {token : Token} {length : Nat}
    (read : front c rest = .ok ⟨some token, length⟩)
    (marked : token = .unfold ∧ mark = '>' ∨ token = .semicolon ∧ mark = ';') :
    c = mark ∧ length = 1 := by
  have found : punctuation c = some token := by
    rcases marked with ⟨rfl, _⟩ | ⟨rfl, _⟩ <;> simpa using front_cases read
  have same : c = mark := by
    unfold punctuation at found
    rcases marked with ⟨rfl, rfl⟩ | ⟨rfl, rfl⟩ <;> grind
  subst same
  rcases marked with ⟨rfl, rfl⟩ | ⟨rfl, rfl⟩ <;>
    · cases read
      exact ⟨rfl, rfl⟩

theorem eq_unfold_of_front {c : Char} {rest : List Char} {length : Nat}
    (read : front c rest = .ok ⟨some .unfold, length⟩) : c = '>' ∧ length = 1 :=
  eq_mark_of_front read (.inl ⟨rfl, rfl⟩)

theorem blanked_blankUnfolds (passing : Nat) (text : List Char) :
    List.Forall₂ Blanked text (blankUnfolds passing text) := by
  have same (rest : List Char) : List.Forall₂ Blanked rest rest :=
    List.forall₂_same.mpr fun _ _ => .inl rfl
  fun_induction blankUnfolds passing text with
  | case1 => exact .nil
  | case2 passing c rest ih => exact .cons (.inl rfl) ih
  | case3 c rest fault read => exact same _
  | case4 c rest length read ih => exact .cons (.inr ⟨(eq_unfold_of_front read).1, rfl⟩) ih
  | case5 c rest token length other read ih => exact .cons (.inl rfl) ih

theorem take_blankUnfolds (passing : Nat) (text : List Char) :
    (blankUnfolds passing text).take passing = text.take passing := by
  induction text generalizing passing with
  | nil => cases passing <;> rfl
  | cons c rest ih =>
    cases passing with
    | zero => rfl
    | succ passing => exact congrArg (c :: ·) (ih passing)

theorem scan_cons_eq_ok {position : Position} {c : Char} {rest : List Char}
    {tokens : List PlacedToken} : scan position 0 (c :: rest) = .ok tokens ↔
      ∃ recognised later, front c rest = .ok recognised ∧
        scan (position.after c) (recognised.length - 1) rest = .ok later ∧
          tokens = (recognised.token.map (⟨·, position⟩)).toList ++ later := by
  rw [scan]
  cases read : front c rest with
  | error fault => simp
  | ok recognised =>
    obtain ⟨_ | token, length⟩ := recognised
    · simp
    · cases further : scan (position.after c) (length - 1) rest <;>
        simp [further, bind, Except.bind, pure, Except.pure, eq_comm]

/-- With blanks in place of its unfold signs a text is cut into the same tokens at the same places
without those signs. -/
theorem scan_blankUnfolds {position : Position} {passing : Nat} {text : List Char}
    {tokens : List PlacedToken} (cut : scan position passing text = .ok tokens) :
    scan position passing (blankUnfolds passing text) =
      .ok (tokens.filter fun placed => placed.token ≠ .unfold) := by
  fun_induction blankUnfolds passing text generalizing position tokens with
  | case1 passing =>
    cases passing <;> cases cut <;> rfl
  | case2 passing c rest ih => exact ih cut
  | case3 c rest fault read => simp [scan, read] at cut
  | case4 c rest length read ih =>
    obtain ⟨rfl, rfl⟩ := eq_unfold_of_front read
    obtain ⟨recognised, later, readToo, further, rfl⟩ := scan_cons_eq_ok.mp cut
    cases read.symm.trans readToo
    -- The blank is recognised as a gap, and counts as much as the sign does.
    exact scan_cons_eq_ok.mpr ⟨⟨none, 1⟩, _, rfl, ih further, by simp⟩
  | case5 c rest token length other read ih =>
    obtain ⟨recognised, later, readToo, further, rfl⟩ := scan_cons_eq_ok.mp cut
    cases read.symm.trans readToo
    refine scan_cons_eq_ok.mpr ⟨⟨token, length⟩, _, ?_, ih further, ?_⟩
    · exact front_blanked read (blanked_blankUnfolds _ _) (take_blankUnfolds _ _)
    · cases token with
      | none => rfl
      | some token =>
        have kept : token ≠ .unfold := fun sign => other (congrArg some sign)
        simp [kept]

theorem tokenize_blankUnfolds {text : String} {tokens : List PlacedToken}
    (cut : tokenize text = .ok tokens) :
    tokenize (String.ofList (blankUnfolds 0 text.toList)) =
      .ok (tokens.filter fun placed => placed.token ≠ .unfold) := by
  rw [tokenize, String.toList_ofList]
  exact scan_blankUnfolds cut

end Token

end SentenceGrammar
