import SentenceGrammar.Proofs.GrammarText.Blanking
import SentenceGrammar.Proofs.GrammarText.Spelling

/-! Texts that are put together from others. What is recognised at the front of a text does not
depend on what stands behind a later semicolon that it does not reach. So a text whose last token is
a semicolon is cut into the same tokens whatever follows it, and a text can be taken apart behind
each of its semicolons. -/

namespace SentenceGrammar

open Character

namespace Token

section Fronts

theorem commentLength_bounds {nesting length : Nat} {text : List Char}
    (read : commentLength nesting text = some length) : 0 < length ∧ length ≤ text.length := by
  fun_induction commentLength nesting text generalizing length with
  | case1 => cases read
  | case2 => cases read
  | case4 first second rest notOpens closes =>
    cases read
    exact ⟨Nat.two_pos, Nat.le_add_left 2 rest.length⟩
  | case3 nesting first second rest opens ih | case5 nesting first second rest _ _ _ ih =>
    obtain ⟨inner, inside, rfl⟩ := Option.map_eq_some_iff.mp read
    exact ⟨Nat.succ_pos _, Nat.add_le_add_right (ih inside).2 2⟩
  | case6 nesting first second rest notOpens notCloses ih =>
    obtain ⟨inner, inside, rfl⟩ := Option.map_eq_some_iff.mp read
    exact ⟨Nat.succ_pos _, Nat.add_le_add_right (ih inside).2 1⟩

theorem eq_cons_of_take {c : Char} {rest other : List Char} {length : Nat}
    (same : other.take (length + 1) = (c :: rest).take (length + 1)) :
    ∃ later, other = c :: later ∧ later.take length = rest.take length := by
  cases other with
  | nil => cases same
  | cons d later =>
    obtain ⟨rfl, behind⟩ := List.cons.inj same
    exact ⟨later, rfl, behind⟩

theorem commentLength_of_take {nesting length : Nat} {text other : List Char}
    (read : commentLength nesting text = some length)
    (same : other.take length = text.take length) : commentLength nesting other = some length := by
  fun_induction commentLength nesting text generalizing other length with
  | case1 => cases read
  | case2 => cases read
  | case3 nesting first second rest opens ih =>
    obtain ⟨inner, inside, rfl⟩ := Option.map_eq_some_iff.mp read
    obtain ⟨_, rfl, behind⟩ := eq_cons_of_take same
    obtain ⟨later, rfl, further⟩ := eq_cons_of_take behind
    rw [commentLength, if_pos opens, ih inside further]
    rfl
  | case4 first second rest notOpens closes =>
    cases read
    obtain ⟨_, rfl, behind⟩ := eq_cons_of_take same
    obtain ⟨later, rfl, _⟩ := eq_cons_of_take behind
    rw [commentLength, if_neg notOpens, if_pos closes, if_pos rfl]
  | case5 nesting first second rest notOpens closes outer ih =>
    obtain ⟨inner, inside, rfl⟩ := Option.map_eq_some_iff.mp read
    obtain ⟨_, rfl, behind⟩ := eq_cons_of_take same
    obtain ⟨later, rfl, further⟩ := eq_cons_of_take behind
    rw [commentLength, if_neg notOpens, if_pos closes, if_neg outer, ih inside further]
    rfl
  | case6 nesting first second rest notOpens notCloses ih =>
    obtain ⟨inner, inside, rfl⟩ := Option.map_eq_some_iff.mp read
    obtain ⟨behind, rfl, further⟩ := eq_cons_of_take same
    have next := ih inside further
    obtain ⟨less, rfl⟩ := Nat.exists_eq_add_one.mpr (commentLength_bounds inside).1
    obtain ⟨later, rfl, _⟩ := eq_cons_of_take further
    rw [commentLength, if_neg notOpens, if_neg notCloses, next]
    rfl

theorem front_comment (rest : List Char) :
    front '(' ('*' :: rest) = match commentLength 0 rest with
      | some length => .ok ⟨none, length + 2⟩
      | none => .error .unterminatedComment :=
  rfl

theorem chainLength_before_semicolon {place : ChainPlace} {passage behind : List Char}
    (inside : chainLength place (passage ++ ';' :: behind) ≤ passage.length)
    (other : List Char) :
    chainLength place (passage ++ ';' :: other) = chainLength place (passage ++ ';' :: behind) := by
  induction passage generalizing place with
  | nil =>
    cases place with
    | inGroup => cases inside
    | betweenElements | afterDot | inLabel => rfl
  | cons c passage ih =>
    rw [List.length_cons] at inside
    cases place <;> simp only [List.cons_append, chainLength] at inside ⊢ <;> grind

theorem take_before_semicolon {passage behind other : List Char} {length : Nat}
    (inside : length ≤ passage.length) :
    (passage ++ ';' :: other).take length = (passage ++ ';' :: behind).take length := by
  rw [List.take_append_of_le_length inside, List.take_append_of_le_length inside]

/-- What is recognised and does not reach a semicolon is the same whatever stands behind the
semicolon. -/
theorem front_before_semicolon {c : Char} {passage behind : List Char} {recognised : Front}
    (read : front c (passage ++ ';' :: behind) = .ok recognised)
    (inside : recognised.length ≤ passage.length + 1) (other : List Char) :
    front c (passage ++ ';' :: other) = .ok recognised := by
  by_cases quote : c = '\"'
  · subst quote
    rw [front_quote] at read ⊢
    cases quoted : quotation (passage ++ ';' :: behind) with
    | none => simp [quoted] at read
    | some content =>
      rw [quoted] at read
      cases read
      rw [quotation_of_take quoted (take_before_semicolon (Nat.le_of_succ_le_succ inside))]
  by_cases dot : c = '.'
  · subst dot
    rw [front_dot] at read ⊢
    cases read
    have ends := Nat.le_of_succ_le_succ inside
    rw [chainLength_before_semicolon ends other, take_before_semicolon ends]
  have next : (passage ++ ';' :: other).head? = (passage ++ ';' :: behind).head? := by
    cases passage <;> rfl
  by_cases comment : c = '(' ∧ (passage ++ ';' :: behind).head? = some '*'
  · obtain ⟨rfl, star⟩ := comment
    obtain _ | ⟨_, passage⟩ := passage <;> cases star
    rw [List.cons_append, front_comment] at read ⊢
    cases measured : commentLength 0 (passage ++ ';' :: behind) with
    | none => simp [measured] at read
    | some length =>
      rw [measured] at read
      cases read
      have ends : length ≤ passage.length := Nat.le_of_add_le_add_right inside
      rw [commentLength_of_take measured (take_before_semicolon ends)]
  have define : (passage ++ ';' :: other).take 2 = [':', '='] ↔
      (passage ++ ';' :: behind).take 2 = [':', '='] := by
    obtain _ | ⟨first, _ | ⟨second, later⟩⟩ := passage <;> simp
  have words : (passage ++ ';' :: other).takeWhile isWordChar =
      (passage ++ ';' :: behind).takeWhile isWordChar := by
    rw [List.takeWhile_append, List.takeWhile_append]
    split <;> rfl
  rw [← read, front, front]
  simp only [next, define, words, if_neg quote, if_neg dot, if_neg comment]

theorem front_gap_append {c : Char} {rest : List Char} {length : Nat}
    (read : front c rest = .ok ⟨none, length⟩) (more : List Char) :
    front c (rest ++ more) = .ok ⟨none, length⟩ ∧ length ≤ rest.length + 1 := by
  by_cases blank : isBlank c = true
  · rw [front, if_pos blank] at read ⊢
    cases read
    exact ⟨rfl, Nat.le_add_left 1 _⟩
  by_cases comment : c = '(' ∧ rest.head? = some '*'
  · obtain ⟨rfl, star⟩ := comment
    obtain _ | ⟨_, rest⟩ := rest <;> cases star
    rw [List.cons_append]
    rw [front_comment] at read ⊢
    cases measured : commentLength 0 rest with
    | none => simp [measured] at read
    | some length =>
      rw [measured] at read
      cases read
      have ends := (commentLength_bounds measured).2
      rw [commentLength_of_take measured (List.take_append_of_le_length ends)]
      exact ⟨rfl, Nat.add_le_add_right ends 2⟩
  rw [front, if_neg blank, if_neg comment] at read
  grind

theorem eq_semicolon_of_front {c : Char} {rest : List Char} {length : Nat}
    (read : front c rest = .ok ⟨some .semicolon, length⟩) : c = ';' ∧ length = 1 :=
  eq_mark_of_front read (.inr ⟨rfl, rfl⟩)

end Fronts

/-- A text that is cut into the given tokens, wherever it begins, if its first characters belong to
something that was recognised before. -/
def CutsAfter (passing : Nat) (text : List Char) (tokens : List Token) : Prop :=
  ∀ position, ∃ placed, scan position passing text = .ok placed ∧
    placed.map PlacedToken.token = tokens

section Cuts

variable {c : Char} {passing : Nat} {text rest : List Char} {tokens later : List Token}

theorem cutsAfter_of_scan {position : Position} {placed : List PlacedToken}
    (scanned : scan position passing text = .ok placed) :
    CutsAfter passing text (placed.map PlacedToken.token) := by
  induction text generalizing position passing placed with
  | nil =>
    rw [scan] at scanned
    cases scanned
    exact fun other => ⟨[], by rw [scan], rfl⟩
  | cons c rest ih =>
    cases passing with
    | succ passing => exact fun other => ih scanned (other.after c)
    | zero =>
      obtain ⟨recognised, later, read, further, rfl⟩ := scan_cons_eq_ok.mp scanned
      intro other
      obtain ⟨behind, cut, same⟩ := ih further (other.after c)
      refine ⟨_, scan_cons_eq_ok.mpr ⟨recognised, behind, read, cut, rfl⟩, ?_⟩
      cases recognised.token <;> simp [same]

theorem CutsAfter.unique (cuts : CutsAfter passing text tokens)
    (too : CutsAfter passing text later) : tokens = later := by
  obtain ⟨placed, cut, rfl⟩ := cuts .first
  obtain ⟨others, cutToo, rfl⟩ := too .first
  cases cut.symm.trans cutToo
  rfl

theorem cutsAfter_nil : CutsAfter passing [] tokens ↔ tokens = [] := by
  constructor
  · intro cuts
    obtain ⟨placed, cut, rfl⟩ := cuts .first
    rw [scan] at cut
    cases cut
    rfl
  · rintro rfl position
    exact ⟨[], by rw [scan], rfl⟩

theorem cutsAfter_succ :
    CutsAfter (passing + 1) (c :: rest) tokens ↔ CutsAfter passing rest tokens := by
  constructor
  · intro cuts
    obtain ⟨placed, cut, rfl⟩ := cuts .first
    have behind : scan (Position.first.after c) passing rest = .ok placed := cut
    exact cutsAfter_of_scan behind
  · exact fun cuts position => cuts (position.after c)

theorem cutsAfter_cons : CutsAfter 0 (c :: rest) tokens ↔
    ∃ recognised later, front c rest = .ok recognised ∧
      CutsAfter (recognised.length - 1) rest later ∧
        tokens = recognised.token.toList ++ later := by
  constructor
  · intro cuts
    obtain ⟨placed, cut, rfl⟩ := cuts .first
    obtain ⟨recognised, later, read, further, rfl⟩ := scan_cons_eq_ok.mp cut
    refine ⟨recognised, _, read, cutsAfter_of_scan further, ?_⟩
    cases recognised.token <;> simp
  · rintro ⟨recognised, later, read, further, rfl⟩ position
    obtain ⟨placed, cut, rfl⟩ := further (position.after c)
    refine ⟨_, scan_cons_eq_ok.mpr ⟨recognised, placed, read, cut, rfl⟩, ?_⟩
    cases recognised.token <;> simp

theorem CutsAfter.exists_semicolon (cuts : CutsAfter passing text tokens)
    (ends : .semicolon ∈ tokens) :
    ∃ passage behind, text = passage ++ ';' :: behind ∧ passing ≤ passage.length := by
  induction text generalizing passing tokens with
  | nil =>
    rw [cutsAfter_nil.mp cuts] at ends
    cases ends
  | cons c rest ih =>
    cases passing with
    | succ passing =>
      obtain ⟨passage, behind, rfl, inside⟩ := ih (cutsAfter_succ.mp cuts) ends
      exact ⟨c :: passage, behind, rfl, Nat.succ_le_succ inside⟩
    | zero =>
      obtain ⟨⟨token, length⟩, later, read, further, rfl⟩ := cutsAfter_cons.mp cuts
      rcases List.mem_append.mp ends with here | behind
      · cases Option.mem_toList.mp here
        obtain ⟨rfl, _⟩ := eq_semicolon_of_front read
        exact ⟨[], rest, rfl, Nat.le_refl 0⟩
      · obtain ⟨passage, behind, rfl, _⟩ := ih further behind
        exact ⟨c :: passage, behind, rfl, Nat.zero_le _⟩

theorem CutsAfter.front_append {recognised : Front}
    (cuts : CutsAfter (recognised.length - 1) rest later) (ends : .semicolon ∈ later)
    (more : List Char) :
    front c (rest ++ more) = .ok recognised ↔ front c rest = .ok recognised := by
  obtain ⟨passage, behind, rfl, inside⟩ := cuts.exists_semicolon ends
  have reaches : recognised.length ≤ passage.length + 1 := Nat.le_add_of_sub_le inside
  rw [List.append_assoc, List.cons_append]
  exact ⟨fun read => front_before_semicolon read reaches behind,
    fun read => front_before_semicolon read reaches (behind ++ more)⟩

/-- A text whose last token is a semicolon is cut into the same tokens ahead of any other text, and
so is one without tokens. -/
theorem CutsAfter.append {more : List Char} {others : List Token}
    (cuts : CutsAfter passing text tokens) (inside : passing ≤ text.length)
    (ends : ∀ last ∈ tokens.getLast?, last = .semicolon) (cutsToo : Cuts more others) :
    CutsAfter passing (text ++ more) (tokens ++ others) := by
  induction text generalizing passing tokens with
  | nil =>
    cases Nat.le_zero.mp inside
    rw [cutsAfter_nil.mp cuts]
    exact cutsToo
  | cons c rest ih =>
    cases passing with
    | succ passing =>
      exact cutsAfter_succ.mpr (ih (cutsAfter_succ.mp cuts) (Nat.le_of_succ_le_succ inside) ends)
    | zero =>
      obtain ⟨⟨token, length⟩, later, read, further, rfl⟩ := cutsAfter_cons.mp cuts
      rw [List.append_assoc]
      rw [List.getLast?_append] at ends
      cases ended : later.getLast? with
      | some last =>
        rw [ended] at ends
        cases ends last rfl
        have semicolon := List.mem_of_getLast? ended
        obtain ⟨passage, behind, rfl, reaches⟩ := further.exists_semicolon semicolon
        refine cutsAfter_cons.mpr ⟨_, _, (further.front_append semicolon more).mpr read,
          ih further ?_ (by simp [ended]), rfl⟩
        rw [List.length_append]
        exact Nat.le_add_right_of_le reaches
      | none =>
        cases List.getLast?_eq_none_iff.mp ended
        cases token with
        | none =>
          obtain ⟨gap, reaches⟩ := front_gap_append read more
          exact cutsAfter_cons.mpr ⟨_, _, gap, ih further (Nat.sub_le_of_le_add reaches) nofun, rfl⟩
        | some token =>
          cases ends token rfl
          obtain ⟨rfl, rfl⟩ := eq_semicolon_of_front read
          exact cutsAfter_cons.mpr ⟨_, _, rfl, ih further (Nat.zero_le _) nofun, rfl⟩

theorem CutsAfter.split {body : List Token}
    (cuts : CutsAfter passing text (body ++ .semicolon :: later)) :
    ∃ before behind, text = before ++ behind ∧
      CutsAfter passing before (body ++ [.semicolon]) ∧ Cuts behind later := by
  induction text generalizing passing body with
  | nil =>
    have none := cutsAfter_nil.mp cuts
    simp at none
  | cons c rest ih =>
    cases passing with
    | succ passing =>
      obtain ⟨before, behind, rfl, cut, further⟩ := ih (cutsAfter_succ.mp cuts)
      exact ⟨c :: before, behind, rfl, cutsAfter_succ.mpr cut, further⟩
    | zero =>
      obtain ⟨⟨token, length⟩, tokens, read, further, same⟩ := cutsAfter_cons.mp cuts
      -- If the semicolon is still to come, what is recognised here does not reach it.
      have goesOn : ∀ inner, tokens = inner ++ .semicolon :: later →
          body = token.toList ++ inner → ∃ before behind, c :: rest = before ++ behind ∧
            CutsAfter 0 before (body ++ [.semicolon]) ∧ Cuts behind later := by
        rintro inner rfl rfl
        obtain ⟨before, behind, rfl, cut, beyond⟩ := ih further
        refine ⟨c :: before, behind, rfl, ?_, beyond⟩
        rw [List.append_assoc]
        exact cutsAfter_cons.mpr ⟨_, _, (cut.front_append (by simp) behind).mp read, cut, rfl⟩
      cases token with
      | none => exact goesOn body same.symm rfl
      | some token =>
        cases body with
        | cons first inner =>
          obtain ⟨rfl, inside⟩ := List.cons.inj same
          exact goesOn inner inside.symm rfl
        | nil =>
          obtain ⟨rfl, rfl⟩ := List.cons.inj same
          obtain ⟨rfl, rfl⟩ := eq_semicolon_of_front read
          exact ⟨[';'], rest, rfl, fun _ => ⟨_, rfl, rfl⟩, further⟩

end Cuts

end Token

end SentenceGrammar
