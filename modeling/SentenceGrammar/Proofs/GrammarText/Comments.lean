import SentenceGrammar.GrammarText.Lexer

/-! Comments as they nest. A comment ends at the closing that belongs to its opening, and there is
none for it exactly if the text ends first. Counting the comments that are open finds the same end,
and the count never falls below zero. -/

namespace SentenceGrammar.Token

/-- What stands behind the opening of a comment, up to its closing and with it. Of the characters
ahead of the closing, those that are not part of a comment inside make up neither an opening nor a
closing with the character behind them. -/
inductive CommentBody : List Char → Prop where
  | closing : CommentBody ['*', ')']
  | comment {inner rest : List Char} (inside : CommentBody inner) (after : CommentBody rest) :
    CommentBody ('(' :: '*' :: (inner ++ rest))
  | plain {c : Char} {rest : List Char} (notOpening : ¬(c = '(' ∧ rest.head? = some '*'))
    (notClosing : ¬(c = '*' ∧ rest.head? = some ')')) (after : CommentBody rest) :
    CommentBody (c :: rest)

theorem CommentBody.exists_cons {body : List Char} (whole : CommentBody body) :
    ∃ c rest, body = c :: rest := by
  cases whole <;> exact ⟨_, _, rfl⟩

theorem commentLength_opening (nesting : Nat) (rest : List Char) :
    commentLength nesting ('(' :: '*' :: rest) = (commentLength (nesting + 1) rest).map (· + 2) :=
  rfl

theorem commentLength_plain {c : Char} {rest : List Char}
    (notOpening : ¬(c = '(' ∧ rest.head? = some '*'))
    (notClosing : ¬(c = '*' ∧ rest.head? = some ')')) (nesting : Nat) :
    commentLength nesting (c :: rest) = (commentLength nesting rest).map (· + 1) := by
  cases rest with
  | nil => rfl
  | cons d rest =>
    have first : ¬(c = '(' ∧ d = '*') := by simpa using notOpening
    have second : ¬(c = '*' ∧ d = ')') := by simpa using notClosing
    rw [commentLength, if_neg first, if_neg second]

/-- The body of a comment is passed over, and the scan is back in the comment around it. -/
theorem CommentBody.commentLength_append {body : List Char} (whole : CommentBody body)
    (behind : List Char) :
    commentLength 0 (body ++ behind) = some body.length ∧
      ∀ nesting, commentLength (nesting + 1) (body ++ behind) =
        (commentLength nesting behind).map (· + body.length) := by
  induction whole generalizing behind with
  | closing => exact ⟨rfl, fun nesting => rfl⟩
  | @comment inner rest inside after first second =>
    obtain ⟨_, inner⟩ := first (rest ++ behind)
    obtain ⟨here, nested⟩ := second behind
    simp only [List.cons_append, List.append_assoc, commentLength_opening, inner, here, nested,
      Option.map_map, Option.map_some, List.length_cons, List.length_append]
    refine ⟨congrArg some (by omega), fun nesting => congrArg (Option.map · _) ?_⟩
    funext length
    simp only [Function.comp_apply]
    omega
  | @plain c rest notOpening notClosing after ih =>
    obtain ⟨d, others, rfl⟩ := after.exists_cons
    obtain ⟨here, nested⟩ := ih behind
    have passed : ∀ nesting, commentLength nesting (c :: (d :: others ++ behind)) =
        (commentLength nesting (d :: others ++ behind)).map (· + 1) :=
      commentLength_plain notOpening notClosing
    rw [List.cons_append]
    simp only [passed, here, nested, Option.map_map, Option.map_some]
    exact ⟨rfl, fun nesting => rfl⟩

theorem exists_bodies_of_commentLength {nesting length : Nat} {text : List Char}
    (read : commentLength nesting text = some length) :
    ∃ bodies : List (List Char), bodies.length = nesting + 1 ∧ (∀ body ∈ bodies, CommentBody body) ∧
      bodies.flatten.length = length ∧ ∃ behind, text = bodies.flatten ++ behind := by
  fun_induction commentLength nesting text generalizing length with
  | case1 => cases read
  | case2 => cases read
  | case3 nesting first second rest opens ih =>
    obtain ⟨inner, inside, rfl⟩ := Option.map_eq_some_iff.mp read
    obtain ⟨rfl, rfl⟩ := opens
    obtain ⟨bodies, count, whole, rfl, behind, rfl⟩ := ih inside
    obtain _ | ⟨body, _ | ⟨next, others⟩⟩ := bodies
    · cases count
    · cases count
    · -- The first body belongs to the comment that opens here, and the second goes on behind it.
      simp only [List.forall_mem_cons] at whole
      refine ⟨('(' :: '*' :: (body ++ next)) :: others, Nat.succ.inj count, ?_, ?_, behind, ?_⟩
      · exact List.forall_mem_cons.mpr ⟨.comment whole.1 whole.2.1, whole.2.2⟩
      · simp
      · simp
  | case4 first second rest notOpens closes =>
    cases read
    obtain ⟨rfl, rfl⟩ := closes
    exact ⟨[['*', ')']], rfl, List.forall_mem_singleton.mpr .closing, rfl, rest, rfl⟩
  | case5 nesting first second rest notOpens closes outer ih =>
    obtain ⟨inner, inside, rfl⟩ := Option.map_eq_some_iff.mp read
    obtain ⟨rfl, rfl⟩ := closes
    obtain ⟨bodies, count, whole, rfl, behind, rfl⟩ := ih inside
    refine ⟨['*', ')'] :: bodies, by rw [List.length_cons]; omega, ?_, by simp, behind, rfl⟩
    exact List.forall_mem_cons.mpr ⟨.closing, whole⟩
  | case6 nesting first second rest notOpens notCloses ih =>
    obtain ⟨inner, inside, rfl⟩ := Option.map_eq_some_iff.mp read
    obtain ⟨bodies, count, whole, rfl, behind, same⟩ := ih inside
    cases bodies with
    | nil => cases count
    | cons body others =>
      obtain ⟨here, later⟩ := List.forall_mem_cons.mp whole
      obtain ⟨c, body, rfl⟩ := here.exists_cons
      obtain ⟨rfl, rfl⟩ := List.cons.inj same
      refine ⟨(first :: second :: body) :: others, count, ?_, rfl, behind, rfl⟩
      exact List.forall_mem_cons.mpr ⟨.plain (by simpa using notOpens) (by simpa using notCloses)
        here, later⟩

theorem commentLength_eq_some_iff {text : List Char} {length : Nat} :
    commentLength 0 text = some length ↔
      ∃ body behind, text = body ++ behind ∧ CommentBody body ∧ body.length = length := by
  constructor
  · intro read
    obtain ⟨bodies, count, whole, rfl, behind, rfl⟩ := exists_bodies_of_commentLength read
    obtain ⟨body, rfl⟩ := List.length_eq_one_iff.mp count
    exact ⟨body, behind, by simp, List.forall_mem_singleton.mp whole, by simp⟩
  · rintro ⟨body, behind, rfl, whole, rfl⟩
    exact (whole.commentLength_append behind).1

inductive CountFault where
  | unterminated
  | belowZero
deriving DecidableEq, Repr

/-- The number of characters until no comment is open any more, by counting those that are. -/
def countComments (opened : Nat) : List Char → Except CountFault Nat
  | [] => .error .unterminated
  | [_] => .error .unterminated
  | first :: second :: rest =>
    if first = '(' ∧ second = '*' then (countComments (opened + 1) rest).map (· + 2)
    else if first = '*' ∧ second = ')' then
      if opened = 0 then .error .belowZero
      else if opened = 1 then .ok 2
      else (countComments (opened - 1) rest).map (· + 2)
    else (countComments opened (second :: rest)).map (· + 1)

def counted : Option Nat → Except CountFault Nat
  | some length => .ok length
  | none => .error .unterminated

theorem counted_map (measured : Option Nat) (more : Nat) :
    counted (measured.map (· + more)) = (counted measured).map (· + more) := by
  cases measured <;> rfl

theorem countComments_succ (nesting : Nat) (text : List Char) :
    countComments (nesting + 1) text = counted (commentLength nesting text) := by
  fun_induction commentLength nesting text with
  | case1 => rfl
  | case2 => rfl
  | case3 nesting first second rest opens ih => rw [countComments, if_pos opens, ih, counted_map]
  | case4 first second rest notOpens closes =>
    rw [countComments, if_neg notOpens, if_pos closes, if_neg (Nat.succ_ne_zero _), if_pos rfl]
    rfl
  | case5 nesting first second rest notOpens closes outer ih =>
    obtain ⟨less, rfl⟩ := Nat.exists_eq_succ_of_ne_zero outer
    rw [countComments, if_neg notOpens, if_pos closes, if_neg (Nat.succ_ne_zero _),
      if_neg (by omega), counted_map]
    exact congrArg _ ih
  | case6 nesting first second rest notOpens notCloses ih =>
    rw [countComments, if_neg notOpens, if_neg notCloses, ih, counted_map]

/-- From the opening of a comment on, the count of open comments ends where the comment does. -/
theorem countComments_comment (rest : List Char) :
    countComments 0 ('(' :: '*' :: rest) = counted ((commentLength 0 rest).map (· + 2)) := by
  rw [countComments, if_pos ⟨rfl, rfl⟩, countComments_succ, counted_map]

end SentenceGrammar.Token
