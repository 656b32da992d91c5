import SentenceGrammar.GrammarText.Lexer

/-! Chains as they are cut out of a text. A chain is a sequence of links, each of which begins with
a dot and takes up as much as belongs to it. What stands in parentheses is not looked at, and an
open parenthesis takes up the rest of the text. -/

namespace SentenceGrammar.Token

open Character

/-- A dot with what belongs to it: nothing, a label, or a parenthesis that is closed or, at the end
of the text, left open. -/
inductive Link where
  | dot
  | label (name : List Char)
  | closed (body : List Char)
  | unclosed (body : List Char)
deriving DecidableEq, Repr

namespace Link

def text : Link → List Char
  | dot => ['.']
  | label name => '.' :: name
  | closed body => '.' :: '(' :: (body ++ [')'])
  | unclosed body => '.' :: '(' :: body

/-- A link takes up all that belongs to it and no more, if the given text stands behind it. -/
def EndsBefore (behind : List Char) : Link → Prop
  | dot => ∀ c ∈ behind.head?, c ≠ '(' ∧ isLabelChar c = false
  | label name => name ≠ [] ∧ (∀ c ∈ name, isLabelChar c = true) ∧
      ∀ c ∈ behind.head?, isLabelChar c = false
  | closed body => ')' ∉ body
  | unclosed body => ')' ∉ body ∧ behind = []

/-- Each of some links ends where the next one begins, and the last one where the chain does. -/
def ListEndsBefore (behind : List Char) : List Link → Prop
  | [] => ∀ c ∈ behind.head?, c ≠ '.'
  | link :: later => link.EndsBefore (later.flatMap text ++ behind) ∧ ListEndsBefore behind later

theorem exists_dot {links : List Link} (nonempty : links ≠ []) :
    ∃ others, links.flatMap text = '.' :: others := by
  obtain ⟨link, later, rfl⟩ := List.exists_cons_of_ne_nil nonempty
  cases link <;> exact ⟨_, rfl⟩

theorem head?_flatMap_text (links : List Link) : ∀ c ∈ (links.flatMap text).head?, c = '.' := by
  intro c begins
  cases links with
  | nil => cases begins
  | cons link later =>
    obtain ⟨others, same⟩ := exists_dot (List.cons_ne_nil link later)
    rw [same] at begins
    exact (Option.some.inj begins).symm

theorem eq_nil_of_flatMap_text {links : List Link} (nothing : links.flatMap text = []) :
    links = [] := by
  cases links with
  | nil => rfl
  | cons link later =>
    obtain ⟨others, same⟩ := exists_dot (List.cons_ne_nil link later)
    cases nothing.symm.trans same

theorem chainLength_inLabel {name behind : List Char} (labelled : ∀ c ∈ name, isLabelChar c = true)
    (ends : ∀ c ∈ behind.head?, isLabelChar c = false) :
    chainLength .inLabel (name ++ behind) = name.length + chainLength .betweenElements behind := by
  induction name with
  | nil =>
    rw [List.nil_append, List.length_nil, Nat.zero_add]
    cases behind with
    | nil => rfl
    | cons c rest => simp [chainLength, ends c rfl]
  | cons c name ih =>
    obtain ⟨first, others⟩ := List.forall_mem_cons.mp labelled
    rw [List.cons_append, chainLength, if_pos first, ih others, List.length_cons]
    omega

theorem chainLength_inGroup {body : List Char} (inside : ')' ∉ body) (behind : List Char) :
    chainLength .inGroup (body ++ behind) = body.length + chainLength .inGroup behind := by
  induction body with
  | nil => rw [List.nil_append, List.length_nil, Nat.zero_add]
  | cons c body ih =>
    simp only [List.mem_cons, not_or] at inside
    rw [List.cons_append, chainLength, if_neg (Ne.symm inside.1), ih inside.2, List.length_cons]
    omega

theorem chainLength_text {link : Link} {behind : List Char} (ends : link.EndsBefore behind) :
    chainLength .betweenElements (link.text ++ behind) =
      link.text.length + chainLength .betweenElements behind := by
  cases link with
  | dot =>
    cases behind with
    | nil => rfl
    | cons c rest =>
      obtain ⟨notOpen, notLabel⟩ := ends c rfl
      rw [text, List.singleton_append, chainLength, if_pos rfl, List.length_singleton,
        Nat.add_comm 1]
      simp [chainLength, notOpen, notLabel]
  | label name =>
    obtain ⟨nonempty, labelled, ends⟩ := ends
    obtain ⟨c, others, rfl⟩ := List.exists_cons_of_ne_nil nonempty
    obtain ⟨first, later⟩ := List.forall_mem_cons.mp labelled
    have other : ∀ mark, isLabelChar mark = false → c ≠ mark := fun _ => ne_of_kind first
    have passed : chainLength .betweenElements (text (label (c :: others)) ++ behind) =
        chainLength .inLabel (others ++ behind) + 2 := by
      simp [text, chainLength, other '.' (by decide), other '(' (by decide), first]
    rw [passed, chainLength_inLabel later ends, text, List.length_cons, List.length_cons]
    omega
  | closed body =>
    have passed : chainLength .betweenElements (text (closed body) ++ behind) =
        chainLength .inGroup (body ++ ')' :: behind) + 2 := by
      simp [text, chainLength]
    rw [passed, chainLength_inGroup ends, chainLength, if_pos rfl, text]
    simp only [List.length_cons, List.length_append, List.length_nil]
    omega
  | unclosed body =>
    obtain ⟨inside, rfl⟩ := ends
    have passed : chainLength .betweenElements (text (unclosed body) ++ []) =
        chainLength .inGroup (body ++ []) + 2 := by
      simp [text, chainLength]
    rw [passed, chainLength_inGroup inside]
    rfl

theorem chainLength_flatMap {links : List Link} {behind : List Char}
    (ends : ListEndsBefore behind links) :
    chainLength .betweenElements (links.flatMap text ++ behind) = (links.flatMap text).length := by
  induction links with
  | nil =>
    cases behind with
    | nil => rfl
    | cons c rest => exact if_neg (ends c rfl)
  | cons link later ih =>
    rw [List.flatMap_cons, List.append_assoc, chainLength_text ends.1, ih ends.2,
      List.length_append]

section Unique

variable {link : Link} {links others : List Link} {rest behind : List Char}

theorem ListEndsBefore.endsBefore {before after : List Link}
    (ends : ListEndsBefore behind (before ++ link :: after)) :
    link.EndsBefore (after.flatMap text ++ behind) := by
  induction before with
  | nil => exact ends.1
  | cons first before ih => exact ih ends.2

/-- The link that begins with a dot ahead of some text, and what it leaves of that text. -/
def next (text : List Char) : Link × List Char :=
  if text.head? = some '(' then
    match text.tail.dropWhile (· ≠ ')') with
    | [] => (unclosed text.tail, [])
    | _ :: rest => (closed (text.tail.takeWhile (· ≠ ')')), rest)
  else
    match text.takeWhile isLabelChar with
    | [] => (dot, text)
    | name => (label name, text.dropWhile isLabelChar)

theorem EndsBefore.next_eq (ends : link.EndsBefore rest) :
    ∃ others, link.text ++ rest = '.' :: others ∧ next others = (link, rest) := by
  have inside : ∀ {body : List Char}, ')' ∉ body → ∀ c ∈ body, decide (c ≠ ')') = true := by
    intro body absent c member
    simpa using ne_of_mem_of_not_mem member absent
  cases link with
  | dot =>
    refine ⟨rest, rfl, ?_⟩
    cases rest with
    | nil => rfl
    | cons c rest =>
      obtain ⟨notOpen, notLabel⟩ := ends c rfl
      simp [next, notOpen, notLabel]
  | label name =>
    obtain ⟨nonempty, labelled, ends⟩ := ends
    obtain ⟨c, others, rfl⟩ := List.exists_cons_of_ne_nil nonempty
    refine ⟨c :: others ++ rest, rfl, ?_⟩
    have notOpen : c ≠ '(' := ne_of_kind (labelled c List.mem_cons_self) (by decide)
    have stops : rest.takeWhile isLabelChar = [] ∧ rest.dropWhile isLabelChar = rest := by
      cases rest with
      | nil => exact ⟨rfl, rfl⟩
      | cons d rest => simp [ends d rfl]
    rw [next, if_neg (by simpa using notOpen), List.takeWhile_append_of_pos labelled,
      List.dropWhile_append_of_pos labelled, stops.1, stops.2, List.append_nil]
  | closed body =>
    refine ⟨'(' :: (body ++ ')' :: rest), by simp [text], ?_⟩
    rw [next, List.head?_cons, if_pos rfl, List.tail_cons,
      List.dropWhile_append_of_pos (inside ends), List.takeWhile_append_of_pos (inside ends)]
    simp
  | unclosed body =>
    obtain ⟨absent, rfl⟩ := ends
    refine ⟨'(' :: body, by simp [text], ?_⟩
    have nothing : (body ++ []).dropWhile (· ≠ ')') = [] :=
      List.dropWhile_append_of_pos (inside absent)
    rw [List.append_nil] at nothing
    rw [next, List.head?_cons, if_pos rfl, List.tail_cons, nothing]

theorem ListEndsBefore.unique (ends : ListEndsBefore behind links)
    (too : ListEndsBefore behind others) (same : links.flatMap text = others.flatMap text) :
    links = others := by
  induction links generalizing others with
  | nil => exact (eq_nil_of_flatMap_text same.symm).symm
  | cons link later ih =>
    cases others with
    | nil => exact eq_nil_of_flatMap_text same
    | cons other further =>
      obtain ⟨first, whole, found⟩ := ends.1.next_eq
      obtain ⟨second, wholeToo, foundToo⟩ := too.1.next_eq
      have sameText : first = second := by
        have longer := congrArg (· ++ behind) same
        simp only [List.flatMap_cons, List.append_assoc, whole, wholeToo] at longer
        exact List.tail_eq_of_cons_eq longer
      subst sameText
      obtain ⟨rfl, sameRest⟩ := Prod.mk.inj (found.symm.trans foundToo)
      rw [ih ends.2 too.2 (List.append_cancel_right sameRest)]

end Unique

def Linked (passage behind : List Char) : Prop :=
  ∃ links, passage = links.flatMap text ∧ ListEndsBefore behind links

section Linked

variable {passage behind : List Char}

theorem Linked.cons (later : Linked passage behind) (link : Link)
    (ends : link.EndsBefore (passage ++ behind)) : Linked (link.text ++ passage) behind := by
  obtain ⟨links, rfl, each⟩ := later
  exact ⟨link :: links, rfl, ends, each⟩

theorem linked_nil (stops : ∀ c ∈ behind.head?, c ≠ '.') : Linked [] behind :=
  ⟨[], rfl, stops⟩

theorem linked_single (link : Link) (ends : link.EndsBefore behind)
    (stops : ∀ c ∈ behind.head?, c ≠ '.') : Linked link.text behind := by
  have linked := (linked_nil stops).cons link ends
  rwa [List.append_nil] at linked

end Linked

/-- What a scan at a place within a chain has seen of a link. -/
def Begun : ChainPlace → List Char → Prop
  | .betweenElements, seen => seen = []
  | .afterDot, seen => seen = ['.']
  | .inLabel, seen => ∃ name, seen = '.' :: name ∧ name ≠ [] ∧ ∀ c ∈ name, isLabelChar c = true
  | .inGroup, seen => ∃ body, seen = '.' :: '(' :: body ∧ ')' ∉ body

/-- What a scan passes over from a place on consists of links, together with what it has seen. -/
def Passes (place : ChainPlace) (seen text : List Char) : Prop :=
  Linked (seen ++ text.take (chainLength place text)) (text.drop (chainLength place text))

section Passes

variable {place next : ChainPlace} {seen rest : List Char} {c : Char}

theorem Passes.goesOn (later : Passes next (seen ++ [c]) rest)
    (passed : chainLength place (c :: rest) = chainLength next rest + 1) :
    Passes place seen (c :: rest) := by
  rw [Passes, passed, List.take_succ_cons, List.drop_succ_cons]
  rwa [Passes, List.append_assoc] at later

theorem Passes.completes (later : Passes .afterDot ['.'] rest) (link : Link)
    (ends : link.EndsBefore ('.' :: rest))
    (passed : chainLength place ('.' :: rest) = chainLength .afterDot rest + 1) :
    Passes place link.text ('.' :: rest) := by
  rw [Passes, passed, List.take_succ_cons, List.drop_succ_cons]
  refine Linked.cons later link ?_
  rwa [List.append_assoc, List.take_append_drop]

theorem Passes.closes {body : List Char} (later : Passes .betweenElements [] rest)
    (inside : ')' ∉ body) : Passes .inGroup ('.' :: '(' :: body) (')' :: rest) := by
  have linked := Linked.cons later (.closed body) inside
  have passed : chainLength .inGroup (')' :: rest) = chainLength .betweenElements rest + 1 := rfl
  rw [Passes, passed, List.take_succ_cons, List.drop_succ_cons]
  simpa [text] using linked

theorem passes_of_stop (link : Link) (ends : link.EndsBefore (c :: rest)) (notDot : c ≠ '.')
    (stopped : chainLength place (c :: rest) = 0) : Passes place link.text (c :: rest) := by
  rw [Passes, stopped, List.take_zero, List.drop_zero, List.append_nil]
  exact linked_single link ends (by rintro d ⟨⟩; exact notDot)

theorem passes_nil {place : ChainPlace} (begun : Begun place seen) : Passes place seen [] := by
  rw [Passes, List.take_nil, List.drop_nil, List.append_nil]
  cases place with
  | betweenElements =>
    cases begun
    exact linked_nil nofun
  | afterDot =>
    cases begun
    exact linked_single .dot nofun nofun
  | inLabel =>
    obtain ⟨name, rfl, nonempty, labelled⟩ := begun
    exact linked_single (.label name) ⟨nonempty, labelled, nofun⟩ nofun
  | inGroup =>
    obtain ⟨body, rfl, inside⟩ := begun
    exact linked_single (.unclosed body) ⟨inside, rfl⟩ nofun

end Passes

/-- At every character a scan goes on with a link, completes one, or stops. -/
theorem passes_of_begun {place : ChainPlace} {seen : List Char} (begun : Begun place seen)
    (text : List Char) : Passes place seen text := by
  induction text generalizing place seen with
  | nil => exact passes_nil begun
  | cons c rest ih =>
    have dotBegun : Begun .afterDot ['.'] := rfl
    cases place with
    | betweenElements =>
      cases begun
      by_cases dot : c = '.'
      · subst dot
        exact (ih dotBegun).goesOn (if_pos rfl)
      · rw [Passes, chainLength, if_neg dot]
        exact linked_nil (by rintro d ⟨⟩; exact dot)
    | afterDot =>
      cases begun
      by_cases dot : c = '.'
      · subst dot
        exact (ih dotBegun).completes .dot (by rintro d ⟨⟩; decide) (if_pos rfl)
      by_cases opens : c = '('
      · subst opens
        have opened : Begun .inGroup ['.', '('] := ⟨[], rfl, List.not_mem_nil⟩
        exact (ih opened).goesOn rfl
      by_cases label : isLabelChar c = true
      · have labelled : Begun .inLabel ['.', c] :=
          ⟨[c], rfl, List.cons_ne_nil _ _, List.forall_mem_singleton.mpr label⟩
        refine (ih labelled).goesOn ?_
        rw [chainLength, if_neg dot, if_neg opens, if_pos label]
      · have ends : EndsBefore (c :: rest) .dot := by
          rintro d ⟨⟩
          exact ⟨opens, by simpa using label⟩
        refine passes_of_stop .dot ends dot ?_
        rw [chainLength, if_neg dot, if_neg opens, if_neg label]
    | inLabel =>
      obtain ⟨name, rfl, nonempty, labelled⟩ := begun
      by_cases label : isLabelChar c = true
      · have longer : Begun .inLabel ('.' :: name ++ [c]) :=
          ⟨name ++ [c], rfl, by simp,
            List.forall_mem_append.mpr ⟨labelled, List.forall_mem_singleton.mpr label⟩⟩
        exact (ih longer).goesOn (if_pos label)
      have ends : EndsBefore (c :: rest) (.label name) :=
        ⟨nonempty, labelled, by rintro d ⟨⟩; simpa using label⟩
      by_cases dot : c = '.'
      · subst dot
        exact (ih dotBegun).completes _ ends ((if_neg label).trans (if_pos rfl))
      · exact passes_of_stop _ ends dot ((if_neg label).trans (if_neg dot))
    | inGroup =>
      obtain ⟨body, rfl, inside⟩ := begun
      by_cases closes : c = ')'
      · subst closes
        have between : Begun .betweenElements [] := rfl
        exact (ih between).closes inside
      · have longer : Begun .inGroup ('.' :: '(' :: body ++ [c]) :=
          ⟨body ++ [c], rfl, by simp [inside, Ne.symm closes]⟩
        exact (ih longer).goesOn (if_neg closes)

/-- What is cut out of a text as a chain consists of links, and no link more could be cut out. -/
theorem linked_chain (rest : List Char) :
    Linked ('.' :: rest.take (chainLength .afterDot rest))
      (rest.drop (chainLength .afterDot rest)) :=
  have begun : Begun .afterDot ['.'] := rfl
  passes_of_begun begun rest

end Link

end SentenceGrammar.Token
