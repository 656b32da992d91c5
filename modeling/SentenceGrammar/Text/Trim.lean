import SentenceGrammar.Character.Blank

/-! Removal of blanks at both ends of a text. -/

namespace SentenceGrammar.Text

open Character

def trimBlanks (text : List Char) : List Char :=
  ((text.dropWhile isBlank).reverse.dropWhile isBlank).reverse

theorem dropWhile_of_visible {text : List Char} (visible : ∀ c ∈ text.head?, isBlank c = false) :
    text.dropWhile isBlank = text := by
  cases text with
  | nil => rfl
  | cons c rest => exact List.dropWhile_cons_of_neg (by simp [visible c rfl])

theorem dropWhile_blank_append {gap : List Char} (blank : ∀ c ∈ gap, isBlank c = true)
    (rest : List Char) : (gap ++ rest).dropWhile isBlank = rest.dropWhile isBlank :=
  List.dropWhile_append_of_pos blank

theorem trimBlanks_padded {before text after : List Char}
    (blankBefore : ∀ c ∈ before, isBlank c = true) (visible : ∀ c ∈ text, isBlank c = false)
    (blankAfter : ∀ c ∈ after, isBlank c = true) :
    trimBlanks (before ++ text ++ after) = text := by
  have blankBehind : ∀ c ∈ after.reverse, isBlank c = true :=
    fun c member => blankAfter c (List.mem_reverse.mp member)
  rw [trimBlanks, List.append_assoc, dropWhile_blank_append blankBefore]
  cases text with
  | nil =>
    have nothing := dropWhile_blank_append blankAfter []
    rw [List.append_nil] at nothing
    rw [List.nil_append, nothing]
    rfl
  | cons c rest =>
    have first : ∀ d ∈ (c :: rest ++ after).head?, isBlank d = false := by
      rintro d ⟨⟩
      exact visible c List.mem_cons_self
    have last : ∀ d ∈ (c :: rest).reverse.head?, isBlank d = false :=
      fun d begins => visible d (List.mem_reverse.mp (List.mem_of_head? begins))
    rw [dropWhile_of_visible first, List.reverse_append, dropWhile_blank_append blankBehind,
      dropWhile_of_visible last, List.reverse_reverse]

theorem trimBlanks_of_visible {text : List Char} (visible : ∀ c ∈ text, isBlank c = false) :
    trimBlanks text = text := by
  have nothing : ∀ c ∈ [], isBlank c = true := List.forall_mem_nil _
  have padded := trimBlanks_padded nothing visible nothing
  rwa [List.nil_append, List.append_nil] at padded

theorem exists_padding (text : List Char) :
    ∃ before after, text = before ++ trimBlanks text ++ after ∧
      (∀ c ∈ before, isBlank c = true) ∧ ∀ c ∈ after, isBlank c = true := by
  refine ⟨text.takeWhile isBlank,
    ((text.dropWhile isBlank).reverse.takeWhile isBlank).reverse, ?_, ?_, ?_⟩
  · rw [trimBlanks, List.append_assoc, ← List.reverse_append, List.takeWhile_append_dropWhile,
      List.reverse_reverse, List.takeWhile_append_dropWhile]
  · exact List.all_eq_true.mp List.all_takeWhile
  · intro c member
    exact List.all_eq_true.mp List.all_takeWhile c (List.mem_reverse.mp member)

def trim (text : String) : String :=
  String.ofList (trimBlanks text.toList)

end SentenceGrammar.Text
