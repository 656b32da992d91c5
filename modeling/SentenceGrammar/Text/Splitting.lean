/-! Cutting a text at every occurrence of a mark. -/

namespace SentenceGrammar.Text

/-- The stretches between marks; there is one more of them than there are marks. -/
def splitAt (mark : Char) : List Char → List (List Char)
  | [] => [[]]
  | c :: rest =>
    if c = mark then [] :: splitAt mark rest
    else match splitAt mark rest with
      | [] => [[c]]
      | first :: others => (c :: first) :: others

theorem splitAt_ne_nil (mark : Char) (text : List Char) : splitAt mark text ≠ [] := by
  cases text with
  | nil => simp [splitAt]
  | cons c rest =>
    simp only [splitAt]
    split
    · simp
    · split <;> simp

theorem splitAt_of_notMem {mark : Char} {text : List Char} (absent : mark ∉ text) :
    splitAt mark text = [text] := by
  induction text with
  | nil => rfl
  | cons c rest ih =>
    simp only [List.mem_cons, not_or] at absent
    simp [splitAt, Ne.symm absent.1, ih absent.2]

theorem splitAt_append_cons {mark : Char} {first : List Char} (absent : mark ∉ first)
    (rest : List Char) : splitAt mark (first ++ mark :: rest) = first :: splitAt mark rest := by
  induction first with
  | nil => simp [splitAt]
  | cons c first ih =>
    simp only [List.mem_cons, not_or] at absent
    simp [splitAt, Ne.symm absent.1, ih absent.2]

theorem splitAt_intercalate {mark : Char} {stretches : List (List Char)} (some : stretches ≠ [])
    (absent : ∀ stretch ∈ stretches, mark ∉ stretch) :
    splitAt mark ([mark].intercalate stretches) = stretches := by
  induction stretches with
  | nil => exact absurd rfl some
  | cons first others ih =>
    obtain ⟨here, later⟩ := List.forall_mem_cons.mp absent
    cases others with
    | nil => rw [List.intercalate_singleton, splitAt_of_notMem here]
    | cons second others =>
      rw [List.intercalate_cons_cons, List.append_assoc, List.singleton_append,
        splitAt_append_cons here, ih (List.cons_ne_nil _ _) later]

theorem intercalate_splitAt (mark : Char) (text : List Char) :
    [mark].intercalate (splitAt mark text) = text := by
  induction text with
  | nil => rfl
  | cons c rest ih =>
    rw [splitAt]
    split
    · rename_i here
      rw [List.intercalate_cons_of_ne_nil (splitAt_ne_nil mark rest), ih, here]
      rfl
    · cases stretches : splitAt mark rest with
      | nil => exact absurd stretches (splitAt_ne_nil mark rest)
      | cons first others =>
        rw [stretches] at ih
        rw [← ih]
        cases others with
        | nil => simp only [List.intercalate_singleton]
        | cons second others => simp only [List.intercalate_cons_cons, List.cons_append]

theorem notMem_intercalate {mark c : Char} {stretches : List (List Char)} (other : c ≠ mark)
    (absent : ∀ stretch ∈ stretches, c ∉ stretch) : c ∉ [mark].intercalate stretches := by
  induction stretches with
  | nil => exact List.not_mem_nil
  | cons first others ih =>
    obtain ⟨here, later⟩ := List.forall_mem_cons.mp absent
    cases others with
    | nil => rwa [List.intercalate_singleton]
    | cons second others =>
      rw [List.intercalate_cons_cons, List.append_assoc, List.singleton_append, List.mem_append,
        List.mem_cons]
      exact not_or.mpr ⟨here, not_or.mpr ⟨other, ih later⟩⟩

end SentenceGrammar.Text
