/-! Sets of characters given as increasing ranges of code points. Because the ranges increase, the
search stops at the first range that begins after the character. -/

namespace SentenceGrammar.Character

/-- Membership in a union of ranges, both ends included, that are listed in increasing order. -/
def inRanges : List (Nat × Nat) → Nat → Bool
  | [], _ => false
  | (first, last) :: later, code =>
    if code < first then false else if code ≤ last then true else inRanges later code

theorem exists_of_inRanges {ranges : List (Nat × Nat)} {code : Nat}
    (found : inRanges ranges code = true) :
    ∃ range ∈ ranges, range.1 ≤ code ∧ code ≤ range.2 := by
  induction ranges with
  | nil => simp [inRanges] at found
  | cons range later ih =>
    obtain ⟨first, last⟩ := range
    simp only [inRanges] at found
    split at found
    · simp at found
    · split at found
      · exact ⟨(first, last), by simp, by simp; omega, by simpa⟩
      · obtain ⟨range, mem, bounds⟩ := ih found
        exact ⟨range, List.mem_cons_of_mem _ mem, bounds⟩

/-- Whether no range of one list has a code point in common with a range of the other. -/
def apart (ranges others : List (Nat × Nat)) : Bool :=
  ranges.all fun range => others.all fun other =>
    Nat.blt range.2 other.1 || Nat.blt other.2 range.1

theorem inRanges_eq_false_of_apart {ranges others : List (Nat × Nat)} {code : Nat}
    (separate : apart ranges others = true) (found : inRanges ranges code = true) :
    inRanges others code = false := by
  rw [Bool.eq_false_iff]
  intro foundToo
  obtain ⟨range, mem, above, below⟩ := exists_of_inRanges found
  obtain ⟨other, memToo, aboveToo, belowToo⟩ := exists_of_inRanges foundToo
  have between := List.all_eq_true.mp (List.all_eq_true.mp separate range mem) other memToo
  simp only [Bool.or_eq_true, Nat.blt_eq] at between
  omega

theorem ne_of_kind {kind : Char → Bool} {c other : Char} (member : kind c = true)
    (outside : kind other = false) : c ≠ other := by
  rintro rfl
  exact Bool.false_ne_true (outside.symm.trans member)

end SentenceGrammar.Character
