import SentenceGrammar.Character.Alphanumeric
import SentenceGrammar.Character.Blank
import SentenceGrammar.Character.Uppercase

/-! The characters of which names and unquoted words are made. -/

namespace SentenceGrammar.Character

/-- Labels are runs of letters, digits and underscores. -/
def isLabelChar (c : Char) : Bool :=
  isAlphanumeric c || c == '_'

/-- Words may contain apostrophes besides the characters of labels. -/
def isWordChar (c : Char) : Bool :=
  isLabelChar c || c == '\''

theorem isWordChar_of_isLabelChar {c : Char} (label : isLabelChar c = true) :
    isWordChar c = true := by
  simp [isWordChar, label]

theorem apart_blankRanges : apart blankRanges alphanumericRanges = true := by
  decide +kernel

theorem isWordChar_eq_false_of_isBlank {c : Char} (blank : isBlank c = true) :
    isWordChar c = false := by
  have notAlphanumeric : isAlphanumeric c = false :=
    inRanges_eq_false_of_apart apart_blankRanges blank
  have notUnderscore : c ≠ '_' := ne_of_kind blank (by decide)
  have notApostrophe : c ≠ '\'' := ne_of_kind blank (by decide)
  simp [isWordChar, isLabelChar, notAlphanumeric, notUnderscore, notApostrophe]

theorem isBlank_eq_false_of_isWordChar {c : Char} (word : isWordChar c = true) :
    isBlank c = false := by
  rw [Bool.eq_false_iff]
  intro blank
  simp [isWordChar_eq_false_of_isBlank blank] at word

theorem isLabelChar_eq_false_of_isBlank {c : Char} (blank : isBlank c = true) :
    isLabelChar c = false := by
  rw [Bool.eq_false_iff]
  intro label
  simp [isBlank_eq_false_of_isWordChar (isWordChar_of_isLabelChar label)] at blank

/-- A word that begins with an uppercase character names a non-terminal. -/
def startsUppercase (word : List Char) : Bool :=
  word.head?.any isUppercase

end SentenceGrammar.Character
