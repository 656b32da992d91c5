import SentenceGrammar.Character.Ranges

/-! The White_Space property: the characters that separate tokens and that trimming removes. -/

namespace SentenceGrammar.Character

/-- The code points with the White_Space property, as increasing ranges. -/
def blankRanges : List (Nat × Nat) := [
  (0x0009, 0x000d), (0x0020, 0x0020), (0x0085, 0x0085), (0x00a0, 0x00a0), (0x1680, 0x1680),
  (0x2000, 0x200a), (0x2028, 0x2029), (0x202f, 0x202f), (0x205f, 0x205f), (0x3000, 0x3000)]

def isBlank (c : Char) : Bool :=
  inRanges blankRanges c.toNat

end SentenceGrammar.Character
