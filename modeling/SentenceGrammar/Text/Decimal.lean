/-! Numbers written in decimal digits. -/

namespace SentenceGrammar.Text

/-- The number that decimal digits denote, after the digits that were read before. Nothing but the
ten digits may occur. -/
def readDigits (before : Nat) : List Char → Option Nat
  | [] => some before
  | c :: rest =>
    if c.isDigit then readDigits (10 * before + (c.toNat - '0'.toNat)) rest else none

end SentenceGrammar.Text
