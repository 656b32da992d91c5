import SentenceGrammar.Character.Printable

/-! Texts in quotes, as diagnostics show them: on one line, and with every character that has no
shape of its own escaped. -/

namespace SentenceGrammar.Text

open Character

/-- The digits of a code point in lower-case hexadecimal, without leading zeros. -/
def hexadecimal (code : Nat) : List Char :=
  Nat.toDigits 16 code

def quoteChar (c : Char) : List Char :=
  if c = '\"' then ['\\', '\"']
  else if c = '\\' then ['\\', '\\']
  else if c = '\n' then ['\\', 'n']
  else if c = '\r' then ['\\', 'r']
  else if c = '\t' then ['\\', 't']
  else if c = '\x00' then ['\\', '0']
  else if isPrintable c then [c]
  else ['\\', 'u', '\x7b'] ++ hexadecimal c.toNat ++ ['\x7d']

def quote (text : String) : String :=
  String.ofList ('\"' :: text.toList.flatMap quoteChar ++ ['\"'])

end SentenceGrammar.Text
