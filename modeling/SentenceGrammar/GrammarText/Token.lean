/-! The tokens of a grammar text. Words and quotations carry what they stand for; a selection chain
is one token that carries its text as written. -/

namespace SentenceGrammar

/-- A place in a text. Lines and columns count from one, and columns count characters. -/
structure Position where
  line : Nat
  column : Nat
deriving DecidableEq, Repr

namespace Position

def first : Position :=
  ⟨1, 1⟩

/-- The place after a character. Only a line feed begins a new line. -/
def after (position : Position) (c : Char) : Position :=
  if c = '\n' then ⟨position.line + 1, 1⟩ else ⟨position.line, position.column + 1⟩

end Position

inductive Token where
  | word (text : String)
  | quoted (text : String)
  | chain (text : String)
  | define
  | colon
  | semicolon
  | bar
  | openParen
  | closeParen
  | openBracket
  | closeBracket
  | caret
  | comma
  | unfold
deriving DecidableEq, Repr

def Token.description : Token → String
  | word text => "`" ++ text ++ "`"
  | quoted text => "\"" ++ text ++ "\""
  | chain text => "`" ++ text ++ "`"
  | define => "`::=`"
  | colon => "`:`"
  | semicolon => "`;`"
  | bar => "`|`"
  | openParen => "`(`"
  | closeParen => "`)`"
  | openBracket => "`[`"
  | closeBracket => "`]`"
  | caret => "`^`"
  | comma => "`,`"
  | unfold => "`>`"

/-- A token with the place of its first character. -/
structure PlacedToken where
  token : Token
  position : Position
deriving DecidableEq, Repr

end SentenceGrammar
