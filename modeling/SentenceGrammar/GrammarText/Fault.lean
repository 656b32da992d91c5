import SentenceGrammar.Chain.Reading
import SentenceGrammar.Grammar.Basic
import SentenceGrammar.GrammarText.Token

/-! What can be wrong with a grammar text. -/

namespace SentenceGrammar

/-- A fault at some place of a text. Where something else was found, an absent token stands for the
end of the text. -/
inductive SyntaxFault where
  | unexpectedCharacter (found : Char)
  | unterminatedComment
  | unterminatedQuotation
  | expectedName (found : Option Token)
  | definedTwice (symbol : Symbol)
  | expectedToken (wanted : Token) (found : Option Token)
  | emptyAlternative
  | expectedAtom (found : Option Token)
  | undefinedUnfold (symbol : Symbol)
  | unfoldWithChain
  | unfoldOfOther
deriving DecidableEq, Repr

def Token.descriptionOrEnd : Option Token → String
  | none => "end of input"
  | some token => token.description

def SyntaxFault.message : SyntaxFault → String
  | unexpectedCharacter found => "unexpected character `" ++ found.toString ++ "`"
  | unterminatedComment => "unterminated comment"
  | unterminatedQuotation => "unterminated quoted terminal"
  | expectedName found => "expected a non-terminal name but found " ++ Token.descriptionOrEnd found
  | definedTwice symbol => "`" ++ symbol.name ++ "` is defined more than once"
  | expectedToken wanted found =>
    "expected " ++ wanted.description ++ " but found " ++ Token.descriptionOrEnd found
  | emptyAlternative => "empty alternative, write `_` to generate nothing"
  | expectedAtom found => "expected an atom but found " ++ Token.descriptionOrEnd found
  | undefinedUnfold symbol => "cannot unfold undefined `" ++ symbol.name ++ "`"
  | unfoldWithChain => "an unfolded atom cannot carry a selection"
  | unfoldOfOther => "only groups and non-terminals can be unfolded"

inductive GrammarTextFault where
  | syntaxAt (position : Position) (fault : SyntaxFault)
  | malformedChain (malformed : MalformedChain)
  | startUndefined (fault : StartUndefined)
deriving DecidableEq, Repr

end SentenceGrammar
