import SentenceGrammar.GrammarText.Lexer
import SentenceGrammar.GrammarText.Reader
import SentenceGrammar.GrammarText.Unfolding

/-! From the text of a grammar to the grammar. -/

namespace SentenceGrammar

def Definition.ofText (text : String) : Except GrammarTextFault (List Definition) := do
  Definition.ofTokens (← Token.tokenize text)

def GrammarReading.ofResult (definitions : Except GrammarTextFault (List Definition))
    (start : Symbol) : GrammarReading :=
  match definitions with
  | .ok definitions => .ofDefinitions definitions start
  | .error fault => ⟨.error fault, []⟩

def GrammarReading.ofTokens (tokens : List PlacedToken) (start : Symbol) : GrammarReading :=
  .ofResult (Definition.ofTokens tokens) start

def GrammarReading.ofText (text : String) (start : Symbol) : GrammarReading :=
  .ofResult (Definition.ofText text) start

def Grammar.ofTokens (tokens : List PlacedToken) (start : Symbol) :
    Except GrammarTextFault Grammar :=
  (GrammarReading.ofTokens tokens start).result

def Grammar.ofText (text : String) (start : Symbol) : Except GrammarTextFault Grammar :=
  (GrammarReading.ofText text start).result

end SentenceGrammar
