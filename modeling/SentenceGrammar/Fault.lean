import SentenceGrammar.File.Fault
import SentenceGrammar.Generation.Expansion
import SentenceGrammar.Grammar.Decoding
import SentenceGrammar.GrammarText.Fault

/-! All the ways in which the program's work can fail, with two wordings: a message for readers, and
a diagnostic that names the kind of fault and quotes what it is about. -/

namespace SentenceGrammar

/-- Why the program's work fails. Faults in settings are not told apart. -/
inductive Fault where
  | file (fault : FileFault)
  | settings
  | grammarText (fault : GrammarTextFault)
  | grammarJson (fault : GrammarJsonFault)
  | expansion (fault : ExpansionFault)
deriving DecidableEq

def GrammarTextFault.message : GrammarTextFault → String
  | syntaxAt position fault =>
    "Parse error at line " ++ toString position.line ++ ", column " ++ toString position.column ++
      ": " ++ fault.message
  | malformedChain malformed =>
    "Malformed label selection `" ++ malformed.text ++ "`: " ++ malformed.fault.reason
  | startUndefined fault => "Invalid grammar: " ++ fault.message

def GrammarTextFault.diagnostic : GrammarTextFault → String
  | syntaxAt position fault =>
    "Parse \x7b line: " ++ toString position.line ++ ", column: " ++ toString position.column ++
      ", message: " ++ Text.quote fault.message ++ " \x7d"
  | malformedChain malformed =>
    "MalformedSelectionChain \x7b chain: " ++ Text.quote malformed.text ++ ", reason: " ++
      Text.quote malformed.fault.reason ++ " \x7d"
  | startUndefined fault => "InvalidGrammar(" ++ Text.quote fault.message ++ ")"

def ExpansionFault.diagnostic : ExpansionFault → String
  | undefinedSymbol symbol active =>
    "UndefinedSymbol \x7b symbol: " ++ Text.quote symbol.name ++ ", environment: " ++
      Text.quote active.text ++ " \x7d"
  | limitExceeded symbol limit =>
    "RecursionLimitExceeded \x7b symbol: " ++ Text.quote symbol.name ++ ", limit: " ++
      toString limit ++ " \x7d"

namespace Fault

/-- The wording of a fault. What is wrong with settings or with the JSON form of a grammar is not
put into words. -/
def message : Fault → Option String
  | file fault => some ("IO error: " ++ fault.message)
  | settings => none
  | grammarText fault => some fault.message
  | grammarJson .unreadable => none
  | grammarJson (.startUndefined fault) => some ("Invalid grammar: " ++ fault.message)
  | expansion fault => some fault.message

def diagnostic : Fault → String
  | file fault => "Io(" ++ fault.diagnostic ++ ")"
  | settings => "Config"
  | grammarText fault => fault.diagnostic
  | grammarJson .unreadable => "InvalidGrammar"
  | grammarJson (.startUndefined fault) => "InvalidGrammar(" ++ Text.quote fault.message ++ ")"
  | expansion fault => fault.diagnostic

end Fault

end SentenceGrammar
