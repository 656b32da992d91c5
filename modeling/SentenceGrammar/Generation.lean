import SentenceGrammar.Generation.Expansion
import SentenceGrammar.Grammar.Settings
import SentenceGrammar.Text.Trim

/-! Generation: the start symbol of a grammar is expanded, and the signals are joined into a text.
-/

namespace SentenceGrammar

variable {σ : Type} [RandomSource σ]

def Grammar.generate (grammar : Grammar) (settings : Settings) : Expansion σ String := do
  modify fun run => run.note (.started grammar.start run.seed)
  let signals ← Alternative.expandOne grammar settings.maxDepth settings.maxDepth grammar.start
    grammar.startAlternatives
  let text := Signal.join signals
  return if settings.trimOutput then Text.trim text else text

end SentenceGrammar
