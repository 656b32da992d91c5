import SentenceGrammar.Main
import SentenceGrammar.Proofs.Generation.Completeness
import SentenceGrammar.Proofs.Grammar.JsonRoundTrip
import SentenceGrammar.Proofs.GrammarText.Inlining
import SentenceGrammar.Proofs.Generation.Sessions
import SentenceGrammar.Proofs.Generation.Faults
import SentenceGrammar.Proofs.Generation.Agreement
import SentenceGrammar.Proofs.Chain.RoundTrip
import SentenceGrammar.Proofs.Grammar.WellFormed
import SentenceGrammar.Proofs.GrammarText.Meaning
import SentenceGrammar.Proofs.GrammarText.Spelling
import SentenceGrammar.Proofs.GrammarText.RoundTrip
import SentenceGrammar.Proofs.Generation.Limits
import SentenceGrammar.Proofs.Generation.Renaming
import SentenceGrammar.Proofs.Generation.Nesting
import SentenceGrammar.Proofs.GrammarText.Folding
import SentenceGrammar.Proofs.Generation.Relevance
import SentenceGrammar.Proofs.Generation.Checks
import SentenceGrammar.Proofs.GrammarText.Reordering
import SentenceGrammar.Proofs.CommandLine.Seeds
import SentenceGrammar.Proofs.Grammar.Narrowing
import SentenceGrammar.Proofs.Chain.Resolution
import SentenceGrammar.Proofs.Chain.Spelling
import SentenceGrammar.Proofs.GrammarText.Tiling
import SentenceGrammar.Proofs.GrammarText.Products
import SentenceGrammar.Proofs.Generation.Columns
import SentenceGrammar.Proofs.GrammarText.Layouts
import SentenceGrammar.Proofs.GrammarText.Prefixes
import SentenceGrammar.Proofs.Random.Uniformity
import SentenceGrammar.Proofs.Grammar.Mentions
import SentenceGrammar.Proofs.Generation.Heights
import SentenceGrammar.Proofs.GrammarText.Parsing
import SentenceGrammar.Proofs.Grammar.JsonDepth
import SentenceGrammar.Proofs.Json.Spelling
import SentenceGrammar.Proofs.Grammar.JsonForms
import SentenceGrammar.Proofs.Generation.Traces
import SentenceGrammar.Proofs.GrammarText.Attachment
import SentenceGrammar.Proofs.GrammarText.ChainTokens
import SentenceGrammar.Proofs.Generation.Silence
