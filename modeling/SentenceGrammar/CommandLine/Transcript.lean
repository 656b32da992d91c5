import SentenceGrammar.CommandLine.Options
import SentenceGrammar.Fault
import SentenceGrammar.Generation
import SentenceGrammar.Grammar.Encoding
import SentenceGrammar.Grammar.Settings
import SentenceGrammar.GrammarText

/-! What a run of the command prints and logs, one entry after the other. Later entries are computed
only when they are asked for, so that a long run can be shown while it goes on. -/

namespace SentenceGrammar.CommandLine

/-- The course of a run, to its end or to the fault that ends it. -/
inductive Transcript where
  | finished
  | failed (fault : Fault)
  | printed (line : String) (later : Unit → Transcript)
  | logged (record : LogRecord) (later : Unit → Transcript)

structure Report where
  printed : List String
  logged : List LogRecord
  fault : Option Fault
deriving DecidableEq

namespace Transcript

def report : Transcript → Report
  | finished => ⟨[], [], none⟩
  | failed fault => ⟨[], [], some fault⟩
  | printed line later =>
    let report := (later ()).report
    { report with printed := line :: report.printed }
  | logged record later =>
    let report := (later ()).report
    { report with logged := record :: report.logged }

end Transcript

namespace Report

def exitCode (report : Report) : Nat :=
  match report.fault with
  | none => 0
  | some _ => 1

def output (report : Report) : String :=
  String.join (report.printed.map (· ++ "\n"))

end Report

namespace Options

/-- Verbosity shows generated texts with their seeds, then the log down to debugging, then all of
it. -/
def shows (options : Options) (level : Level) : Bool :=
  match options.verbosity with
  | 0 | 1 => level.rank ≤ Level.warn.rank
  | 2 => level.rank ≤ Level.debug.rank
  | _ => true

def logAll (options : Options) (events : List Event) (later : Transcript) : Transcript :=
  match events with
  | [] => later
  | event :: rest =>
    if options.shows event.level then .logged event.record fun _ => options.logAll rest later
    else options.logAll rest later

def line (options : Options) (seed : UInt64) (text : String) : String :=
  if options.verbosity = 0 then text else "[" ++ toString seed.toNat ++ "] " ++ text

/-- The seed of a generation, counted from zero: given seeds go up by one and wrap around, and
without a given seed the seeds are drawn from a stream of their own. -/
def seedAt (options : Options) (entropy : UInt64) (index : Nat) : UInt64 :=
  match options.seed with
  | some seed => seed + UInt64.ofNat index
  | none => ((Keystream.ofSeed entropy).seekTo index).word

def generations (options : Options) (entropy : UInt64) (grammar : Grammar) (settings : Settings) :
    (count : Nat) → (index : Nat) → Transcript
  | 0, _ => .finished
  | count + 1, index =>
    let seed := options.seedAt entropy index
    match grammar.generate settings (Run.ofSeed seed) with
    | .ok text run =>
      options.logAll run.log <| options.logAll [.generated seed] <|
        .printed (options.line seed text) fun _ =>
          options.generations entropy grammar settings count (index + 1)
    | .error fault run => options.logAll run.log (.failed (.expansion fault))

/-- The settings that the options ask for. A depth limit among the options has precedence. -/
def settings (options : Options) (files : String → Except FileFault String) :
    Except Fault Settings := do
  let base ← match options.config with
    | none => pure Settings.standard
    | some name => do
      let text ← (files name).mapError .file
      match Settings.ofJsonText text with
      | some settings => pure settings
      | none => throw .settings
  return { base with maxDepth := options.maxDepth.getD base.maxDepth }

/-- The course of a run with the given files. The entropy matters only where no seed is given. -/
def transcript (options : Options) (entropy : UInt64) (files : String → Except FileFault String) :
    Transcript :=
  match options.settings files with
  | .error fault => .failed fault
  | .ok settings =>
    match files options.grammarFile with
    | .error fault => .failed (.file fault)
    | .ok text =>
      let reading := GrammarReading.ofText text ⟨options.start⟩
      options.logAll reading.events <|
        match reading.result with
        | .error fault => .failed (.grammarText fault)
        | .ok grammar =>
          options.logAll [.loaded grammar.nonTerminals.length options.grammarFile] <|
            options.logAll (grammar.undefinedSymbols.map .undefinedReference) <|
              if options.dumpJson then .printed grammar.toJsonText fun _ => .finished
              else options.generations entropy grammar settings options.count 0

end Options

def usageText : String :=
  "Usage: polygen [OPTIONS] <GRAMMAR_FILE>"

def helpText : String :=
  "\n".intercalate [
    "A label-aware random sentence generator",
    "",
    usageText,
    "",
    "Arguments:",
    "  <GRAMMAR_FILE>  Path to the grammar file",
    "",
    "Options:",
    "  -S, --start <START>          The starting non-terminal symbol [default: S]",
    "  -n, --count <COUNT>          Number of texts to generate [default: 1]",
    "      --seed <SEED>            Seed of the first generation; later ones count up from it",
    "      --config <CONFIG>        JSON file with generation settings",
    "      --max-depth <MAX_DEPTH>  Override the maximum expansion depth",
    "      --dump-json              Print the parsed grammar as JSON instead of generating",
    "  -v, --verbose...             Print the seed next to each text (repeat to log more)",
    "  -h, --help                   Print help",
    "  -V, --version                Print version"]

def versionText : String :=
  "polygen 0.1.0"

end SentenceGrammar.CommandLine
