import SentenceGrammar.Text.Decimal

/-! The arguments of the command. Options may stand before or after the grammar file, short options
may be run together, and a double hyphen makes all later arguments plain. Arguments are taken from
left to right, and the first one that decides the outcome does. -/

namespace SentenceGrammar.CommandLine

structure Options where
  grammarFile : String
  start : String
  count : Nat
  seed : Option UInt64
  config : Option String
  maxDepth : Option Nat
  dumpJson : Bool
  verbosity : Nat
deriving DecidableEq, Repr

inductive ValueOption where
  | start
  | count
  | seed
  | config
  | maxDepth
deriving DecidableEq, Repr

inductive Flag where
  | dumpJson
  | verbose
  | help
  | version
deriving DecidableEq, Repr

inductive OptionName where
  | value (option : ValueOption)
  | flag (flag : Flag)
deriving DecidableEq, Repr

def longName : String → Option OptionName
  | "start" => some (.value .start)
  | "count" => some (.value .count)
  | "seed" => some (.value .seed)
  | "config" => some (.value .config)
  | "max-depth" => some (.value .maxDepth)
  | "dump-json" => some (.flag .dumpJson)
  | "verbose" => some (.flag .verbose)
  | "help" => some (.flag .help)
  | "version" => some (.flag .version)
  | _ => none

def shortName (letter : Char) : Option OptionName :=
  if letter = 'S' then some (.value .start)
  else if letter = 'n' then some (.value .count)
  else if letter = 'v' then some (.flag .verbose)
  else if letter = 'h' then some (.flag .help)
  else if letter = 'V' then some (.flag .version)
  else none

/-- Why the arguments do not lead to a run: they are wrong, or they ask for something else. -/
inductive Refusal where
  | usage
  | help
  | version
deriving DecidableEq, Repr

structure Draft where
  grammarFile : Option String
  start : Option String
  count : Option Nat
  seed : Option Nat
  config : Option String
  maxDepth : Option Nat
  dumpJson : Bool
  verbosity : Nat
deriving DecidableEq, Repr

def Draft.empty : Draft :=
  ⟨none, none, none, none, none, none, false, 0⟩

/-- A number of at most 64 bits: digits, with a plus sign before them if need be. -/
def readNumber (text : String) : Option Nat := do
  let digits := if text.toList.head? = some '+' then text.toList.tail else text.toList
  if digits.isEmpty then none
  else
    let number ← Text.readDigits 0 digits
    if number < UInt64.size then some number else none

/-- Fills a field that must still be empty. -/
def fill {α : Type} (field : Option α) (value : Option α) : Except Refusal (Option α) :=
  match field, value with
  | none, some value => .ok (some value)
  | _, _ => .error .usage

def readFileName (text : String) : Option String :=
  if text.isEmpty then none else some text

namespace Draft

def addFile (draft : Draft) (name : String) : Except Refusal Draft := do
  return { draft with grammarFile := ← fill draft.grammarFile (readFileName name) }

/-- Takes an option with its value. No option is accepted twice. -/
def addValue (draft : Draft) (option : ValueOption) (text : String) : Except Refusal Draft := do
  match option with
  | .start => return { draft with start := ← fill draft.start (some text) }
  | .count => return { draft with count := ← fill draft.count (readNumber text) }
  | .seed => return { draft with seed := ← fill draft.seed (readNumber text) }
  | .config => return { draft with config := ← fill draft.config (readFileName text) }
  | .maxDepth => return { draft with maxDepth := ← fill draft.maxDepth (readNumber text) }

/-- Takes an option without a value. Only verbosity may be asked for repeatedly. -/
def addFlag (draft : Draft) : Flag → Except Refusal Draft
  | .dumpJson => if draft.dumpJson then .error .usage else .ok { draft with dumpJson := true }
  | .verbose => .ok { draft with verbosity := draft.verbosity + 1 }
  | .help => .error .help
  | .version => .error .version

/-- Takes short options that are run together. The last of them may lack its value, which is then
the next argument; a value that is there may follow an equals sign. -/
def addCluster (draft : Draft) : List Char → Except Refusal (Draft × Option ValueOption)
  | [] => .ok (draft, none)
  | letter :: rest =>
    match shortName letter with
    | none => .error .usage
    | some (.flag flag) => do addCluster (← draft.addFlag flag) rest
    | some (.value option) =>
      match rest with
      | [] => .ok (draft, some option)
      | c :: others => do
        let value := if c = '=' then others else c :: others
        return (← draft.addValue option (String.ofList value), none)

def addLong (draft : Draft) (text : List Char) : Except Refusal (Draft × Option ValueOption) :=
  let name := text.takeWhile (· != '=')
  match longName (String.ofList name), text.drop name.length with
  | none, _ => .error .usage
  | some (.flag flag), [] => do return (← draft.addFlag flag, none)
  | some (.flag _), _ :: _ => .error .usage
  | some (.value option), [] => .ok (draft, some option)
  | some (.value option), _ :: value => do
    return (← draft.addValue option (String.ofList value), none)

def addFiles (draft : Draft) : List String → Except Refusal Draft
  | [] => .ok draft
  | name :: rest => do addFiles (← draft.addFile name) rest

/-- Whether an argument is an option rather than a plain one. A hyphen alone is plain. -/
def isOption (argument : String) : Bool :=
  match argument.toList with
  | '-' :: _ :: _ => true
  | _ => false

def addArgument (draft : Draft) (argument : String) :
    Except Refusal (Draft × Option ValueOption) :=
  match argument.toList with
  | '-' :: '-' :: name => draft.addLong name
  | '-' :: letter :: rest => draft.addCluster (letter :: rest)
  | _ => do return (← draft.addFile argument, none)

/-- Takes all arguments, where an option may be waiting for its value. Another option is no value.
-/
def addAll (draft : Draft) : Option ValueOption → List String → Except Refusal Draft
  | none, [] => .ok draft
  | some _, [] => .error .usage
  | some option, argument :: rest =>
    if isOption argument then .error .usage
    else do addAll (← draft.addValue option argument) none rest
  | none, argument :: rest =>
    if argument = "--" then draft.addFiles rest
    else do
      let (draft, waiting) ← draft.addArgument argument
      addAll draft waiting rest

def finish (draft : Draft) : Except Refusal Options :=
  match draft.grammarFile with
  | none => .error .usage
  | some grammarFile =>
    .ok {
      grammarFile
      start := draft.start.getD "S"
      count := draft.count.getD 1
      seed := draft.seed.map UInt64.ofNat
      config := draft.config
      maxDepth := draft.maxDepth
      dumpJson := draft.dumpJson
      verbosity := draft.verbosity
    }

end Draft

def Options.ofArguments (arguments : List String) : Except Refusal Options := do
  (← Draft.empty.addAll none arguments).finish

end SentenceGrammar.CommandLine
