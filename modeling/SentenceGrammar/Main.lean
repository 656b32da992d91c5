import SentenceGrammar.CommandLine.Transcript
import SentenceGrammar.File.Tree

/-! The command. It reads the files that the options name, and shows the course of the run line by
line: texts on standard output, the log on standard error. -/

namespace SentenceGrammar.CommandLine

/-- The faults with the numbers that the system gives them, of either sign. -/
def faultOfNumber (number : UInt32) : Option FileFault :=
  let faults : List FileFault :=
    [.missing, .permissionDenied, .notDirectory, .isDirectory, .nameTooLong]
  faults.find? fun fault => fault.systemFailure.any fun failure =>
    failure.number = number.toNat ∨ failure.number = (0 - number).toNat

def faultOfFailure (failure : IO.Error) : FileFault :=
  let number : Option UInt32 := match failure with
    | .noFileOrDirectory _ number _ => some number
    | .permissionDenied _ number _ => some number
    | .inappropriateType _ number _ => some number
    | .invalidArgument _ number _ => some number
    | _ => none
  (number.bind faultOfNumber).getD (.unreadable (toString failure))

def readText (name : String) : IO (Except FileFault String) := do
  try
    return (FileTree.file (← IO.FS.readBinFile name)).text
  catch failure =>
    return .error (faultOfFailure failure)

def systemEntropy : IO UInt64 := do
  let bytes ← IO.getRandomBytes 8
  return bytes.toList.foldl (fun word byte => word * 256 + byte.toUInt64) 0

def play : Transcript → IO UInt32
  | .finished => return 0
  | .failed fault => do
    IO.eprintln ("Error: " ++ fault.diagnostic)
    return 1
  | .printed line later => do
    IO.println line
    play (later ())
  | .logged record later => do
    IO.eprintln ("[" ++ record.level.name ++ "] " ++ record.message)
    play (later ())

def run (options : Options) : IO UInt32 := do
  let names := options.grammarFile :: options.config.toList
  let texts ← names.mapM fun name => return (name, ← readText name)
  play (options.transcript (← systemEntropy) fun name =>
    (texts.lookup name).getD (.error .missing))

end SentenceGrammar.CommandLine

open SentenceGrammar.CommandLine in
def main (arguments : List String) : IO UInt32 := do
  match Options.ofArguments arguments with
  | .ok options => run options
  | .error .usage => do
    IO.eprintln usageText
    return 2
  | .error .help => do
    IO.println helpText
    return 0
  | .error .version => do
    IO.println versionText
    return 0
