import SentenceGrammar.Text.Quoted

/-! What can keep a file from being read. Failures that the system reports have a number and a kind
besides their description. -/

namespace SentenceGrammar

inductive FileFault where
  | missing
  | permissionDenied
  | notDirectory
  | isDirectory
  | nameTooLong
  | notUtf8
  | unreadable (description : String)
deriving DecidableEq, Repr

structure SystemFailure where
  number : Nat
  kind : String
  description : String
deriving DecidableEq, Repr

namespace SystemFailure

def message (failure : SystemFailure) : String :=
  failure.description ++ " (os error " ++ toString failure.number ++ ")"

def diagnostic (failure : SystemFailure) : String :=
  "Os \x7b code: " ++ toString failure.number ++ ", kind: " ++ failure.kind ++ ", message: " ++
    Text.quote failure.description ++ " \x7d"

end SystemFailure

namespace FileFault

/-- The failure that the system reports for a fault. A text that is not valid was read without one.
-/
def systemFailure : FileFault → Option SystemFailure
  | missing => some ⟨2, "NotFound", "No such file or directory"⟩
  | permissionDenied => some ⟨13, "PermissionDenied", "Permission denied"⟩
  | notDirectory => some ⟨20, "NotADirectory", "Not a directory"⟩
  | isDirectory => some ⟨21, "IsADirectory", "Is a directory"⟩
  | nameTooLong => some ⟨36, "InvalidFilename", "File name too long"⟩
  | notUtf8 | unreadable _ => none

def message (fault : FileFault) : String :=
  match fault.systemFailure, fault with
  | some failure, _ => failure.message
  | none, unreadable description => description
  | none, _ => "stream did not contain valid UTF-8"

def diagnostic (fault : FileFault) : String :=
  match fault.systemFailure, fault with
  | some failure, _ => failure.diagnostic
  | none, unreadable description =>
    "Custom \x7b kind: Other, error: " ++ Text.quote description ++ " \x7d"
  | none, _ =>
    "Error \x7b kind: InvalidData, message: " ++
      Text.quote "stream did not contain valid UTF-8" ++ " \x7d"

end FileFault

end SentenceGrammar
