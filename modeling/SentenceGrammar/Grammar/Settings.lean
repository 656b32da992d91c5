import SentenceGrammar.Json.Reader
import SentenceGrammar.Json.Record

/-! Settings of a generation, and their JSON form. -/

namespace SentenceGrammar

/-- How deep rules and groups may be nested in an expansion, and whether blanks at the ends of the
generated text are removed. -/
structure Settings where
  maxDepth : Nat
  trimOutput : Bool
deriving DecidableEq, Repr

namespace Settings

def standard : Settings :=
  ⟨100, true⟩

instance : Inhabited Settings := ⟨standard⟩

def depthOfJson (json : Json) : Option Nat := do
  let depth ← json.natural
  if depth < UInt64.size then some depth else none

def fieldOr {α : Type} (standard : α) (decode : Json → Option α) : Option Json → Option α
  | none => some standard
  | some json => decode json

/-- Settings are a record, and each field may be left out. -/
def ofJson (json : Json) : Option Settings := do
  match ← json.fields ["max_recursion_depth", "trim_output"] with
  | [depth, trim] =>
    return ⟨← fieldOr standard.maxDepth depthOfJson depth,
      ← fieldOr standard.trimOutput Json.truth trim⟩
  | _ => none

def ofJsonText (text : String) : Option Settings := do
  ofJson (← Json.read text)

end Settings

end SentenceGrammar
