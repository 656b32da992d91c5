import SentenceGrammar.Chain
import SentenceGrammar.Character.Word
import SentenceGrammar.Text.Splitting
import SentenceGrammar.Text.Trim

/-! The written form of a chain, read from left to right. Elements follow each other without a gap:
a bare dot before another dot or the end, a dot and a label, or a dot and a parenthesised list of
labels with blanks allowed around each. -/

namespace SentenceGrammar

open Character Text

inductive ChainFault where
  | expectedDot (found : Char)
  | unterminatedGroup
  | emptyLabel
  | invalidLabel (name : String)
  | unexpected (found : Char)
deriving DecidableEq, Repr

def ChainFault.reason : ChainFault → String
  | .expectedDot found => "expected `.` but found `" ++ found.toString ++ "`"
  | .unterminatedGroup => "unterminated label group"
  | .emptyLabel => "empty label in group"
  | .invalidLabel name => "invalid label `" ++ name ++ "`"
  | .unexpected found => "unexpected `" ++ found.toString ++ "` after `.`"

/-- A text that is not a chain, whole, with the first fault in it. -/
structure MalformedChain where
  text : String
  fault : ChainFault
deriving DecidableEq, Repr

namespace Chain

def readName (padded : List Char) : Except ChainFault Label :=
  let name := trimBlanks padded
  if name.isEmpty then .error .emptyLabel
  else if name.all isLabelChar then .ok ⟨String.ofList name⟩
  else .error (.invalidLabel (String.ofList name))

/-- The names of a parenthesised list; the leftmost fault is the one reported. -/
def readNames : List (List Char) → Except ChainFault (List Label)
  | [] => .ok []
  | padded :: others => do
    let label ← readName padded
    let labels ← readNames others
    return label :: labels

/-- Where a reader stands within a chain. Characters of an unfinished element are kept newest
first. -/
inductive Place where
  | betweenElements
  | afterDot
  | inLabel (seen : List Char)
  | inGroup (seen : List Char)

def single (seen : List Char) : Selector :=
  .anyOf [⟨String.ofList seen.reverse⟩]

def readFrom : Place → List Char → Except ChainFault Chain
  | .betweenElements, [] => .ok []
  | .betweenElements, c :: rest =>
    if c = '.' then readFrom .afterDot rest else .error (.expectedDot c)
  | .afterDot, [] => .ok [.reset]
  | .afterDot, c :: rest =>
    if c = '.' then do
      let chain ← readFrom .afterDot rest
      return .reset :: chain
    else if c = '(' then readFrom (.inGroup []) rest
    else if isLabelChar c then readFrom (.inLabel [c]) rest
    else .error (.unexpected c)
  | .inLabel seen, [] => .ok [single seen]
  | .inLabel seen, c :: rest =>
    if isLabelChar c then readFrom (.inLabel (c :: seen)) rest
    else if c = '.' then do
      let chain ← readFrom .afterDot rest
      return single seen :: chain
    else .error (.expectedDot c)
  | .inGroup _, [] => .error .unterminatedGroup
  | .inGroup seen, c :: rest =>
    if c = ')' then do
      let labels ← readNames (splitAt '|' seen.reverse)
      let chain ← readFrom .betweenElements rest
      return .anyOf labels :: chain
    else readFrom (.inGroup (c :: seen)) rest

/-- The chain that a text spells. The empty text spells the empty chain. -/
def read (text : String) : Except MalformedChain Chain :=
  (readFrom .betweenElements text.toList).mapError fun fault => ⟨text, fault⟩

end Chain

end SentenceGrammar
