import SentenceGrammar.Grammar.Atom

/-! Splicing. A branch is put together from fragments: single parts, and choices whose alternatives
are spliced in. Every way of choosing one alternative for each choice gives an alternative of its
own, and the choices further to the right vary faster. -/

namespace SentenceGrammar

inductive Fragment where
  | part (part : Part)
  | choice (junction : Junction) (alternatives : List Alternative)
deriving DecidableEq

/-- Glues a sequence on to what stands before it. Without glue its first part keeps its junction. -/
def Part.attach (junction : Junction) : List Part → List Part
  | [] => []
  | first :: rest =>
    match junction with
    | .glue => ⟨.glue, first.atom⟩ :: rest
    | .space => first :: rest

/-- Continues an alternative with a chosen one. A label that is already there stays. -/
def Alternative.continueWith (junction : Junction) (begun chosen : Alternative) : Alternative :=
  ⟨begun.label <|> chosen.label, begun.parts ++ Part.attach junction chosen.parts⟩

def Fragment.extend (begun : List Alternative) : Fragment → List Alternative
  | .part added => begun.map fun alternative => ⟨alternative.label, alternative.parts ++ [added]⟩
  | .choice junction alternatives =>
    begun.flatMap fun alternative => alternatives.map (alternative.continueWith junction)

/-- The alternatives that a branch with the given label and fragments stands for. -/
def Fragment.splice (label : Option Label) (fragments : List Fragment) : List Alternative :=
  fragments.foldl Fragment.extend [⟨label, []⟩]

end SentenceGrammar
