import SentenceGrammar.GrammarText.Splice
import SentenceGrammar.Proofs.GrammarText.Derivation

/-! Splicing makes one alternative of every selection from the options of its fragments. -/

namespace SentenceGrammar

def Fragment.options : Fragment → List Alternative
  | .part added => [⟨none, [added]⟩]
  | .choice junction alternatives => alternatives.map (Alternative.behind junction)

def Alternative.append (begun : Alternative) (chosen : List Alternative) : Alternative :=
  ⟨begun.label <|> chosen.findSome? label, begun.parts ++ chosen.flatMap parts⟩

namespace Alternative

theorem continueWith_eq_append (junction : Junction) (begun : Alternative) :
    begun.continueWith junction = fun chosen => begun.append [chosen.behind junction] := by
  funext chosen
  rcases chosen with ⟨_ | label, _ | ⟨first, later⟩⟩ <;> cases junction <;>
    simp [continueWith, append, behind, Part.attach]

theorem append_nil (begun : Alternative) : begun.append [] = begun := by
  cases begun
  simp [append]

theorem append_singleton_append (begun first : Alternative) :
    (begun.append [first]).append = fun later => begun.append (first :: later) := by
  funext later
  rcases begun with ⟨_ | label, parts⟩ <;> rcases first with ⟨_ | _, _⟩ <;> simp [append]

end Alternative

namespace Fragment

theorem extend_eq_flatMap (begun : List Alternative) (fragment : Fragment) :
    extend begun fragment =
      begun.flatMap fun alternative =>
        fragment.options.map fun chosen => alternative.append [chosen] := by
  cases fragment with
  | part part =>
    simp [extend, options, Alternative.append, List.map_eq_flatMap]
  | choice junction alternatives =>
    simp [extend, options, Alternative.continueWith_eq_append, Function.comp_def]

theorem foldl_extend (begun : List Alternative) (fragments : List Fragment) :
    fragments.foldl extend begun =
      begun.flatMap fun alternative =>
        (Alternative.selections (fragments.map options)).map alternative.append := by
  induction fragments generalizing begun with
  | nil => simp [Alternative.selections, Alternative.append_nil]
  | cons fragment later ih =>
    rw [List.foldl_cons, ih, extend_eq_flatMap]
    simp only [List.flatMap_assoc, List.flatMap_map, List.map_cons, Alternative.selections,
      List.map_flatMap, List.map_map, Function.comp_def, Alternative.append_singleton_append]

/-- Splicing is the ordered product of the options that the fragments offer. -/
theorem splice_eq_selections (label : Option Label) (fragments : List Fragment) :
    splice label fragments =
      (Alternative.selections (fragments.map options)).map (Alternative.row label) := by
  rw [splice, foldl_extend]
  simp [Alternative.append, Alternative.row]

end Fragment

def Offers (unfold : Junction → Symbol → Fragment) (unfolded : Symbol → List Alternative) : Prop :=
  ∀ junction symbol,
    (unfold junction symbol).options = (unfolded symbol).map (Alternative.behind junction)

end SentenceGrammar
