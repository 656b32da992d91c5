import Mathlib.Algebra.BigOperators.Group.List.Basic
import Mathlib.Data.List.Forall2
import Mathlib.Data.List.Lex
import SentenceGrammar.Proofs.GrammarText.Splicing

/-! The order in which splicing makes its alternatives. A way to choose is a position in each of the
choices. The ways come in lexicographic order, and each of them makes one alternative. -/

namespace SentenceGrammar.Fragment

def choices : List Fragment → List (List Alternative)
  | [] => []
  | .part _ :: later => choices later
  | .choice _ alternatives :: later => alternatives :: choices later

/-- What is assembled from fragments by choosing at the given positions: the alternatives that are
chosen, and parts. A single part stays as it is. Of a chosen alternative only the first part is
changed, and only by a glue. -/
inductive Assembles : List Fragment → List Nat → List Alternative → List Part → Prop where
  | nil : Assembles [] [] [] []
  | part {added : Part} {later : List Fragment} {way : List Nat} {chosen : List Alternative}
    {parts : List Part} (after : Assembles later way chosen parts) :
    Assembles (.part added :: later) way chosen (added :: parts)
  | choice {junction : Junction} {alternatives : List Alternative} {later : List Fragment}
    {position : Nat} {way : List Nat} {alternative : Alternative} {chosen : List Alternative}
    {parts : List Part} (taken : alternatives[position]? = some alternative)
    (after : Assembles later way chosen parts) :
    Assembles (.choice junction alternatives :: later) (position :: way) (alternative :: chosen)
      ((alternative.behind junction).parts ++ parts)

def ways : List Nat → List (List Nat)
  | [] => [[]]
  | width :: later => (List.range width).flatMap fun position => (ways later).map (position :: ·)

theorem mem_ways {widths way : List Nat} : way ∈ ways widths ↔ List.Forall₂ (· < ·) way widths := by
  induction widths generalizing way with
  | nil => simp [ways]
  | cons width later ih =>
    simp only [ways, List.mem_flatMap, List.mem_range, List.mem_map, ih]
    constructor
    · rintro ⟨position, inside, rest, others, rfl⟩
      exact .cons inside others
    · intro each
      cases each with
      | cons inside others => exact ⟨_, inside, _, others, rfl⟩

theorem pairwise_ways (widths : List Nat) : (ways widths).Pairwise (· < ·) := by
  induction widths with
  | nil => exact List.pairwise_singleton _ _
  | cons width later ih =>
    refine List.pairwise_flatMap.mpr ⟨fun position _ => ?_, ?_⟩
    · refine List.pairwise_map.mpr (ih.imp ?_)
      exact fun below => List.Lex.cons below
    · refine List.pairwise_lt_range.imp fun below way here other there => ?_
      obtain ⟨rest, _, rfl⟩ := List.mem_map.mp here
      obtain ⟨others, _, rfl⟩ := List.mem_map.mp there
      exact List.Lex.rel below

theorem length_ways (widths : List Nat) : (ways widths).length = widths.prod := by
  induction widths with
  | nil => rfl
  | cons width later ih =>
    simp only [ways, List.length_flatMap, List.length_map, ih]
    simp

theorem forall₂_getElem (alternatives : List Alternative) :
    List.Forall₂ (fun position alternative => alternatives[position]? = some alternative)
      (List.range alternatives.length) alternatives := by
  refine List.forall₂_iff_get.mpr ⟨List.length_range, fun position inside within => ?_⟩
  simp

def Makes (fragments : List Fragment) (way : List Nat) (row : List Alternative) : Prop :=
  ∃ chosen, Assembles fragments way chosen (row.flatMap Alternative.parts) ∧
    row.findSome? Alternative.label = chosen.findSome? Alternative.label

theorem label_behind (junction : Junction) (alternative : Alternative) :
    (alternative.behind junction).label = alternative.label := by
  rcases alternative with ⟨label, _ | ⟨first, later⟩⟩ <;> cases junction <;> rfl

theorem forall₂_makes (fragments : List Fragment) :
    List.Forall₂ (Makes fragments) (ways ((choices fragments).map List.length))
      (Alternative.selections (fragments.map options)) := by
  induction fragments with
  | nil => exact .cons ⟨[], .nil, rfl⟩ .nil
  | cons fragment later ih =>
    cases fragment with
    | part added =>
      simp only [choices, List.map_cons, options, Alternative.selections, List.flatMap_singleton]
      refine List.forall₂_map_right_iff.mpr (ih.imp fun way row made => ?_)
      obtain ⟨chosen, assembled, labels⟩ := made
      exact ⟨chosen, .part assembled, labels⟩
    | choice junction alternatives =>
      simp only [choices, List.map_cons, options, Alternative.selections, List.flatMap_map, ways]
      refine List.rel_flatMap (forall₂_getElem alternatives) fun position alternative taken => ?_
      refine List.forall₂_map_left_iff.mpr (List.forall₂_map_right_iff.mpr (ih.imp ?_))
      rintro way row ⟨chosen, assembled, labels⟩
      refine ⟨alternative :: chosen, .choice taken assembled, ?_⟩
      rw [List.findSome?_cons, List.findSome?_cons, label_behind, labels]

/-- Splicing is the ordered product of the choices. The ways to choose come in lexicographic order,
so that the leftmost choice varies slowest, and each makes one alternative: the parts that are
assembled, under the label of the branch or else the first label among what is chosen. There are as
many alternatives as the product of the numbers of what there is to choose from. -/
theorem splice_ordered_product (label : Option Label) (fragments : List Fragment) :
    ∃ ways : List (List Nat),
      (∀ way, way ∈ ways ↔ List.Forall₂ (· < ·) way ((choices fragments).map List.length)) ∧
      ways.Pairwise (· < ·) ∧
      List.Forall₂ (fun way alternative => ∃ chosen,
          Assembles fragments way chosen alternative.parts ∧
            alternative.label = (label <|> chosen.findSome? Alternative.label))
        ways (splice label fragments) ∧
      (splice label fragments).length = ((choices fragments).map List.length).prod := by
  have makes := forall₂_makes fragments
  refine ⟨ways ((choices fragments).map List.length), fun way => mem_ways, pairwise_ways _, ?_, ?_⟩
  · rw [splice_eq_selections]
    refine List.forall₂_map_right_iff.mpr (makes.imp ?_)
    rintro way row ⟨chosen, assembled, labels⟩
    exact ⟨chosen, assembled, congrArg (label <|> ·) labels⟩
  · rw [splice_eq_selections, List.length_map, ← makes.length_eq, length_ways]

example : splice none [.choice .space [⟨none, [.spaced (.terminal "il")]⟩,
      ⟨some ⟨"P"⟩, [.spaced (.terminal "i")]⟩],
    .choice .glue [⟨some ⟨"S"⟩, [.spaced (.terminal "o")]⟩, ⟨none, [.spaced (.terminal "e")]⟩]] =
    [⟨some ⟨"S"⟩, [.spaced (.terminal "il"), ⟨.glue, .terminal "o"⟩]⟩,
      ⟨none, [.spaced (.terminal "il"), ⟨.glue, .terminal "e"⟩]⟩,
      ⟨some ⟨"P"⟩, [.spaced (.terminal "i"), ⟨.glue, .terminal "o"⟩]⟩,
      ⟨some ⟨"P"⟩, [.spaced (.terminal "i"), ⟨.glue, .terminal "e"⟩]⟩] :=
  rfl

end SentenceGrammar.Fragment
