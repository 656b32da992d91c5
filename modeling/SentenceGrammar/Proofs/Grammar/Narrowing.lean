import SentenceGrammar.Grammar.Offer
import SentenceGrammar.Proofs.Grammar.Eligibility

/-! Selections from the same alternatives one after the other, and from those that a selection left.
An index that is found at hand is the one that would be built anew, and every step keeps that true.
So what is selected depends on the alternatives on offer and the active labels alone. -/

namespace SentenceGrammar

theorem LabelIndex.positionsWhere_eq_filter (test : Option Label → Bool)
    (earlier alternatives : List Alternative) :
    positionsWhere test earlier.length alternatives =
      (List.range' earlier.length alternatives.length).filter fun position =>
        (earlier ++ alternatives)[position]?.any fun alternative => test alternative.label := by
  induction alternatives generalizing earlier with
  | nil => rfl
  | cons alternative rest ih =>
    have later := ih (earlier ++ [alternative])
    rw [List.length_append, List.length_singleton, List.append_assoc,
      List.singleton_append] at later
    have here : (earlier ++ alternative :: rest)[earlier.length]? = some alternative := by simp
    rw [positionsWhere, later, List.length_cons, List.range'_succ, List.filter_cons, here]
    rfl

namespace Offer

/-- What is done with an offer: a selection from it, after which it stays at hand, or a selection
after which the narrower offer takes its place. -/
inductive Step where
  | select (active : ActiveLabels)
  | narrow (active : ActiveLabels)

def Step.apply : Step → Offer → Offer
  | .select active, offer => (offer.select active).2
  | .narrow active, offer => offer.narrow active

def Step.keeps : Step → Alternative → Bool
  | .select _, _ => true
  | .narrow active, alternative => active.admitsAlternative alternative

def after (offer : Offer) (history : List Step) : Offer :=
  history.foldl (fun offer step => step.apply offer) offer

/-- An index is kept only if it is the one of the alternatives on offer. -/
def Consistent (offer : Offer) : Prop :=
  ∀ index ∈ offer.index, index = .ofAlternatives offer.alternatives

variable {offer : Offer}

theorem consistent_ofAlternatives (alternatives : List Alternative) :
    (ofAlternatives alternatives).Consistent :=
  nofun

theorem Consistent.labelIndex_eq (consistent : offer.Consistent) :
    offer.labelIndex = .ofAlternatives offer.alternatives := by
  rw [labelIndex]
  cases built : offer.index with
  | none => rfl
  | some index => exact consistent index built

theorem Consistent.select_eq (consistent : offer.Consistent) (active : ActiveLabels) :
    (offer.select active).1 = Alternative.eligiblePositions active offer.alternatives := by
  rw [select, Alternative.eligiblePositions, consistent.labelIndex_eq]
  split <;> rfl

theorem Consistent.alternatives_narrow (consistent : offer.Consistent) (active : ActiveLabels) :
    (offer.narrow active).alternatives = Alternative.eligible active offer.alternatives := by
  rw [narrow]
  split
  · rename_i noneActive
    rw [Alternative.eligible_eq_filter, eq_comm, List.filter_eq_self]
    intro alternative _
    rw [ActiveLabels.admitsAlternative]
    cases alternative.label <;> simp [ActiveLabels.admits, noneActive]
  · rw [consistent.select_eq]
    rfl

theorem alternatives_select (active : ActiveLabels) :
    (offer.select active).2.alternatives = offer.alternatives := by
  rw [select]
  split <;> rfl

theorem Consistent.alternatives_apply (consistent : offer.Consistent) (step : Step) :
    (step.apply offer).alternatives = offer.alternatives.filter step.keeps := by
  cases step with
  | select active =>
    rw [Step.apply, alternatives_select]
    exact (List.filter_eq_self.mpr fun _ _ => rfl).symm
  | narrow active =>
    rw [Step.apply, consistent.alternatives_narrow, Alternative.eligible_eq_filter]
    rfl

theorem Consistent.apply (consistent : offer.Consistent) (step : Step) :
    (step.apply offer).Consistent := by
  cases step with
  | select active =>
    rw [Step.apply, select]
    split
    · exact consistent
    · rintro index built
      cases built
      exact consistent.labelIndex_eq
  | narrow active =>
    rw [Step.apply, narrow]
    split
    · exact consistent
    · exact consistent_ofAlternatives _

theorem Consistent.after (consistent : offer.Consistent) (history : List Step) :
    (offer.after history).Consistent ∧
      (offer.after history).alternatives =
        offer.alternatives.filter fun alternative => history.all fun step =>
          step.keeps alternative := by
  -- A step may have replaced the offer, so the history behind it starts from any consistent one.
  induction history generalizing offer with
  | nil => exact ⟨consistent, (List.filter_eq_self.mpr fun _ _ => rfl).symm⟩
  | cons step later ih =>
    obtain ⟨stays, kept⟩ := ih (consistent.apply step)
    refine ⟨stays, kept.trans ?_⟩
    rw [consistent.alternatives_apply, List.filter_filter]
    simp only [List.all_cons, Bool.and_comm]

/-- Whatever was selected before, from these alternatives or from wider ones, a selection finds the
positions of exactly those alternatives on offer that are admitted one by one, each once and in
their order; and an offer is narrowed to the alternatives that are eligible in it. -/
theorem select_after (alternatives : List Alternative) (history : List Step)
    (active : ActiveLabels) :
    let offer := (ofAlternatives alternatives).after history
    offer.alternatives =
        alternatives.filter (fun alternative => history.all fun step => step.keeps alternative) ∧
      (offer.select active).1 =
        (List.range offer.alternatives.length).filter (fun position =>
          offer.alternatives[position]?.any active.admitsAlternative) ∧
      (offer.narrow active).alternatives = offer.alternatives.filter active.admitsAlternative ∧
      (offer.narrow active).alternatives = Alternative.eligible active offer.alternatives := by
  intro offer
  obtain ⟨consistent, kept⟩ := (consistent_ofAlternatives alternatives).after history
  have narrowed := consistent.alternatives_narrow active
  refine ⟨kept, ?_, narrowed.trans (Alternative.eligible_eq_filter active _), narrowed⟩
  rw [consistent.select_eq, Alternative.eligiblePositions_eq, List.range_eq_range']
  exact LabelIndex.positionsWhere_eq_filter active.admits [] offer.alternatives

end Offer

end SentenceGrammar
