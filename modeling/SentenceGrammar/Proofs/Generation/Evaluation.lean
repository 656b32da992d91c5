import SentenceGrammar.Proofs.Generation.Steps

/-! Generation without an index of labels. It comes to the same if each alternative is looked at by
itself, and it can then be computed by unfolding definitions. The index cannot, as its lists are
merged by a recursion that is well-founded only. -/

namespace SentenceGrammar

variable {σ : Type} [RandomSource σ]

def Alternative.expandAdmitted (grammar : Grammar) (limit : Nat) :
    Nat → Symbol → List Alternative → Expansion σ (List Signal)
  | 0, symbol, _ => throw (.limitExceeded symbol limit)
  | room + 1, symbol, alternatives => do
    let admitted := alternatives.filter (← get).active.admitsAlternative
    modify fun run => run.note (.eligible symbol admitted.length alternatives.length)
    let picked ← modifyGet (Run.pick admitted)
    let chosen := picked.elim Alternative.nothing admitted.get
    Part.expandList grammar (expandAdmitted grammar limit room) symbol none chosen.parts

theorem Alternative.expandOne_eq_expandAdmitted (grammar : Grammar) (limit room : Nat) :
    (Alternative.expandOne grammar limit room :
        Symbol → List Alternative → Expansion σ (List Signal)) =
      Alternative.expandAdmitted grammar limit room := by
  have found : Alternative.eligible =
      fun active alternatives => alternatives.filter active.admitsAlternative := by
    funext active alternatives
    exact Alternative.eligible_eq_filter active alternatives
  induction room with
  | zero => rfl
  | succ room ih =>
    funext symbol alternatives
    unfold Alternative.expandOne Alternative.expandAdmitted
    rw [found, ih]

theorem Grammar.generate_eq_expandAdmitted (grammar : Grammar) (settings : Settings) :
    (grammar.generate settings : Expansion σ String) = (do
      modify fun run => run.note (.started grammar.start run.seed)
      let signals ← Alternative.expandAdmitted grammar settings.maxDepth settings.maxDepth
        grammar.start grammar.startAlternatives
      let text := Signal.join signals
      return if settings.trimOutput then Text.trim text else text) := by
  rw [Grammar.generate, Alternative.expandOne_eq_expandAdmitted]

end SentenceGrammar
