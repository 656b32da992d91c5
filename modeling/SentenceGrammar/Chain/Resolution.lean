import SentenceGrammar.Run

/-! The labels that a chain leaves active. A chain is evaluated from right to left on top of the
labels active where it stands, and every list of several labels contributes one of them at random.
-/

namespace SentenceGrammar

variable {σ : Type} [RandomSource σ]

/-- What one selector makes of the active labels. A list of one label draws no random word, and an
empty list changes nothing. -/
def Selector.apply : Selector → ActiveLabels → Run σ → ActiveLabels × Run σ
  | .reset, _, run => (.none, run)
  | .anyOf [], active, run => (active, run)
  | .anyOf (first :: others), active, run =>
    let (chosen, run) := run.index others.length
    (active.insert ((first :: others).get chosen), run)

/-- Applies the selectors of a chain to the given labels, the last selector first. -/
def Chain.applyTo : Chain → ActiveLabels → Run σ → ActiveLabels × Run σ
  | [], active, run => (active, run)
  | selector :: later, active, run =>
    let (active, run) := Chain.applyTo later active run
    selector.apply active run

/-- The labels that a chain makes active here. No scope is opened for them yet. -/
def Chain.resolve (chain : Chain) (run : Run σ) : ActiveLabels × Run σ :=
  chain.applyTo run.active run

theorem Chain.applyTo_append (inner outer : Chain) (active : ActiveLabels) (run : Run σ) :
    (inner ++ outer).applyTo active run =
      inner.applyTo (outer.applyTo active run).1 (outer.applyTo active run).2 := by
  induction inner with
  | nil => rfl
  | cons selector later ih => rw [List.cons_append, applyTo, ih, applyTo]

end SentenceGrammar
