import SentenceGrammar.Grammar.LabelIndex

/-! Alternatives that are selected from more than once. The first selection that needs an index
builds it, and those after it find it there. -/

namespace SentenceGrammar

/-- The alternatives on offer, with their index once it has been built. -/
structure Offer where
  alternatives : List Alternative
  index : Option LabelIndex
deriving DecidableEq

namespace Offer

def ofAlternatives (alternatives : List Alternative) : Offer :=
  ⟨alternatives, none⟩

def labelIndex (offer : Offer) : LabelIndex :=
  offer.index.getD (.ofAlternatives offer.alternatives)

/-- The positions of the eligible alternatives, and the offer with the index that it took to find
them. While no label is active it takes none. -/
def select (active : ActiveLabels) (offer : Offer) : List Nat × Offer :=
  if active.isNone then (List.range offer.alternatives.length, offer)
  else (offer.labelIndex.select active.labels, { offer with index := some offer.labelIndex })

/-- The offer of the eligible alternatives. While no label is active that is the same offer, with
any index that it has. -/
def narrow (active : ActiveLabels) (offer : Offer) : Offer :=
  if active.isNone then offer
  else
    let table := offer.alternatives.toArray
    ofAlternatives ((offer.select active).1.filterMap fun position => table[position]?)

end Offer

end SentenceGrammar
