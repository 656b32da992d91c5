import SentenceGrammar.Names

/-! The labels active at a point of an expansion: a list without repeats, in the order in which the
labels became active. No active label means that nothing is filtered. -/

namespace SentenceGrammar

/-- The labels in force, each once, oldest first. -/
@[ext] structure ActiveLabels where
  labels : List Label
  nodup : labels.Nodup
deriving DecidableEq

namespace ActiveLabels

/-- With no label active every alternative is eligible. -/
def none : ActiveLabels :=
  ⟨[], List.nodup_nil⟩

instance : Inhabited ActiveLabels := ⟨none⟩

/-- Activates a label. One that is active already keeps its place. -/
def insert (active : ActiveLabels) (label : Label) : ActiveLabels :=
  if present : label ∈ active.labels then active
  else ⟨active.labels ++ [label], by
    rw [List.nodup_append]
    refine ⟨active.nodup, by simp, ?_⟩
    intro first member second last
    rw [List.mem_singleton.mp last]
    rintro rfl
    exact present member⟩

def ofList (labels : List Label) : ActiveLabels :=
  labels.foldl insert none

def isNone (active : ActiveLabels) : Bool :=
  active.labels.isEmpty

def contains (active : ActiveLabels) (label : Label) : Bool :=
  label ∈ active.labels

/-- An unlabelled alternative is always admitted, and so is every one while no label is active. -/
def admits (active : ActiveLabels) : Option Label → Bool
  | .none => true
  | .some label => active.isNone || active.contains label

def text (active : ActiveLabels) : String :=
  if active.isNone then "none"
  else String.join (active.labels.map fun label => "." ++ label.name)

theorem mem_insert {active : ActiveLabels} {label other : Label} :
    other ∈ (active.insert label).labels ↔ other ∈ active.labels ∨ other = label := by
  unfold insert
  split
  · rename_i present
    constructor
    · exact Or.inl
    · rintro (member | rfl)
      · exact member
      · exact present
  · simp

end ActiveLabels

end SentenceGrammar
