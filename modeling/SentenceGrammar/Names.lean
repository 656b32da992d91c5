/-! The two kinds of name in a grammar. A symbol names a rule, and a label marks alternatives that a
selection keeps or drops. Both are opaque: only equality is ever asked of a label, and symbols are
ordered by code point to list them. -/

namespace SentenceGrammar

/-- A non-terminal: the name of a rule. -/
structure Symbol where
  name : String
deriving DecidableEq, Repr, Inhabited

/-- A mark on an alternative, such as a gender or a number, that selections refer to. -/
structure Label where
  name : String
deriving DecidableEq, Repr, Inhabited

namespace Symbol

instance : LT Symbol := ⟨fun first second => first.name < second.name⟩

instance (first second : Symbol) : Decidable (first < second) :=
  inferInstanceAs (Decidable (first.name < second.name))

theorem lt_irrefl (symbol : Symbol) : ¬symbol < symbol :=
  String.lt_irrefl symbol.name

theorem lt_trans {first second third : Symbol} (lower : first < second) (upper : second < third) :
    first < third :=
  String.lt_trans lower upper

theorem lt_of_not_lt_of_ne {first second : Symbol} (above : ¬first < second)
    (different : first ≠ second) : second < first := by
  apply Decidable.byContradiction
  intro below
  have forward : first.name ≤ second.name := String.not_lt.mp below
  have backward : second.name ≤ first.name := String.not_lt.mp above
  have same := String.le_antisymm forward backward
  cases first; cases second
  exact different (congrArg Symbol.mk same)

def insertOrdered (symbol : Symbol) : List Symbol → List Symbol
  | [] => [symbol]
  | first :: rest =>
    if symbol < first then symbol :: first :: rest
    else if symbol = first then first :: rest
    else first :: insertOrdered symbol rest

def ordered (symbols : List Symbol) : List Symbol :=
  symbols.foldr insertOrdered []

theorem mem_insertOrdered {symbol other : Symbol} {symbols : List Symbol} :
    other ∈ insertOrdered symbol symbols ↔ other = symbol ∨ other ∈ symbols := by
  induction symbols with
  | nil => simp [insertOrdered]
  | cons first rest ih =>
    simp only [insertOrdered]
    split
    · simp
    · split
      · rename_i same
        simp [same]
      · simp only [List.mem_cons, ih]
        grind

@[simp] theorem mem_ordered {symbol : Symbol} {symbols : List Symbol} :
    symbol ∈ ordered symbols ↔ symbol ∈ symbols := by
  induction symbols with
  | nil => simp [ordered]
  | cons first rest ih =>
    rw [show ordered (first :: rest) = insertOrdered first (ordered rest) from rfl,
      mem_insertOrdered, ih, List.mem_cons]

end Symbol

end SentenceGrammar
