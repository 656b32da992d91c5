import SentenceGrammar.Grammar.Atom

/-! The rules of a grammar: for each of finitely many symbols a list of alternatives. They are kept
in increasing order of their symbols, so that two sets of rules that answer every lookup alike are
equal. -/

namespace SentenceGrammar

structure Rule where
  symbol : Symbol
  alternatives : List Alternative
deriving DecidableEq

/-- Rules in increasing order of their symbols, one for each symbol. -/
@[ext] structure Rules where
  list : List Rule
  increasing : list.Pairwise fun first second => first.symbol < second.symbol
deriving DecidableEq

namespace Rules

def empty : Rules :=
  ⟨[], List.Pairwise.nil⟩

instance : Inhabited Rules := ⟨empty⟩

def find (symbol : Symbol) : List Rule → Option (List Alternative)
  | [] => none
  | rule :: rest => if rule.symbol = symbol then some rule.alternatives else find symbol rest

def lookup (rules : Rules) (symbol : Symbol) : Option (List Alternative) :=
  find symbol rules.list

def defines (rules : Rules) (symbol : Symbol) : Bool :=
  (rules.lookup symbol).isSome

def symbols (rules : Rules) : List Symbol :=
  rules.list.map Rule.symbol

/-- Puts a rule at its place, instead of the one that has the same symbol. -/
def place (rule : Rule) : List Rule → List Rule
  | [] => [rule]
  | first :: rest =>
    if rule.symbol < first.symbol then rule :: first :: rest
    else if rule.symbol = first.symbol then rule :: rest
    else first :: place rule rest

theorem mem_place {rule other : Rule} {list : List Rule} (member : other ∈ place rule list) :
    other = rule ∨ other ∈ list := by
  induction list with
  | nil => simpa [place] using member
  | cons first rest ih =>
    simp only [place] at member
    split at member
    · simpa using member
    · split at member
      · simp only [List.mem_cons] at member ⊢
        exact member.imp_right Or.inr
      · simp only [List.mem_cons] at member ⊢
        rcases member with same | later
        · exact .inr (.inl same)
        · exact (ih later).imp_right Or.inr

theorem increasing_place {rule : Rule} {list : List Rule}
    (increasing : list.Pairwise fun first second => first.symbol < second.symbol) :
    (place rule list).Pairwise fun first second => first.symbol < second.symbol := by
  induction list with
  | nil => simp [place]
  | cons first rest ih =>
    obtain ⟨least, later⟩ := List.pairwise_cons.mp increasing
    simp only [place]
    split
    · rename_i below
      refine List.pairwise_cons.mpr ⟨?_, increasing⟩
      intro other member
      rcases List.mem_cons.mp member with same | member
      · exact same ▸ below
      · exact Symbol.lt_trans below (least other member)
    · split
      · rename_i same
        exact List.pairwise_cons.mpr ⟨fun other member => same ▸ least other member, later⟩
      · rename_i above different
        refine List.pairwise_cons.mpr ⟨?_, ih later⟩
        intro other member
        rcases mem_place member with same | member
        · exact same ▸ Symbol.lt_of_not_lt_of_ne above different
        · exact least other member

def insert (rules : Rules) (symbol : Symbol) (alternatives : List Alternative) : Rules :=
  ⟨place ⟨symbol, alternatives⟩ rules.list, increasing_place rules.increasing⟩

/-- Adds alternatives after those that a symbol has. A symbol without a rule gets one, even if there
is nothing to add. -/
def extend (rules : Rules) (symbol : Symbol) (alternatives : List Alternative) : Rules :=
  rules.insert symbol ((rules.lookup symbol).getD [] ++ alternatives)

theorem find_place (rule : Rule) (list : List Rule) (symbol : Symbol) :
    find symbol (place rule list) =
      if rule.symbol = symbol then some rule.alternatives else find symbol list := by
  induction list with
  | nil => simp [place, find]
  | cons first rest ih =>
    simp only [place]
    split
    · simp [find]
    · split
      · rename_i same
        simp only [find, same]
        split <;> simp_all
      · rename_i different
        simp only [find, ih]
        split
        · rename_i here
          rw [if_neg fun equal => different (equal.trans here.symm)]
        · rfl

@[simp] theorem lookup_insert (rules : Rules) (symbol other : Symbol)
    (alternatives : List Alternative) :
    (rules.insert symbol alternatives).lookup other =
      if symbol = other then some alternatives else rules.lookup other :=
  find_place _ _ _

@[simp] theorem lookup_empty (symbol : Symbol) : empty.lookup symbol = none := rfl

end Rules

end SentenceGrammar
