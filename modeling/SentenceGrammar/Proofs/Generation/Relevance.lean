import SentenceGrammar.Proofs.Generation.Faults

/-! Rules that the start symbol does not lead to have no part in a generation. All that an expansion
refers to is led to, so that two grammars with the same rules for those symbols take the same steps.
-/

namespace SentenceGrammar

variable {σ : Type}

/-- The symbols that the start symbol leads to: itself, and those that are referred to in rules of
symbols that it leads to, at any depth of groups and positional choices. -/
inductive Grammar.LeadsTo (grammar : Grammar) : Symbol → Prop where
  | start : grammar.LeadsTo grammar.start
  | refer {symbol other : Symbol} {alternatives : List Alternative}
    (reached : grammar.LeadsTo symbol) (defined : grammar.lookup symbol = some alternatives)
    (referred : other ∈ Alternative.listReferences alternatives) : grammar.LeadsTo other

theorem Grammar.LeadsTo.induct {grammar : Grammar} {known : Symbol → Prop} {symbol : Symbol}
    (reached : grammar.LeadsTo symbol) (start : known grammar.start)
    (closed : ∀ symbol alternatives, known symbol → grammar.lookup symbol = some alternatives →
      ∀ other ∈ Alternative.listReferences alternatives, known other) : known symbol := by
  induction reached with
  | start => exact start
  | refer reached defined referred ih => exact closed _ _ ih defined _ referred

theorem Grammar.leadsTo_iff {first second : Grammar} (start : second.start = first.start)
    (agree : ∀ symbol, first.LeadsTo symbol → second.lookup symbol = first.lookup symbol)
    (symbol : Symbol) : second.LeadsTo symbol ↔ first.LeadsTo symbol := by
  constructor
  · intro reachedToo
    refine reachedToo.induct (start ▸ .start) ?_
    intro symbol alternatives reached defined other referred
    rw [agree symbol reached] at defined
    exact .refer reached defined referred
  · intro reached
    induction reached with
    | start => exact start ▸ .start
    | refer reached defined referred ih =>
      exact .refer ih ((agree _ reached).trans defined) referred

open Expansion

variable [RandomSource σ]

theorem Expansion.compatible_eq (grammar : Grammar) (property : Atom → Prop) :
    Compatible grammar property fun _ (action other : Expansion σ _) => action = other where
  pure _ := rfl
  bind {_ _ action other next following} first second := by
    funext run
    rw [bind_apply, bind_apply, ← first]
    cases outcome : action run with
    | ok result middle => exact congrFun (second result ⟨run, middle, outcome⟩) middle
    | error fault middle => rfl
  started := rfl
  index _ _ := rfl
  choose _ _ := rfl
  undefined _ _ := rfl
  under _ _ opens := by
    unfold Expansion.under
    rw [opens]

theorem Alternative.expandOne_eq {first second : Grammar} {known : Symbol → Prop}
    (closed : ∀ symbol alternatives, known symbol → first.lookup symbol = some alternatives →
      ∀ other ∈ Alternative.listReferences alternatives, known other)
    (agree : ∀ symbol, known symbol → second.lookup symbol = first.lookup symbol)
    (limit room : Nat) (symbol : Symbol) {alternatives : List Alternative}
    (within : ∀ other ∈ Alternative.listReferences alternatives, known other) :
    (Alternative.expandOne second limit room symbol alternatives : Expansion σ (List Signal)) =
      Alternative.expandOne first limit room symbol alternatives := by
  have agrees : first.AgreesOn (Atom.RefersWithin known) second :=
    fun symbol _ refers => agree symbol (refers symbol List.mem_cons_self)
  have exceeded : ∀ symbol (alternatives : List Alternative),
      (throw (.limitExceeded symbol limit) : Expansion σ (List Signal)) =
        Alternative.expandOne second limit (room - room) symbol alternatives := by
    intro symbol alternatives
    rw [Nat.sub_self]
    rfl
  exact ((compatible_eq first _).expandOne (Atom.hereditary_refersWithin closed) agrees limit limit
    exceeded (Nat.le_refl room) symbol (Alternative.eachAtom_refersWithin within)).symm

/-- Let two grammars have the same start symbol, and the same rule or none for every symbol that it
leads to. Then it leads to the same symbols in both, and every generation has the same outcome and
leaves the same run; rules for other symbols have no part in it. -/
theorem Grammar.generate_eq_of_leadsTo (first second : Grammar)
    (start : second.start = first.start)
    (agree : ∀ symbol, first.LeadsTo symbol → second.lookup symbol = first.lookup symbol) :
    (∀ symbol, second.LeadsTo symbol ↔ first.LeadsTo symbol) ∧
      ∀ (settings : Settings) (run : Run σ),
        second.generate settings run = first.generate settings run := by
  refine ⟨leadsTo_iff start agree, fun settings run => ?_⟩
  have begins : second.startAlternatives = first.startAlternatives := by
    have found := agree first.start .start
    rw [first.lookup_start, ← start, second.lookup_start] at found
    exact Option.some.inj found
  have within : ∀ other ∈ Alternative.listReferences first.startAlternatives,
      first.LeadsTo other :=
    fun other referred => .refer .start first.lookup_start referred
  have opens := Alternative.expandOne_eq (σ := σ)
    (fun symbol alternatives reached defined other referred => .refer reached defined referred)
    agree settings.maxDepth settings.maxDepth first.start within
  unfold generate
  rw [start, begins, opens]

/-- A rule that refers to a symbol with a rule and to one without, and a rule for another symbol. -/
def Grammar.oneUnused : Grammar :=
  ⟨((Rules.empty.insert ⟨"S"⟩ [⟨none, [.spaced (.group [⟨none,
      [.spaced (.positional [.reference ⟨"T"⟩ [], .reference ⟨"U"⟩ []])]⟩] [])]⟩]).insert ⟨"T"⟩
      [⟨none, [.spaced (.terminal "t")]⟩]).insert ⟨"X"⟩ [⟨none, [.spaced (.terminal "x")]⟩],
    ⟨"S"⟩, by decide⟩

def Grammar.othersUnused : Grammar :=
  ⟨(oneUnused.rules.insert ⟨"X"⟩ [⟨none, [.spaced (.reference ⟨"S"⟩ [])]⟩]).insert ⟨"Y"⟩ [],
    ⟨"S"⟩, by decide⟩

theorem Grammar.generate_eq_of_leadsTo_othersUnused :
    othersUnused.start = oneUnused.start ∧
      (∀ symbol, oneUnused.LeadsTo symbol →
        othersUnused.lookup symbol = oneUnused.lookup symbol) ∧
      othersUnused.nonTerminals ≠ oneUnused.nonTerminals ∧
      othersUnused.generate .standard Run.onZeros = oneUnused.generate .standard Run.onZeros := by
  have known : ∀ symbol, oneUnused.LeadsTo symbol →
      symbol = ⟨"S"⟩ ∨ symbol = ⟨"T"⟩ ∨ symbol = ⟨"U"⟩ := by
    intro symbol reached
    apply reached.induct
    · exact .inl rfl
    intro symbol alternatives among defined
    rcases among with rfl | rfl | rfl <;> cases defined <;> decide
  have agree : ∀ symbol, oneUnused.LeadsTo symbol →
      othersUnused.lookup symbol = oneUnused.lookup symbol := by
    intro symbol reached
    rcases known symbol reached with rfl | rfl | rfl <;> rfl
  exact ⟨rfl, agree, by decide, (generate_eq_of_leadsTo oneUnused othersUnused rfl agree).2 _ _⟩

end SentenceGrammar
