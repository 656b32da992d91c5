import SentenceGrammar.Grammar.Basic

/-! Rules are determined by what they answer when symbols are looked up. In a list in which no
symbol has two rules it does not matter in which order they stand. -/

namespace SentenceGrammar

namespace Symbol

theorem nodup_of_increasing {symbols : List Symbol}
    (increasing : symbols.Pairwise fun first second => first < second) : symbols.Nodup := by
  apply increasing.imp
  intro symbol other below same
  exact lt_irrefl _ (same ▸ below)

theorem eq_of_increasing {first second : List Symbol}
    (increasing : first.Pairwise fun first second => first < second)
    (increasingToo : second.Pairwise fun first second => first < second)
    (same : ∀ symbol, symbol ∈ first ↔ symbol ∈ second) : first = second := by
  have members : first.Perm second := (List.perm_ext_iff_of_nodup
    (nodup_of_increasing increasing) (nodup_of_increasing increasingToo)).mpr same
  refine members.eq_of_pairwise ?_ increasing increasingToo
  intro symbol other _ _ below above
  exact absurd (lt_trans below above) (lt_irrefl _)

end Symbol

namespace Rules

theorem mem_of_find {symbol : Symbol} {alternatives : List Alternative} {list : List Rule}
    (found : find symbol list = some alternatives) : ⟨symbol, alternatives⟩ ∈ list := by
  induction list with
  | nil => cases found
  | cons first rest ih =>
    simp only [find] at found
    split at found
    · rename_i same
      cases found
      rw [← same]
      exact List.mem_cons_self
    · exact List.mem_cons_of_mem _ (ih found)

theorem find_of_mem {rule : Rule} {list : List Rule} (distinct : (list.map Rule.symbol).Nodup)
    (member : rule ∈ list) : find rule.symbol list = some rule.alternatives := by
  induction list with
  | nil => cases member
  | cons first rest ih =>
    obtain ⟨absent, later⟩ := List.nodup_cons.mp distinct
    rcases List.mem_cons.mp member with same | member
    · rw [same, find, if_pos rfl]
    · have different : first.symbol ≠ rule.symbol := by
        intro equal
        exact absent (equal ▸ List.mem_map_of_mem member)
      rw [find, if_neg different, ih later member]

theorem find_eq_some_iff {symbol : Symbol} {alternatives : List Alternative} {list : List Rule}
    (distinct : (list.map Rule.symbol).Nodup) :
    find symbol list = some alternatives ↔ ⟨symbol, alternatives⟩ ∈ list :=
  ⟨mem_of_find, fun member => find_of_mem distinct member⟩

theorem find_eq_of_perm {first second : List Rule} (reordered : first.Perm second)
    (distinct : (first.map Rule.symbol).Nodup) (symbol : Symbol) :
    find symbol first = find symbol second := by
  have distinctToo : (second.map Rule.symbol).Nodup :=
    (reordered.map Rule.symbol).nodup_iff.mp distinct
  apply Option.ext
  intro alternatives
  rw [find_eq_some_iff distinct, find_eq_some_iff distinctToo, reordered.mem_iff]

theorem find_eq_none {symbol : Symbol} {list : List Rule}
    (absent : symbol ∉ list.map Rule.symbol) : find symbol list = none := by
  rw [Option.eq_none_iff_forall_ne_some]
  intro alternatives found
  exact absent (List.mem_map_of_mem (mem_of_find found))

theorem increasing_symbols (rules : Rules) :
    rules.symbols.Pairwise fun first second => first < second :=
  List.pairwise_map.mpr rules.increasing

theorem nodup_symbols (rules : Rules) : rules.symbols.Nodup :=
  Symbol.nodup_of_increasing rules.increasing_symbols

theorem nodup_list (rules : Rules) : rules.list.Nodup :=
  List.Pairwise.of_map Rule.symbol (fun _ _ different same => different (same ▸ rfl))
    rules.nodup_symbols

theorem mem_list_iff {rules : Rules} {rule : Rule} :
    rule ∈ rules.list ↔ rules.lookup rule.symbol = some rule.alternatives :=
  (find_eq_some_iff rules.nodup_symbols).symm

theorem mem_symbols_iff {rules : Rules} {symbol : Symbol} :
    symbol ∈ rules.symbols ↔ rules.defines symbol = true := by
  constructor
  · intro member
    obtain ⟨rule, listed, rfl⟩ := List.mem_map.mp member
    rw [defines, mem_list_iff.mp listed, Option.isSome_some]
  · intro defined
    obtain ⟨alternatives, found⟩ := Option.isSome_iff_exists.mp defined
    exact List.mem_map_of_mem (mem_of_find found)

theorem symbols_eq_of_defines {first second : Rules}
    (same : ∀ symbol, first.defines symbol = true ↔ second.defines symbol = true) :
    first.symbols = second.symbols := by
  apply Symbol.eq_of_increasing first.increasing_symbols second.increasing_symbols
  intro symbol
  rw [mem_symbols_iff, mem_symbols_iff, same]

theorem eq_of_lookup {first second : Rules}
    (same : ∀ symbol, first.lookup symbol = second.lookup symbol) : first = second := by
  have members : first.list.Perm second.list := by
    rw [List.perm_ext_iff_of_nodup first.nodup_list second.nodup_list]
    intro rule
    rw [mem_list_iff, mem_list_iff, same]
  apply Rules.ext
  refine members.eq_of_pairwise ?_ first.increasing second.increasing
  intro rule other _ _ below above
  exact absurd (Symbol.lt_trans below above) (Symbol.lt_irrefl _)

def insertAll (rules : Rules) (listing : List Rule) : Rules :=
  listing.foldl (fun rules rule => rules.insert rule.symbol rule.alternatives) rules

theorem lookup_insertAll {listing : List Rule} (distinct : (listing.map Rule.symbol).Nodup)
    (rules : Rules) (symbol : Symbol) :
    (rules.insertAll listing).lookup symbol = (find symbol listing).or (rules.lookup symbol) := by
  induction listing generalizing rules with
  | nil => rfl
  | cons rule rest ih =>
    obtain ⟨absent, later⟩ := List.nodup_cons.mp distinct
    have others := ih later (rules.insert rule.symbol rule.alternatives)
    rw [insertAll] at others
    rw [insertAll, List.foldl_cons, others, lookup_insert, find]
    split
    · rename_i same
      rw [find_eq_none (same ▸ absent), Option.none_or, Option.some_or]
    · rfl

theorem mem_insertAll {listing : List Rule} (distinct : (listing.map Rule.symbol).Nodup)
    {rule : Rule} : rule ∈ (empty.insertAll listing).list ↔ rule ∈ listing := by
  rw [mem_list_iff, lookup_insertAll distinct, lookup_empty, Option.or_none,
    find_eq_some_iff distinct]

theorem insertAll_perm {rules : Rules} {listing : List Rule}
    (reordered : listing.Perm rules.list) : empty.insertAll listing = rules := by
  have distinct : (listing.map Rule.symbol).Nodup :=
    (reordered.map Rule.symbol).nodup_iff.mpr rules.nodup_symbols
  apply eq_of_lookup
  intro symbol
  rw [lookup_insertAll distinct, lookup_empty, Option.or_none, find_eq_of_perm reordered distinct]
  rfl

end Rules

theorem Grammar.lookup_start (grammar : Grammar) :
    grammar.lookup grammar.start = some grammar.startAlternatives :=
  (Option.some_get _).symm

theorem Grammar.related_startAlternatives {grammar other : Grammar}
    {related : List Alternative → List Alternative → Prop} (start : grammar.start = other.start)
    (rules : ∀ symbol, Option.Rel related (grammar.lookup symbol) (other.lookup symbol)) :
    related grammar.startAlternatives other.startAlternatives := by
  have started := rules grammar.start
  have definedToo := other.lookup_start
  rw [← start] at definedToo
  rw [grammar.lookup_start, definedToo] at started
  cases started with
  | some inside => exact inside

theorem Grammar.mapError_ofRules_eq_ok {ε : Type} {report : StartUndefined → ε} {rules : Rules}
    {start : Symbol} {grammar : Grammar} :
    (ofRules rules start).mapError report = .ok grammar ↔
      rules.defines start = true ∧ grammar.start = start ∧ grammar.rules = rules := by
  unfold ofRules
  split
  · rename_i defined
    constructor
    · intro made
      cases made
      exact ⟨defined, rfl, rfl⟩
    · obtain ⟨others, other, _⟩ := grammar
      intro made
      obtain ⟨_, rfl, rfl⟩ := made
      rfl
  · rename_i undefined
    constructor
    · intro made
      cases made
    · exact fun made => absurd made.1 undefined

end SentenceGrammar
