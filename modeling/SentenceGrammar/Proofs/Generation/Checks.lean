import SentenceGrammar.Proofs.Generation.Steps

/-! Generation with a check before every operation that has no result for some arguments: the entry
of a list at an index, the last index of a list, the draw from a range, the remainder, and the next
depth in 64 bits. Depth is counted up from zero and compared with the limit here. No check ever
fails, so that this is the same as generation without checks. -/

namespace SentenceGrammar

/-- What would go wrong with an operation that has no result for its arguments. -/
inductive Breach where
  | indexOutOfBounds
  | lastIndexOfNothing
  | emptyRange
  | zeroModulus
  | depthOverflow
deriving DecidableEq, Repr

namespace Breach

variable {α : Type}

def entry (list : List α) (index : Nat) : Except Breach α :=
  match list[index]? with
  | some found => .ok found
  | none => .error .indexOutOfBounds

def lastIndex (list : List α) : Except Breach Nat :=
  match list.length with
  | 0 => .error .lastIndexOfNothing
  | last + 1 => .ok last

def remainder (number modulus : Nat) : Except Breach Nat :=
  if modulus = 0 then .error .zeroModulus else .ok (number % modulus)

def deeper (depth : UInt64) : Except Breach UInt64 :=
  if depth.toNat + 1 < UInt64.size then .ok (depth + 1) else .error .depthOverflow

theorem entry_of_lt {list : List α} {index : Nat} (inside : index < list.length) :
    entry list index = .ok list[index] := by
  rw [entry, List.getElem?_eq_getElem inside]

theorem entry_fin {list : List α} (index : Fin list.length) :
    entry list index = .ok (list.get index) :=
  entry_of_lt index.isLt

theorem lastIndex_cons (first : α) (others : List α) :
    lastIndex (first :: others) = .ok others.length := rfl

theorem remainder_of_pos (number : Nat) {modulus : Nat} (positive : 0 < modulus) :
    remainder number modulus = .ok (number % modulus) :=
  if_neg (Nat.ne_of_gt positive)

theorem mapM_entry {list : List α} {positions : List Nat}
    (inside : ∀ position ∈ positions, position < list.length) :
    positions.mapM (entry list) = .ok (positions.filterMap fun position => list[position]?) := by
  induction positions with
  | nil => rfl
  | cons position rest ih =>
    obtain ⟨here, later⟩ := List.forall_mem_cons.mp inside
    rw [List.mapM_cons, entry_of_lt here, ih later, List.filterMap_cons,
      List.getElem?_eq_getElem here]
    rfl

theorem toNat_of_deeper {depth next : UInt64} (advanced : deeper depth = .ok next) :
    next.toNat = depth.toNat + 1 := by
  unfold deeper at advanced
  split at advanced
  · rename_i room
    cases advanced
    rw [UInt64.toNat_add]
    exact Nat.mod_eq_of_lt room
  · cases advanced

theorem exists_deeper_of_lt {depth limit : UInt64} (below : depth < limit) :
    ∃ next, deeper depth = .ok next := by
  have room : depth.toNat + 1 < UInt64.size :=
    Nat.lt_of_le_of_lt (UInt64.lt_iff_toNat_lt.mp below) limit.toNat_lt
  exact ⟨depth + 1, if_pos room⟩

end Breach

inductive Abort where
  | breach (breach : Breach)
  | fault (fault : ExpansionFault)
deriving DecidableEq

/-- A step of a run that may fail, or find that something is about to go wrong. -/
abbrev Checked (σ α : Type) := EStateM Abort (Run σ) α

namespace Checked

variable {σ α β : Type}

def ofExcept : Except Breach α → Checked σ α
  | .ok result => pure result
  | .error breach => throw (.breach breach)

def lift (action : Expansion σ α) : Checked σ α := fun run =>
  match action run with
  | .ok result run => .ok result run
  | .error fault run => .error (.fault fault) run

theorem ofExcept_ok (result : α) : (ofExcept (.ok result) : Checked σ α) = pure result := rfl

theorem lift_pure (result : α) : (pure result : Checked σ α) = lift (pure result) := rfl

theorem lift_bind (action : Expansion σ α) (next : α → Expansion σ β) :
    lift (action >>= next) = lift action >>= fun result => lift (next result) := by
  funext run
  simp only [lift, bind, EStateM.bind]
  cases action run <;> rfl

theorem lift_throw (fault : ExpansionFault) :
    (throw (.fault fault) : Checked σ α) = lift (throw fault) := rfl

theorem lift_get : (get : Checked σ (Run σ)) = lift get := rfl

theorem lift_modifyGet (step : Run σ → α × Run σ) :
    (modifyGet step : Checked σ α) = lift (modifyGet step) := rfl

theorem lift_modifyGet_apply (step : Run σ → α × Run σ) (run : Run σ) :
    lift (modifyGet step) run = .ok (step run).1 (step run).2 := rfl

theorem lift_modify (step : Run σ → Run σ) :
    (modify step : Checked σ PUnit) = lift (modify step) := rfl

theorem lift_within (active : ActiveLabels) (action : Expansion σ α) :
    Run.within active (lift action) = lift (Run.within active action) := by
  funext run
  simp only [Run.within, lift]
  cases action (run.enter active) <;> rfl

theorem lift_ne_breach (action : Expansion σ α) (run final : Run σ) (breach : Breach) :
    lift action run ≠ .error (.breach breach) final := by
  unfold lift
  cases action run <;> exact nofun

end Checked

open Checked Breach

variable {σ : Type} [RandomSource σ]

/-- A uniform number from `low` to `high`. The range from which a word is drawn may not be empty. -/
def Run.numberChecked (low high : Nat) : Checked σ Nat :=
  if high ≤ low then pure low
  else if low ≤ high then modifyGet (Run.number low high)
  else throw (.breach .emptyRange)

def Run.indexChecked {α : Type} (list : List α) : Checked σ Nat := do
  let last ← ofExcept (lastIndex list)
  Run.numberChecked 0 last

def Selector.applyChecked : Selector → ActiveLabels → Checked σ ActiveLabels
  | .reset, _ => pure .none
  | .anyOf [], active => pure active
  | .anyOf [only], active => pure (active.insert only)
  | .anyOf labels, active => do
    let chosen ← Run.indexChecked labels
    let label ← ofExcept (entry labels chosen)
    return active.insert label

def Chain.applyToChecked : Chain → ActiveLabels → Checked σ ActiveLabels
  | [], active => pure active
  | selector :: later, active => do
    let active ← Chain.applyToChecked later active
    selector.applyChecked active

def Alternative.pickChecked (eligible : List Alternative) : Checked σ Alternative :=
  if eligible.isEmpty then do
    modify fun run => run.note (.nothingEligible run.active)
    return Alternative.nothing
  else do
    let chosen ← Run.indexChecked eligible
    let alternative ← ofExcept (entry eligible chosen)
    modify fun run =>
      run.note (.picked alternative.label chosen eligible.length run.active)
    return alternative

def Alternative.chooseChecked (symbol : Symbol) (alternatives : List Alternative) :
    Checked σ Alternative := do
  let run ← get
  let eligible ← ofExcept <|
    (Alternative.eligiblePositions run.active alternatives).mapM (entry alternatives)
  modify fun run => run.note (.eligible symbol eligible.length alternatives.length)
  Alternative.pickChecked eligible

def Checked.under (openAlternatives : Symbol → List Alternative → Checked σ (List Signal))
    (symbol : Symbol) (alternatives : List Alternative) (chain : Chain) :
    Checked σ (List Signal) :=
  if chain.isEmpty then openAlternatives symbol alternatives
  else do
    let run ← get
    let active ← chain.applyToChecked run.active
    modify fun run => run.note (.opened symbol chain active)
    Run.within active (openAlternatives symbol alternatives)

mutual

def Atom.expandChecked (grammar : Grammar)
    (openAlternatives : Symbol → List Alternative → Checked σ (List Signal)) (symbol : Symbol)
    (slot : Option Nat) : Atom → Checked σ (List Signal × Option Nat)
  | .terminal text => pure ([.word text], slot)
  | .reference name chain => do
    match grammar.lookup name with
    | some alternatives =>
      let signals ← Checked.under openAlternatives name alternatives chain
      return (signals, slot)
    | none => do
      let run ← get
      throw (.fault (.undefinedSymbol name run.active))
  | .group alternatives chain => do
    let signals ← Checked.under openAlternatives symbol alternatives chain
    return (signals, slot)
  | .positional choices =>
    if choices.isEmpty then pure ([], slot)
    else do
      let position ← match slot with
        | some position => pure position
        | none => Run.indexChecked choices
      let index ← ofExcept (remainder position choices.length)
      let signals ← Atom.expandNthChecked grammar openAlternatives symbol index choices
      return (signals, some position)
  | .epsilon => pure ([], slot)

def Atom.expandNthChecked (grammar : Grammar)
    (openAlternatives : Symbol → List Alternative → Checked σ (List Signal)) (symbol : Symbol) :
    Nat → List Atom → Checked σ (List Signal)
  | _, [] => throw (.breach .indexOutOfBounds)
  | 0, atom :: _ => do
    let (signals, _) ← Atom.expandChecked grammar openAlternatives symbol none atom
    return signals
  | position + 1, _ :: rest =>
    Atom.expandNthChecked grammar openAlternatives symbol position rest

end

def Part.expandListChecked (grammar : Grammar)
    (openAlternatives : Symbol → List Alternative → Checked σ (List Signal)) (symbol : Symbol) :
    Option Nat → List Part → Checked σ (List Signal)
  | _, [] => pure []
  | slot, part :: rest => do
    let (signals, slot) ← part.atom.expandChecked grammar openAlternatives symbol slot
    let later ← Part.expandListChecked grammar openAlternatives symbol slot rest
    return part.junction.signals ++ signals ++ later

def Alternative.expandFrom (grammar : Grammar) (limit depth : UInt64) (symbol : Symbol)
    (alternatives : List Alternative) : Checked σ (List Signal) :=
  if limit ≤ depth then throw (.fault (.limitExceeded symbol limit.toNat))
  else do
    let chosen ← Alternative.chooseChecked symbol alternatives
    match _ : deeper depth with
    | .error breach => throw (.breach breach)
    | .ok next =>
      Part.expandListChecked grammar
        (fun symbol alternatives => Alternative.expandFrom grammar limit next symbol alternatives)
        symbol none chosen.parts
termination_by UInt64.size - depth.toNat
decreasing_by
  have step := toNat_of_deeper ‹deeper depth = .ok next›
  have bound : next.toNat < UInt64.size := next.toNat_lt
  omega

def Grammar.generateChecked (grammar : Grammar) (limit : UInt64) (trimOutput : Bool) :
    Checked σ String := do
  modify fun run => run.note (.started grammar.start run.seed)
  let signals ← Alternative.expandFrom grammar limit 0 grammar.start grammar.startAlternatives
  let text := Signal.join signals
  return if trimOutput then Text.trim text else text

theorem Run.numberChecked_eq (low high : Nat) :
    (Run.numberChecked low high : Checked σ Nat) = lift (modifyGet (Run.number low high)) := by
  unfold numberChecked
  split
  · rename_i narrow
    funext run
    rw [lift_modifyGet_apply, Run.number, RandomSource.between, if_pos narrow]
    rfl
  · rename_i wide
    rw [if_pos (Nat.le_of_not_le wide), lift_modifyGet]

theorem Run.indexChecked_cons {α β : Type} (first : α) (others : List α)
    (next : Nat → Checked σ β) :
    Run.indexChecked (first :: others) >>= next =
      lift (modifyGet (Run.index others.length)) >>= fun chosen => next chosen.val := by
  simp only [indexChecked, lastIndex_cons, ofExcept_ok, pure_bind, numberChecked_eq]
  rfl

theorem Selector.applyChecked_eq (selector : Selector) (active : ActiveLabels) :
    (selector.applyChecked active : Checked σ ActiveLabels) =
      lift (modifyGet (selector.apply active)) := by
  match selector with
  | .reset | .anyOf [] | .anyOf [only] => rfl
  | .anyOf (first :: second :: others) =>
    simp only [applyChecked, Run.indexChecked_cons, entry_fin, ofExcept_ok, pure_bind]
    rfl

theorem Chain.applyToChecked_eq (chain : Chain) (active : ActiveLabels) :
    (chain.applyToChecked active : Checked σ ActiveLabels) =
      lift (modifyGet (chain.applyTo active)) := by
  induction chain with
  | nil => rfl
  | cons selector later ih =>
    simp only [applyToChecked, ih, Selector.applyChecked_eq]
    rfl

theorem Alternative.pickChecked_eq (eligible : List Alternative) :
    (Alternative.pickChecked eligible : Checked σ Alternative) = lift do
      let picked ← modifyGet (Run.pick eligible)
      return picked.elim Alternative.nothing eligible.get := by
  cases eligible with
  | nil => rfl
  | cons first others =>
    simp only [pickChecked, List.isEmpty_cons, Bool.false_eq_true, if_false,
      Run.indexChecked_cons, entry_fin, ofExcept_ok, pure_bind]
    rfl

theorem Alternative.chooseChecked_eq (symbol : Symbol) (alternatives : List Alternative) :
    (Alternative.chooseChecked symbol alternatives : Checked σ Alternative) =
      lift (Alternative.choose symbol alternatives) := by
  have table : ∀ active, (Alternative.eligiblePositions active alternatives).mapM
      (entry alternatives) = .ok (Alternative.eligible active alternatives) := by
    intro active
    rw [mapM_entry fun position => lt_of_mem_eligiblePositions, eligible]
    simp only [List.getElem?_toArray]
  simp only [chooseChecked, table, ofExcept_ok, pure_bind, pickChecked_eq, lift_get, lift_modify,
    ← lift_bind]
  rfl

theorem Checked.under_eq (openAlternatives : Symbol → List Alternative → Expansion σ (List Signal))
    (symbol : Symbol) (alternatives : List Alternative) (chain : Chain) :
    Checked.under (fun symbol alternatives => lift (openAlternatives symbol alternatives)) symbol
        alternatives chain =
      lift (Expansion.under openAlternatives symbol alternatives chain) := by
  unfold Checked.under Expansion.under
  split
  · rfl
  · simp only [Chain.applyToChecked_eq, lift_get, lift_modify, lift_within, ← lift_bind]
    rfl

section Levels

variable (grammar : Grammar)
  (openAlternatives : Symbol → List Alternative → Expansion σ (List Signal))

theorem Atom.expandNthChecked_of_lt
    (openChecked : Symbol → List Alternative → Checked σ (List Signal)) (symbol : Symbol)
    {position : Nat} {choices : List Atom} (inside : position < choices.length) :
    Atom.expandNthChecked grammar openChecked symbol position choices = do
      let outcome ← Atom.expandChecked grammar openChecked symbol none choices[position]
      return outcome.1 := by
  induction choices generalizing position with
  | nil => exact absurd inside (Nat.not_lt_zero _)
  | cons atom rest ih =>
    cases position with
    | zero => rfl
    | succ position => exact ih (Nat.lt_of_succ_lt_succ inside)

/-- Where nothing goes wrong with the alternatives of the next level, nothing does with an atom. -/
theorem Atom.expandChecked_eq (symbol : Symbol) (slot : Option Nat) (atom : Atom) :
    Atom.expandChecked grammar
        (fun symbol alternatives => lift (openAlternatives symbol alternatives)) symbol slot atom =
      lift (Atom.expand grammar openAlternatives symbol slot atom) := by
  induction atom using Atom.induction generalizing slot with
  | terminal text => rfl
  | reference name chain =>
    cases defined : grammar.lookup name with
    | some alternatives =>
      simp only [expandChecked, expand, defined, Checked.under_eq, lift_bind, lift_pure]
    | none =>
      simp only [expandChecked, expand, defined, lift_get, lift_throw, lift_bind]
  | group alternatives chain _ =>
    simp only [expandChecked, expand, Checked.under_eq, lift_bind, lift_pure]
  | positional choices ih =>
    cases choices with
    | nil => rfl
    | cons first others =>
      have continues : ∀ position, (do
            let index ← ofExcept (remainder position (first :: others).length)
            let signals ← Atom.expandNthChecked grammar
              (fun symbol alternatives => lift (openAlternatives symbol alternatives)) symbol index
              (first :: others)
            return (signals, some position) : Checked σ (List Signal × Option Nat)) =
          lift (do
            let signals ← Atom.expandNth grammar openAlternatives symbol
              (position % (others.length + 1)) (first :: others)
            return (signals, some position)) := by
        intro position
        have inside : position % (first :: others).length < (first :: others).length :=
          Nat.mod_lt _ (Nat.succ_pos _)
        have divides : remainder position (first :: others).length =
            .ok (position % (first :: others).length) :=
          remainder_of_pos position (Nat.succ_pos _)
        rw [divides, ofExcept_ok, pure_bind, expandNthChecked_of_lt grammar _ symbol inside,
          ← List.length_cons, expandNth_of_lt symbol inside, ih _ (List.getElem_mem inside)]
        simp only [lift_bind, lift_pure]
      cases slot with
      | some position => exact continues position
      | none =>
        calc Atom.expandChecked grammar _ symbol none (.positional (first :: others))
          _ = Run.indexChecked (first :: others) >>= fun position => do
                let index ← ofExcept (remainder position (first :: others).length)
                let signals ← Atom.expandNthChecked grammar
                  (fun symbol alternatives => lift (openAlternatives symbol alternatives)) symbol
                  index (first :: others)
                return (signals, some position) := rfl
          _ = _ := by
            rw [Run.indexChecked_cons]
            simp only [continues, ← lift_bind]
            rfl
  | epsilon => rfl

theorem Part.expandListChecked_eq (symbol : Symbol) (slot : Option Nat) (parts : List Part) :
    Part.expandListChecked grammar
        (fun symbol alternatives => lift (openAlternatives symbol alternatives)) symbol slot parts =
      lift (Part.expandList grammar openAlternatives symbol slot parts) := by
  induction parts generalizing slot with
  | nil => rfl
  | cons part rest ih =>
    simp only [expandListChecked, expandList, Atom.expandChecked_eq, ih, lift_bind, lift_pure]

end Levels

/-- At a depth there is as much room as there is between the depth and the limit. -/
theorem Alternative.expandFrom_eq (grammar : Grammar) {limit depth : UInt64} {room : Nat}
    (fits : depth.toNat + room = limit.toNat) (symbol : Symbol) (alternatives : List Alternative) :
    (Alternative.expandFrom grammar limit depth symbol alternatives : Checked σ (List Signal)) =
      lift (Alternative.expandOne grammar limit.toNat room symbol alternatives) := by
  induction room generalizing depth symbol alternatives with
  | zero =>
    have reached : limit ≤ depth := UInt64.le_iff_toNat_le.mpr (Nat.le_of_eq fits.symm)
    rw [expandFrom, if_pos reached]
    rfl
  | succ room ih =>
    have below : ¬ limit ≤ depth := by
      rw [UInt64.le_iff_toNat_le]
      omega
    rw [expandFrom, if_neg below, expandOne_succ, lift_bind, chooseChecked_eq]
    congr
    funext chosen
    split
    · rename_i breach failed
      obtain ⟨next, advanced⟩ := exists_deeper_of_lt (UInt64.not_le.mp below)
      rw [failed] at advanced
      cases advanced
    · rename_i next advanced
      have step := toNat_of_deeper advanced
      have opens : ∀ symbol alternatives,
          (Alternative.expandFrom grammar limit next symbol alternatives : Checked σ _) =
            lift (Alternative.expandOne grammar limit.toNat room symbol alternatives) :=
        ih (by omega)
      simp only [opens]
      exact Part.expandListChecked_eq grammar _ symbol none chosen.parts

/-- No check fails. Whatever the grammar, the limit within 64 bits, and the run with its random
source, generation with checks ends as generation without them does: with the same text or fault,
and in the same run. -/
theorem Grammar.generateChecked_eq (grammar : Grammar) (limit : UInt64) (trimOutput : Bool)
    (run : Run σ) :
    grammar.generateChecked limit trimOutput run =
        lift (grammar.generate ⟨limit.toNat, trimOutput⟩) run ∧
      ∀ breach final,
        grammar.generateChecked limit trimOutput run ≠ .error (.breach breach) final := by
  have same : grammar.generateChecked limit trimOutput =
      lift (σ := σ) (grammar.generate ⟨limit.toNat, trimOutput⟩) := by
    have fits : (0 : UInt64).toNat + limit.toNat = limit.toNat := Nat.zero_add _
    have opens := Alternative.expandFrom_eq (σ := σ) grammar fits
    simp only [generateChecked, opens, generate, lift_modify, lift_bind, lift_pure]
  rw [same]
  exact ⟨rfl, fun breach final => lift_ne_breach _ run final breach⟩

end SentenceGrammar
