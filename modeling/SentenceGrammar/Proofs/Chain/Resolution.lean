import Mathlib.Data.List.Forall2
import SentenceGrammar.Chain.Resolution

/-! What a chain resolves to, in closed form. Every selector that leaves a choice has a number drawn
for it, the last one first, and the reset nearest to the front decides what becomes of the labels:
those that were active before, or were chosen behind it, are gone. -/

namespace SentenceGrammar

namespace ActiveLabels

theorem labels_insert (active : ActiveLabels) (label : Label) :
    (active.insert label).labels =
      if label ∈ active.labels then active.labels else active.labels ++ [label] := by
  unfold insert
  split <;> rfl

theorem eraseDups_labels (active : ActiveLabels) : active.labels.eraseDups = active.labels := by
  obtain ⟨labels, nodup⟩ := active
  induction labels with
  | nil => rfl
  | cons label later ih =>
    rw [List.nodup_cons] at nodup
    have others : later.filter (fun other => !other == label) = later := by
      rw [List.filter_eq_self]
      intro other member
      have different : other ≠ label := fun same => nodup.1 (same ▸ member)
      simpa using different
    rw [List.eraseDups_cons, others]
    exact congrArg (label :: ·) (ih nodup.2)

theorem labels_foldl_insert (active : ActiveLabels) (labels : List Label) :
    (labels.foldl insert active).labels = (active.labels ++ labels).eraseDups := by
  induction labels generalizing active with
  | nil => rw [List.foldl_nil, List.append_nil, eraseDups_labels]
  | cons label later ih =>
    rw [List.foldl_cons, ih, labels_insert]
    split
    · rename_i present
      rw [List.eraseDups_append, List.eraseDups_append]
      congr 2
      simp [List.removeAll, present]
    · rw [List.append_assoc, List.singleton_append]

end ActiveLabels

def Selector.choices : Selector → List Label
  | .reset => []
  | .anyOf labels => labels

namespace Chain

/-- The lists of labels that one is chosen from, the last one first. -/
def groups (chain : Chain) : List (List Label) :=
  (chain.reverse.map Selector.choices).filter (· ≠ [])

/-- The bounds of the numbers that decide between the labels of groups. A group of one label needs
no number. -/
def bounds (groups : List (List Label)) : List Nat :=
  (groups.filter (1 < ·.length)).map (·.length - 1)

/-- One label of each group, by the numbers that decide between those of several. -/
def chosen : List (List Label) → List Nat → List Label
  | [only] :: later, numbers => only :: chosen later numbers
  | group :: later, number :: numbers => group[number]?.toList ++ chosen later numbers
  | _, _ => []

end Chain

variable {σ : Type} [RandomSource σ]

namespace Run

def numbers : List Nat → Run σ → List Nat × Run σ
  | [], run => ([], run)
  | bound :: later, run =>
    let (number, run) := run.number 0 bound
    let (numbers, run) := numbers later run
    (number :: numbers, run)

theorem number_le (bound : Nat) (run : Run σ) : (run.number 0 bound).1 ≤ bound :=
  RandomSource.between_le (Nat.zero_le bound) run.source

theorem numbers_append (first later : List Nat) (run : Run σ) :
    run.numbers (first ++ later) =
      ((run.numbers first).1 ++ ((run.numbers first).2.numbers later).1,
        ((run.numbers first).2.numbers later).2) := by
  induction first generalizing run with
  | nil => rfl
  | cons bound first ih => simp only [List.cons_append, numbers, ih]

theorem numbers_le (bounds : List Nat) (run : Run σ) :
    List.Forall₂ (· ≤ ·) (run.numbers bounds).1 bounds := by
  induction bounds generalizing run with
  | nil => exact .nil
  | cons bound later ih => exact .cons (run.number_le bound) (ih _)

theorem numbers_scopes (bounds : List Nat) (run : Run σ) :
    (run.numbers bounds).2.scopes = run.scopes := by
  induction bounds generalizing run with
  | nil => rfl
  | cons bound later ih => exact ih _

end Run

namespace Chain

def requests (chain : Chain) : List Nat :=
  bounds chain.groups

theorem groups_append (first later : Chain) :
    groups (first ++ later) = groups later ++ groups first := by
  simp only [groups, List.reverse_append, List.map_append, List.filter_append]

theorem requests_append (first later : Chain) :
    requests (first ++ later) = requests later ++ requests first := by
  simp only [requests, bounds, groups_append, List.filter_append, List.map_append]

theorem ne_nil_of_mem_groups {chain : Chain} {group : List Label} (member : group ∈ chain.groups) :
    group ≠ [] := by
  simpa using (List.mem_filter.mp member).2

section Chosen

variable {first : List (List Label)} {numbers : List Nat}

theorem chosen_append (solid : ∀ group ∈ first, group ≠ [])
    (fits : List.Forall₂ (· ≤ ·) numbers (bounds first)) (later : List (List Label))
    (others : List Nat) :
    chosen (first ++ later) (numbers ++ others) = chosen first numbers ++ chosen later others := by
  induction first generalizing numbers with
  | nil =>
    cases fits
    rfl
  | cons group first ih =>
    obtain ⟨here, behind⟩ := List.forall_mem_cons.mp solid
    match group, here with
    | [only], _ => exact congrArg (only :: ·) (ih behind fits)
    | label :: second :: labels, _ =>
      cases fits with
      | cons _ fits =>
        simp only [List.cons_append, chosen, ih behind fits, List.append_assoc]

theorem chosen_mem (solid : ∀ group ∈ first, group ≠ [])
    (fits : List.Forall₂ (· ≤ ·) numbers (bounds first)) :
    List.Forall₂ (· ∈ ·) (chosen first numbers) first := by
  induction first generalizing numbers with
  | nil => exact .nil
  | cons group first ih =>
    obtain ⟨here, behind⟩ := List.forall_mem_cons.mp solid
    match group, here with
    | [only], _ => exact .cons List.mem_cons_self (ih behind fits)
    | label :: second :: labels, _ =>
      cases fits with
      | @cons number _ numbers _ below fits =>
        have inside : number < (label :: second :: labels).length := Nat.lt_succ_of_le below
        rw [chosen, List.getElem?_eq_getElem inside]
        · exact .cons (List.getElem_mem inside) (ih behind fits)
        · nofun

end Chosen

end Chain

theorem Selector.apply_eq {selector : Selector} (goesOn : selector ≠ .reset)
    (active : ActiveLabels) (run : Run σ) :
    selector.apply active run =
      ((Chain.chosen (Chain.groups [selector]) (run.numbers (Chain.requests [selector])).1).foldl
        ActiveLabels.insert active, (run.numbers (Chain.requests [selector])).2) := by
  match selector, goesOn with
  | .anyOf [], _ => rfl
  | .anyOf [only], _ => rfl
  | .anyOf (first :: second :: others), _ =>
    have requested : Chain.requests [.anyOf (first :: second :: others)] = [others.length + 1] :=
      rfl
    have inside : (run.number 0 (others.length + 1)).1 < (first :: second :: others).length :=
      Nat.lt_succ_of_le (run.number_le _)
    have picked : Chain.chosen [first :: second :: others] [(run.number 0 (others.length + 1)).1] =
        [(first :: second :: others)[(run.number 0 (others.length + 1)).1]] := by
      rw [Chain.chosen, List.getElem?_eq_getElem inside]
      · rfl
      · nofun
    rw [requested]
    exact congrArg (fun labels => (labels.foldl ActiveLabels.insert active, _)) picked.symm

namespace Chain

/-- A chain requests its numbers whatever labels are active, and whatever becomes of the labels that
they decide between. -/
theorem applyTo_numbers (chain : Chain) (active : ActiveLabels) (run : Run σ) :
    (chain.applyTo active run).2 = (run.numbers chain.requests).2 := by
  induction chain with
  | nil => rfl
  | cons selector later ih =>
    rw [← List.singleton_append, requests_append, Run.numbers_append, ← ih]
    -- A reset clears the labels but has no number drawn.
    by_cases resets : selector = .reset
    · subst resets
      rfl
    · exact congrArg Prod.snd (Selector.apply_eq resets _ _)

theorem applyTo_of_notMem {chain : Chain} (goesOn : Selector.reset ∉ chain) (active : ActiveLabels)
    (run : Run σ) :
    (chain.applyTo active run).1 =
      (chosen chain.groups (run.numbers chain.requests).1).foldl ActiveLabels.insert active := by
  induction chain with
  | nil => rfl
  | cons selector later ih =>
    rw [List.mem_cons, not_or] at goesOn
    have solid : ∀ group ∈ groups later, group ≠ [] := fun _ => ne_nil_of_mem_groups
    have here := congrArg Prod.fst (Selector.apply_eq (Ne.symm goesOn.1)
      (Chain.applyTo later active run).1 (Chain.applyTo later active run).2)
    have fits : List.Forall₂ (· ≤ ·) (run.numbers (requests later)).1 (bounds (groups later)) :=
      Run.numbers_le _ run
    rw [← List.singleton_append, requests_append, groups_append, Run.numbers_append,
      chosen_append solid fits, List.foldl_append, ← ih goesOn.2, ← applyTo_numbers later active]
    exact here

/-- The part of a chain that stands left of its first reset. -/
def lasting (chain : Chain) : Chain :=
  chain.takeWhile (· ≠ .reset)

def discarded (chain : Chain) : Chain :=
  chain.dropWhile (· ≠ .reset)

theorem lasting_append_discarded (chain : Chain) : chain.lasting ++ chain.discarded = chain :=
  List.takeWhile_append_dropWhile

theorem applyTo_discarded (chain : Chain) (active : ActiveLabels) (run : Run σ) :
    (chain.discarded.applyTo active run).1 = if .reset ∈ chain then .none else active := by
  induction chain with
  | nil => rfl
  | cons selector later ih =>
    cases selector with
    | reset => rfl
    | anyOf labels =>
      have same : discarded (.anyOf labels :: later) = discarded later := rfl
      simpa [same] using ih

/-- A chain makes those labels active that were so before, unless it contains a reset, and then one
of each group left of its first reset, from right to left, each label where it first occurs. The
choices between several labels, of which each takes one number, are made from right to left
throughout the chain, and nothing else of the run but its random state changes. -/
theorem resolve_eq (chain : Chain) (run : Run σ) :
    let numbers := (run.numbers chain.requests).1
    let labels := chosen chain.lasting.groups (numbers.drop chain.discarded.requests.length)
    (chain.resolve run).1.labels =
        ((if .reset ∈ chain then [] else run.active.labels) ++ labels).eraseDups ∧
      List.Forall₂ (· ∈ ·) labels chain.lasting.groups ∧
      List.Forall₂ (· ≤ ·) numbers chain.requests ∧
      (chain.resolve run).2 = (run.numbers chain.requests).2 ∧
      (chain.resolve run).2.scopes = run.scopes := by
  intro numbers labels
  -- Numbers are drawn from right to left, so those of the discarded part come first.
  have split : chain.requests = chain.discarded.requests ++ chain.lasting.requests := by
    rw [← requests_append, lasting_append_discarded]
  have goesOn : Selector.reset ∉ chain.lasting := fun member => by
    simpa using List.all_eq_true.mp List.all_takeWhile _ member
  have solid : ∀ group ∈ chain.lasting.groups, group ≠ [] := fun _ => ne_nil_of_mem_groups
  have later : numbers.drop chain.discarded.requests.length =
      ((run.numbers chain.discarded.requests).2.numbers chain.lasting.requests).1 := by
    have length := (run.numbers_le chain.discarded.requests).length_eq
    simp only [numbers, split, Run.numbers_append, ← length, List.drop_left]
  have fits : List.Forall₂ (· ≤ ·) (numbers.drop chain.discarded.requests.length)
      (bounds chain.lasting.groups) := later ▸ Run.numbers_le _ _
  have whole := applyTo_append chain.lasting chain.discarded run.active run
  rw [lasting_append_discarded] at whole
  have resolved : (chain.resolve run).1 =
      labels.foldl ActiveLabels.insert (if .reset ∈ chain then .none else run.active) := by
    rw [resolve, whole, applyTo_of_notMem goesOn, applyTo_discarded, applyTo_numbers, ← later]
  have final := applyTo_numbers chain run.active run
  refine ⟨?_, chosen_mem solid fits, run.numbers_le _, final, ?_⟩
  · rw [resolved, ActiveLabels.labels_foldl_insert]
    split <;> rfl
  · exact (congrArg Run.scopes final).trans (run.numbers_scopes _)

end Chain

end SentenceGrammar
