import SentenceGrammar.Chain.Reading

/-! A chain is read back from its written form, as long as its labels can be written in one; and
whatever can be read is such a chain. -/

namespace SentenceGrammar

open Character Text

/-- A label that a chain can name: a non-empty run of the characters of labels. -/
def Label.Selectable (label : Label) : Prop :=
  label.name.toList ≠ [] ∧ ∀ c ∈ label.name.toList, isLabelChar c = true

instance (label : Label) : Decidable label.Selectable :=
  decidable_of_iff ((!label.name.toList.isEmpty && label.name.toList.all isLabelChar) = true)
    (by simp [Label.Selectable])

/-- A selector that can be written: it starts over, or activates one of at least one label. -/
def Selector.WellFormed : Selector → Prop
  | .reset => True
  | .anyOf labels => labels ≠ [] ∧ ∀ label ∈ labels, label.Selectable

@[simp] theorem Selector.wellFormed_reset : Selector.reset.WellFormed :=
  trivial

@[simp] theorem Selector.wellFormed_anyOf {labels : List Label} :
    (Selector.anyOf labels).WellFormed ↔ labels ≠ [] ∧ ∀ label ∈ labels, label.Selectable :=
  Iff.rfl

namespace Label.Selectable

theorem notMem {label : Label} (selectable : label.Selectable) {mark : Char}
    (other : isLabelChar mark = false) : mark ∉ label.name.toList := by
  intro member
  exact ne_of_kind (selectable.2 mark member) other rfl

theorem visible {label : Label} (selectable : label.Selectable) :
    ∀ c ∈ label.name.toList, isBlank c = false :=
  fun c member => isBlank_eq_false_of_isWordChar (isWordChar_of_isLabelChar (selectable.2 c member))

end Label.Selectable

namespace Chain

def WellFormed (chain : Chain) : Prop :=
  ∀ selector ∈ chain, selector.WellFormed

@[simp] theorem wellFormed_nil : WellFormed [] :=
  nofun

@[simp] theorem wellFormed_cons {selector : Selector} {later : Chain} :
    WellFormed (selector :: later) ↔ selector.WellFormed ∧ later.WellFormed :=
  List.forall_mem_cons

section Names

variable {label : Label}

theorem readName_eq_ok {padded : List Char} :
    readName padded = .ok label ↔
      label = ⟨String.ofList (trimBlanks padded)⟩ ∧ label.Selectable := by
  unfold readName
  constructor
  · intro read
    simp only at read
    split at read
    · cases read
    rename_i nonempty
    split at read
    · rename_i labelled
      cases read
      rw [List.isEmpty_iff] at nonempty
      exact ⟨rfl, by simpa using nonempty, by simpa using labelled⟩
    · cases read
  · rintro ⟨rfl, nonempty, labelled⟩
    rw [String.toList_ofList] at nonempty labelled
    have allLabelled := List.all_eq_true.mpr labelled
    simp only [List.isEmpty_iff, if_neg nonempty, if_pos allLabelled]

theorem readName_of_selectable (selectable : label.Selectable) :
    readName label.name.toList = .ok label := by
  refine readName_eq_ok.mpr ⟨?_, selectable⟩
  rw [trimBlanks_of_visible selectable.visible, String.ofList_toList]

theorem readNames_map {labels : List Label} (selectable : ∀ label ∈ labels, label.Selectable) :
    readNames (labels.map fun label => label.name.toList) = .ok labels := by
  induction labels with
  | nil => rfl
  | cons label later ih =>
    obtain ⟨first, others⟩ := List.forall_mem_cons.mp selectable
    simp only [List.map_cons, readNames, readName_of_selectable first, ih others, bind,
      Except.bind, pure, Except.pure]

theorem absent_of_selectable {labels : List Label} (selectable : ∀ label ∈ labels, label.Selectable)
    {mark : Char} (other : isLabelChar mark = false) :
    ∀ name ∈ labels.map fun label => label.name.toList, mark ∉ name :=
  List.forall_mem_map.mpr fun label member => (selectable label member).notMem other

theorem readNames_splitAt {labels : List Label} (nonempty : labels ≠ [])
    (selectable : ∀ label ∈ labels, label.Selectable) :
    readNames (splitAt '|' (['|'].intercalate (labels.map fun label => label.name.toList))) =
      .ok labels := by
  rw [splitAt_intercalate (by simpa using nonempty) (absent_of_selectable selectable (by decide)),
    readNames_map selectable]

theorem readNames_cons_eq_ok {name : List Char} {others : List (List Char)} {labels : List Label} :
    readNames (name :: others) = .ok labels ↔
      ∃ label later, readName name = .ok label ∧ readNames others = .ok later ∧
        labels = label :: later := by
  rw [readNames]
  cases readName name <;> cases readNames others <;>
    simp [bind, Except.bind, pure, Except.pure, eq_comm]

theorem selectable_of_readNames {padded : List (List Char)} {labels : List Label}
    (read : readNames padded = .ok labels) :
    labels.length = padded.length ∧ ∀ label ∈ labels, label.Selectable := by
  induction padded generalizing labels with
  | nil =>
    cases read
    exact ⟨rfl, nofun⟩
  | cons name others ih =>
    obtain ⟨label, later, first, behind, rfl⟩ := readNames_cons_eq_ok.mp read
    obtain ⟨length, selectable⟩ := ih behind
    refine ⟨congrArg (· + 1) length, List.forall_mem_cons.mpr ⟨?_, selectable⟩⟩
    exact (readName_eq_ok.mp first).2

end Names

section Selectors

variable {rest : List Char} {later : Chain}

theorem readFrom_betweenElements :
    readFrom .betweenElements rest = .ok later ↔
      (rest = [] ∧ later = []) ∨
        ∃ behind, rest = '.' :: behind ∧ readFrom .afterDot behind = .ok later := by
  cases rest with
  | nil => simp [readFrom, eq_comm]
  | cons c behind =>
    rw [readFrom]
    split
    · rename_i dot
      simp [dot]
    · rename_i other
      simp [other]

/-- What can be read between elements begins with a dot, unless there is nothing. -/
theorem dotted_of_readFrom (after : readFrom .betweenElements rest = .ok later) :
    ∀ c ∈ rest.head?, c = '.' := by
  intro c begins
  rcases readFrom_betweenElements.mp after with ⟨rfl, _⟩ | ⟨behind, rfl, _⟩
  · cases begins
  · exact (Option.some.inj begins).symm

theorem readFrom_bareDot (dotted : ∀ c ∈ rest.head?, c = '.') :
    readFrom .afterDot rest = do
      let later ← readFrom .betweenElements rest
      return .reset :: later := by
  cases rest with
  | nil => rfl
  | cons c behind =>
    obtain rfl := dotted c rfl
    rfl

theorem readFrom_reset (after : readFrom .betweenElements rest = .ok later) :
    readFrom .afterDot rest = .ok (.reset :: later) := by
  rw [readFrom_bareDot (dotted_of_readFrom after), after]
  rfl

theorem readFrom_inLabel {seen name : List Char} (labelled : ∀ c ∈ name, isLabelChar c = true)
    (dotted : ∀ c ∈ rest.head?, c = '.') :
    readFrom (.inLabel seen) (name ++ rest) = do
      let later ← readFrom .betweenElements rest
      return single (name.reverse ++ seen) :: later := by
  induction name generalizing seen with
  | nil =>
    cases rest with
    | nil => rfl
    | cons c behind =>
      obtain rfl := dotted c rfl
      rfl
  | cons c name ih =>
    obtain ⟨first, others⟩ := List.forall_mem_cons.mp labelled
    rw [List.cons_append, readFrom, if_pos first, ih others, List.reverse_cons, List.append_assoc]
    rfl

theorem readFrom_name {name : List Char} (nonempty : name ≠ [])
    (labelled : ∀ c ∈ name, isLabelChar c = true) (dotted : ∀ c ∈ rest.head?, c = '.') :
    readFrom .afterDot (name ++ rest) = do
      let later ← readFrom .betweenElements rest
      return .anyOf [⟨String.ofList name⟩] :: later := by
  obtain ⟨c, others, rfl⟩ := List.exists_cons_of_ne_nil nonempty
  obtain ⟨first, behind⟩ := List.forall_mem_cons.mp labelled
  have notDot : c ≠ '.' := ne_of_kind first (by decide)
  have notOpen : c ≠ '(' := ne_of_kind first (by decide)
  rw [List.cons_append, readFrom, if_neg notDot, if_neg notOpen, if_pos first,
    readFrom_inLabel behind dotted, single, List.reverse_append, List.reverse_reverse,
    List.reverse_singleton, List.singleton_append]

theorem readFrom_label {label : Label} (selectable : label.Selectable)
    (after : readFrom .betweenElements rest = .ok later) :
    readFrom .afterDot (label.name.toList ++ rest) = .ok (.anyOf [label] :: later) := by
  rw [readFrom_name selectable.1 selectable.2 (dotted_of_readFrom after), after,
    String.ofList_toList]
  rfl

theorem readFrom_inGroup {seen body : List Char} (inside : ')' ∉ body) :
    readFrom (.inGroup seen) (body ++ ')' :: rest) = do
      let labels ← readNames (splitAt '|' (seen.reverse ++ body))
      let chain ← readFrom .betweenElements rest
      return .anyOf labels :: chain := by
  induction body generalizing seen with
  | nil => rw [List.nil_append, readFrom, if_pos rfl, List.append_nil]
  | cons c body ih =>
    simp only [List.mem_cons, not_or] at inside
    rw [List.cons_append, readFrom, if_neg (Ne.symm inside.1), ih inside.2, List.reverse_cons,
      List.append_assoc, List.singleton_append]

theorem readFrom_labels {labels : List Label} (nonempty : labels ≠ [])
    (selectable : ∀ label ∈ labels, label.Selectable)
    (after : readFrom .betweenElements rest = .ok later) :
    readFrom .afterDot ('(' ::
        (['|'].intercalate (labels.map fun label => label.name.toList) ++ ')' :: rest)) =
      .ok (.anyOf labels :: later) := by
  have inside : ')' ∉ ['|'].intercalate (labels.map fun label => label.name.toList) :=
    notMem_intercalate (by decide) (absent_of_selectable selectable (by decide))
  rw [readFrom, if_neg (by decide), if_pos rfl, readFrom_inGroup inside, List.reverse_nil,
    List.nil_append, readNames_splitAt nonempty selectable, after]
  rfl

theorem readFrom_selector {selector : Selector} (wellFormed : selector.WellFormed)
    (after : readFrom .betweenElements rest = .ok later) :
    readFrom .betweenElements (selector.text.toList ++ rest) = .ok (selector :: later) := by
  refine readFrom_betweenElements.mpr (.inr ?_)
  match selector, wellFormed with
  | .reset, _ => exact ⟨rest, rfl, readFrom_reset after⟩
  | .anyOf [label], ⟨_, selectable⟩ =>
    refine ⟨label.name.toList ++ rest, by simp [Selector.text], ?_⟩
    exact readFrom_label (selectable label List.mem_cons_self) after
  | .anyOf (first :: second :: others), ⟨nonempty, selectable⟩ =>
    refine ⟨_, ?_, readFrom_labels nonempty selectable after⟩
    simp [Selector.text, Function.comp_def]
  | .anyOf [], ⟨nonempty, _⟩ => exact absurd rfl nonempty

end Selectors

theorem toList_text_cons (selector : Selector) (later : Chain) :
    (text (selector :: later)).toList = selector.text.toList ++ (text later).toList := by
  simp [text]

theorem read_text {chain : Chain} (wellFormed : chain.WellFormed) :
    read chain.text = .ok chain := by
  have whole : readFrom .betweenElements chain.text.toList = .ok chain := by
    induction chain with
    | nil => rfl
    | cons selector later ih =>
      rw [wellFormed_cons] at wellFormed
      rw [toList_text_cons]
      exact readFrom_selector wellFormed.1 (ih wellFormed.2)
  rw [read, whole]
  rfl

/-- What a reader does at a character: where it goes on, and what it has completed. -/
inductive Step : Place → Char → Place → Chain → Prop where
  | dot : Step .betweenElements '.' .afterDot []
  | reset : Step .afterDot '.' .afterDot [.reset]
  | openGroup : Step .afterDot '(' (.inGroup []) []
  | beginLabel {c : Char} (labelled : isLabelChar c = true) : Step .afterDot c (.inLabel [c]) []
  | continueLabel {seen : List Char} {c : Char} (labelled : isLabelChar c = true) :
    Step (.inLabel seen) c (.inLabel (c :: seen)) []
  | endLabel (seen : List Char) : Step (.inLabel seen) '.' .afterDot [single seen]
  | closeGroup {seen : List Char} {labels : List Label}
    (names : readNames (splitAt '|' seen.reverse) = .ok labels) :
    Step (.inGroup seen) ')' .betweenElements [.anyOf labels]
  | continueGroup {seen : List Char} {c : Char} (inside : c ≠ ')') :
    Step (.inGroup seen) c (.inGroup (c :: seen)) []

theorem cons_eq_ok {outcome : Except ChainFault Chain} {selector : Selector} {chain : Chain} :
    (do let later ← outcome; return selector :: later) = .ok chain ↔
      ∃ later, outcome = .ok later ∧ chain = selector :: later := by
  cases outcome <;> simp [bind, Except.bind, pure, Except.pure, eq_comm]

theorem exists_step {place : Place} {c : Char} {text : List Char} {chain : Chain}
    (read : readFrom place (c :: text) = .ok chain) :
    ∃ next done later, Step place c next done ∧ readFrom next text = .ok later ∧
      chain = done ++ later := by
  cases place with
  | betweenElements =>
    rw [readFrom] at read
    split at read
    · rename_i dot
      subst dot
      exact ⟨.afterDot, [], chain, .dot, read, rfl⟩
    · cases read
  | afterDot =>
    rw [readFrom] at read
    split at read
    · rename_i dot
      subst dot
      obtain ⟨later, after, rfl⟩ := cons_eq_ok.mp read
      exact ⟨.afterDot, [.reset], later, .reset, after, rfl⟩
    split at read
    · rename_i opens
      subst opens
      exact ⟨.inGroup [], [], chain, .openGroup, read, rfl⟩
    split at read
    · rename_i labelled
      exact ⟨.inLabel [c], [], chain, .beginLabel labelled, read, rfl⟩
    · cases read
  | inLabel seen =>
    rw [readFrom] at read
    split at read
    · rename_i labelled
      exact ⟨.inLabel (c :: seen), [], chain, .continueLabel labelled, read, rfl⟩
    split at read
    · rename_i dot
      subst dot
      obtain ⟨later, after, rfl⟩ := cons_eq_ok.mp read
      exact ⟨.afterDot, [single seen], later, .endLabel seen, after, rfl⟩
    · cases read
  | inGroup seen =>
    rw [readFrom] at read
    split at read
    · rename_i closes
      subst closes
      cases names : readNames (splitAt '|' seen.reverse) with
      | error fault =>
        rw [names] at read
        cases read
      | ok labels =>
        rw [names] at read
        obtain ⟨later, after, rfl⟩ := cons_eq_ok.mp read
        exact ⟨.betweenElements, [.anyOf labels], later, .closeGroup names, after, rfl⟩
    · rename_i inside
      exact ⟨.inGroup (c :: seen), [], chain, .continueGroup inside, read, rfl⟩

def Place.Labelled : Place → Prop
  | .inLabel seen => seen ≠ [] ∧ ∀ c ∈ seen, isLabelChar c = true
  | _ => True

theorem wellFormed_single {seen : List Char} (labelled : (Place.inLabel seen).Labelled) :
    WellFormed [single seen] := by
  refine List.forall_mem_singleton.mpr ⟨List.cons_ne_nil _ _, List.forall_mem_singleton.mpr ?_⟩
  simpa [Label.Selectable, Place.Labelled] using labelled

theorem Step.keeps {place next : Place} {c : Char} {done : Chain} (step : Step place c next done)
    (labelled : place.Labelled) : next.Labelled ∧ done.WellFormed := by
  cases step with
  | dot | openGroup | continueGroup => exact ⟨trivial, wellFormed_nil⟩
  | reset => exact ⟨trivial, List.forall_mem_singleton.mpr trivial⟩
  | beginLabel labelChar =>
    exact ⟨⟨List.cons_ne_nil _ _, List.forall_mem_singleton.mpr labelChar⟩, wellFormed_nil⟩
  | continueLabel labelChar =>
    exact ⟨⟨List.cons_ne_nil _ _, List.forall_mem_cons.mpr ⟨labelChar, labelled.2⟩⟩, wellFormed_nil⟩
  | endLabel seen => exact ⟨trivial, wellFormed_single labelled⟩
  | closeGroup names =>
    obtain ⟨length, selectable⟩ := selectable_of_readNames names
    refine ⟨trivial, List.forall_mem_singleton.mpr ⟨?_, selectable⟩⟩
    rintro rfl
    exact splitAt_ne_nil _ _ (List.length_eq_zero_iff.mp length.symm)

theorem wellFormed_of_readFrom {place : Place} {text : List Char} {chain : Chain}
    (read : readFrom place text = .ok chain) (labelled : place.Labelled) : chain.WellFormed := by
  induction text generalizing place chain with
  | nil =>
    cases place with
    | betweenElements =>
      cases read
      exact wellFormed_nil
    | afterDot =>
      cases read
      exact List.forall_mem_singleton.mpr trivial
    | inLabel seen =>
      cases read
      exact wellFormed_single labelled
    | inGroup seen => cases read
  | cons c rest ih =>
    obtain ⟨next, done, later, step, after, rfl⟩ := exists_step read
    obtain ⟨labelledNext, wellFormed⟩ := step.keeps labelled
    exact List.forall_mem_append.mpr ⟨wellFormed, ih after labelledNext⟩

theorem wellFormed_of_read {text : String} {chain : Chain} (made : read text = .ok chain) :
    chain.WellFormed := by
  cases outcome : readFrom .betweenElements text.toList with
  | error fault =>
    rw [read, outcome] at made
    cases made
  | ok found =>
    rw [read, outcome] at made
    cases made
    exact wellFormed_of_readFrom outcome trivial

end Chain

end SentenceGrammar
