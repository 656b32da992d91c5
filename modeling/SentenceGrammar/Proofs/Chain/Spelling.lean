import SentenceGrammar.Proofs.Chain.RoundTrip

/-! The ways to write a chain. A text is read as a chain exactly if it consists of elements one
after the other, and the written form of the chain that was read is that text without its padding.
-/

namespace SentenceGrammar

open Character Text

structure PaddedLabel where
  before : List Char
  label : Label
  after : List Char
  blankBefore : ∀ c ∈ before, isBlank c = true
  selectable : label.Selectable
  blankAfter : ∀ c ∈ after, isBlank c = true

namespace PaddedLabel

def text (padded : PaddedLabel) : List Char :=
  padded.before ++ padded.label.name.toList ++ padded.after

def bare (padded : PaddedLabel) : PaddedLabel :=
  ⟨[], padded.label, [], List.forall_mem_nil _, padded.selectable, List.forall_mem_nil _⟩

theorem readName_text (padded : PaddedLabel) : Chain.readName padded.text = .ok padded.label := by
  refine Chain.readName_eq_ok.mpr ⟨?_, padded.selectable⟩
  rw [text, trimBlanks_padded padded.blankBefore padded.selectable.visible padded.blankAfter,
    String.ofList_toList]

theorem readNames_text (padded : List PaddedLabel) :
    Chain.readNames (padded.map text) = .ok (padded.map label) := by
  induction padded with
  | nil => rfl
  | cons first others ih =>
    exact Chain.readNames_cons_eq_ok.mpr ⟨_, _, first.readName_text, ih, rfl⟩

theorem notMem_text (padded : PaddedLabel) {mark : Char} (visible : isBlank mark = false)
    (other : isLabelChar mark = false) : mark ∉ padded.text := by
  have outside : ∀ gap : List Char, (∀ c ∈ gap, isBlank c = true) → mark ∉ gap :=
    fun gap blank member => ne_of_kind (blank mark member) visible rfl
  rw [text, List.mem_append, List.mem_append]
  rintro ((before | inside) | after)
  · exact outside _ padded.blankBefore before
  · exact padded.selectable.notMem other inside
  · exact outside _ padded.blankAfter after

end PaddedLabel

namespace Chain

/-- An element of a chain as it is written: a bare dot, a dot and a label, or a dot and labels in
parentheses. As every element begins with a dot, a bare one is followed by another or by the end. -/
inductive Element where
  | bareDot
  | single (label : Label) (selectable : label.Selectable)
  | list (first : PaddedLabel) (others : List PaddedLabel)

namespace Element

def text : Element → List Char
  | bareDot => ['.']
  | single label _ => '.' :: label.name.toList
  | list first others =>
    '.' :: '(' :: (['|'].intercalate ((first :: others).map PaddedLabel.text) ++ [')'])

def selector : Element → Selector
  | bareDot => .reset
  | single label _ => .anyOf [label]
  | list first others => .anyOf ((first :: others).map PaddedLabel.label)

/-- The element without padding, and without parentheses around one label alone. -/
def tidy : Element → Element
  | bareDot => bareDot
  | single label selectable => single label selectable
  | list first [] => single first.label first.selectable
  | list first (second :: others) => list first.bare ((second :: others).map PaddedLabel.bare)

end Element

def spell (elements : List Element) : String :=
  String.ofList (elements.flatMap Element.text)

theorem readFrom_element (element : Element) {rest : List Char} {later : Chain}
    (after : readFrom .betweenElements rest = .ok later) :
    readFrom .betweenElements (element.text ++ rest) = .ok (element.selector :: later) := by
  refine readFrom_betweenElements.mpr (.inr ?_)
  cases element with
  | bareDot => exact ⟨rest, rfl, readFrom_reset after⟩
  | single label selectable => exact ⟨_, rfl, readFrom_label selectable after⟩
  | list first others =>
    let names := (first :: others).map PaddedLabel.text
    have absent : ∀ mark, isBlank mark = false → isLabelChar mark = false →
        ∀ name ∈ names, mark ∉ name :=
      fun mark visible other => List.forall_mem_map.mpr fun padded _ =>
        padded.notMem_text visible other
    have inside : ')' ∉ ['|'].intercalate names :=
      notMem_intercalate (by decide) (absent ')' (by decide) (by decide))
    have cut : splitAt '|' (['|'].intercalate names) = names :=
      splitAt_intercalate (List.cons_ne_nil _ _) (absent '|' (by decide) (by decide))
    refine ⟨'(' :: (['|'].intercalate names ++ ')' :: rest), by simp [Element.text, names], ?_⟩
    rw [readFrom, if_neg (by decide), if_pos rfl, readFrom_inGroup inside, List.reverse_nil,
      List.nil_append, cut, PaddedLabel.readNames_text, after]
    rfl

theorem readFrom_elements (elements : List Element) :
    readFrom .betweenElements (elements.flatMap Element.text) =
      .ok (elements.map Element.selector) := by
  induction elements with
  | nil => rfl
  | cons element later ih => exact readFrom_element element ih

theorem exists_padded_of_readName {name : List Char} {label : Label}
    (read : readName name = .ok label) :
    ∃ padded : PaddedLabel, padded.text = name ∧ padded.label = label := by
  obtain ⟨rfl, selectable⟩ := readName_eq_ok.mp read
  obtain ⟨before, after, whole, blankBefore, blankAfter⟩ := exists_padding name
  refine ⟨⟨before, _, after, blankBefore, selectable, blankAfter⟩, ?_, rfl⟩
  rw [PaddedLabel.text, String.toList_ofList]
  exact whole.symm

theorem exists_padded_of_readNames {names : List (List Char)} {labels : List Label}
    (read : readNames names = .ok labels) :
    ∃ padded : List PaddedLabel,
      padded.map PaddedLabel.text = names ∧ padded.map PaddedLabel.label = labels := by
  induction names generalizing labels with
  | nil =>
    cases read
    exact ⟨[], rfl, rfl⟩
  | cons name others ih =>
    obtain ⟨label, later, first, behind, rfl⟩ := readNames_cons_eq_ok.mp read
    obtain ⟨padded, rfl, rfl⟩ := exists_padded_of_readName first
    obtain ⟨rest, rfl, rfl⟩ := ih behind
    exact ⟨padded :: rest, rfl, rfl⟩

def Place.begun : Place → List Char
  | .betweenElements => []
  | .afterDot => ['.']
  | .inLabel seen => '.' :: seen.reverse
  | .inGroup seen => '.' :: '(' :: seen.reverse

def Spells (text : List Char) (chain : Chain) : Prop :=
  ∃ elements : List Element, text = elements.flatMap Element.text ∧
    chain = elements.map Element.selector

theorem Spells.append {first rest : List Char} {done later : Chain} (before : Spells first done)
    (after : Spells rest later) : Spells (first ++ rest) (done ++ later) := by
  obtain ⟨elements, rfl, rfl⟩ := before
  obtain ⟨others, rfl, rfl⟩ := after
  exact ⟨elements ++ others, List.flatMap_append.symm, List.map_append.symm⟩

theorem spells_nil : Spells [] [] :=
  ⟨[], rfl, rfl⟩

theorem spells_element (element : Element) : Spells element.text [element.selector] :=
  ⟨[element], (List.append_nil _).symm, rfl⟩

theorem spells_single {seen : List Char} (labelled : (Place.inLabel seen).Labelled) :
    Spells (Place.inLabel seen).begun [single seen] := by
  have selectable : Label.Selectable ⟨String.ofList seen.reverse⟩ := by
    simpa [Label.Selectable, Place.Labelled] using labelled
  have spelled := spells_element (.single _ selectable)
  rwa [Element.text, String.toList_ofList] at spelled

/-- At every character a reader goes on with an element or completes one. -/
theorem Step.spells {place next : Place} {c : Char} {done : Chain} (step : Step place c next done)
    (labelled : place.Labelled) :
    ∃ text, place.begun ++ [c] = text ++ next.begun ∧ Spells text done := by
  cases step with
  | dot | openGroup => exact ⟨[], rfl, spells_nil⟩
  | beginLabel => exact ⟨[], rfl, spells_nil⟩
  | continueLabel | continueGroup => exact ⟨[], by simp [Place.begun], spells_nil⟩
  | reset => exact ⟨['.'], rfl, spells_element .bareDot⟩
  | endLabel seen => exact ⟨_, rfl, spells_single labelled⟩
  | @closeGroup seen labels names =>
    obtain ⟨padded, stretches, rfl⟩ := exists_padded_of_readNames names
    have body := intercalate_splitAt '|' seen.reverse
    rw [← stretches] at body
    cases padded with
    | nil => exact absurd stretches.symm (splitAt_ne_nil _ _)
    | cons first others =>
      refine ⟨_, ?_, spells_element (.list first others)⟩
      rw [Place.begun, Place.begun, Element.text, body]
      simp

theorem spells_of_readFrom {place : Place} {text : List Char} {chain : Chain}
    (read : readFrom place text = .ok chain) (labelled : place.Labelled) :
    Spells (place.begun ++ text) chain := by
  induction text generalizing place chain with
  | nil =>
    -- The end of the text completes the element that has been begun.
    rw [List.append_nil]
    cases place with
    | betweenElements =>
      cases read
      exact spells_nil
    | afterDot =>
      cases read
      exact spells_element .bareDot
    | inLabel seen =>
      cases read
      exact spells_single labelled
    | inGroup seen => cases read
  | cons c rest ih =>
    obtain ⟨next, done, later, step, after, rfl⟩ := exists_step read
    obtain ⟨spelled, same, spells⟩ := step.spells labelled
    have whole : place.begun ++ c :: rest = spelled ++ (next.begun ++ rest) := by
      rw [← List.append_assoc, ← same, List.append_assoc, List.singleton_append]
    rw [whole]
    exact spells.append (ih after (step.keeps labelled).1)

theorem read_eq_ok_iff {text : String} {chain : Chain} :
    read text = .ok chain ↔
      ∃ elements, text = spell elements ∧ chain = elements.map Element.selector := by
  constructor
  · intro made
    cases outcome : readFrom .betweenElements text.toList with
    | error fault =>
      rw [read, outcome] at made
      cases made
    | ok found =>
      rw [read, outcome] at made
      cases made
      obtain ⟨elements, same, rfl⟩ := spells_of_readFrom outcome trivial
      have whole : text.toList = elements.flatMap Element.text := same
      exact ⟨elements, by rw [spell, ← whole, String.ofList_toList], rfl⟩
  · rintro ⟨elements, rfl, rfl⟩
    rw [read, spell, String.toList_ofList, readFrom_elements]
    rfl

theorem Element.toList_text_selector (element : Element) :
    element.selector.text.toList = element.tidy.text := by
  match element with
  | bareDot => rfl
  | single label _ => simp [selector, tidy, text, Selector.text]
  | list first [] => simp [selector, tidy, text, Selector.text]
  | list first (second :: others) =>
    simp [selector, tidy, text, Selector.text, PaddedLabel.text, PaddedLabel.bare,
      Function.comp_def]

theorem text_eq_spell (elements : List Element) :
    text (elements.map Element.selector) = spell (elements.map Element.tidy) := by
  have characters : (text (elements.map Element.selector)).toList =
      (elements.map Element.tidy).flatMap Element.text := by
    induction elements with
    | nil => rfl
    | cons element later ih =>
      rw [List.map_cons, toList_text_cons, element.toList_text_selector, ih]
      rfl
  rw [spell, ← characters, String.ofList_toList]

/-- A text is read as a chain exactly if it consists of elements that spell the chain, and otherwise
it is reported whole. A chain that can be written is read back from its written form. So is whatever
has been read from a text, and its written form is the text without padding and without parentheses
around single labels. -/
theorem read_spelled (text : String) (chain : Chain) :
    (read text = .ok chain ↔
        ∃ elements, text = spell elements ∧ chain = elements.map Element.selector) ∧
      ((∀ elements, text ≠ spell elements) → ∃ fault, read text = .error ⟨text, fault⟩) ∧
      (chain.WellFormed → read chain.text = .ok chain) ∧
      (read text = .ok chain → read chain.text = .ok chain ∧
        ∀ elements, text = spell elements → chain.text = spell (elements.map Element.tidy)) := by
  refine ⟨read_eq_ok_iff, fun unspelled => ?_, read_text, fun made => ⟨?_, ?_⟩⟩
  · cases outcome : readFrom .betweenElements text.toList with
    | error fault => exact ⟨fault, by rw [read, outcome]; rfl⟩
    | ok found =>
      have made : read text = .ok found := by rw [read, outcome]; rfl
      obtain ⟨elements, spelled, _⟩ := read_eq_ok_iff.mp made
      exact absurd spelled (unspelled elements)
  · exact read_text (wellFormed_of_read made)
  · rintro elements rfl
    have same : read (spell elements) = .ok (elements.map Element.selector) :=
      read_eq_ok_iff.mpr ⟨elements, rfl, rfl⟩
    cases made.symm.trans same
    exact text_eq_spell elements

/-- Padded labels, a label alone in parentheses, and two resets. -/
def paddedText : String :=
  ".( M | F ).(one).."

def paddedChain : Chain :=
  [.anyOf [⟨"M"⟩, ⟨"F"⟩], .anyOf [⟨"one"⟩], .reset, .reset]

theorem read_spelled_padded :
    (paddedChain.WellFormed ∧ read paddedChain.text = .ok paddedChain) ∧
      (read paddedText = .ok paddedChain ∧ ∃ elements, paddedText = spell elements ∧
        paddedChain.text = spell (elements.map Element.tidy)) ∧
      (∀ elements, ".(M|)" ≠ spell elements) ∧
      ∃ fault, read ".(M|)" = .error ⟨".(M|)", fault⟩ := by
  have made : read paddedText = .ok paddedChain := rfl
  have failed : read ".(M|)" = .error ⟨".(M|)", .emptyLabel⟩ := rfl
  have unspelled : ∀ elements, ".(M|)" ≠ spell elements := fun elements same => by
    have accepted := (read_spelled ".(M|)" _).1.mpr ⟨elements, same, rfl⟩
    exact nomatch failed.symm.trans accepted
  have wellFormed : paddedChain.WellFormed := wellFormed_of_read made
  have whole := read_spelled paddedText paddedChain
  obtain ⟨elements, spelled, _⟩ := whole.1.mp made
  exact ⟨⟨wellFormed, whole.2.2.1 wellFormed⟩,
    ⟨made, elements, spelled, (whole.2.2.2 made).2 elements spelled⟩, unspelled,
    (read_spelled ".(M|)" []).2.1 unspelled⟩

end Chain

end SentenceGrammar
