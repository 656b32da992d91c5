import SentenceGrammar.Proofs.Chain.Spelling
import SentenceGrammar.Proofs.GrammarText.Tiling

/-! How the chains in a text are read. The links that are cut out of a text as a chain are read one
by one, and each that can be read is an element of the chain. So the scan and the reader agree on
where elements begin, and only what stands in parentheses can be at fault. -/

namespace SentenceGrammar

open Character Text

section Lists

variable {ε α β : Type} {action : α → Except ε β} {list : List α} {fault : ε}

theorem exists_first_fault (failed : list.mapM action = .error fault) :
    ∃ before element after results, list = before ++ element :: after ∧
      before.mapM action = .ok results ∧ action element = .error fault := by
  induction list with
  | nil => cases failed
  | cons first rest ih =>
    rw [List.mapM_cons] at failed
    cases here : action first with
    | error other =>
      rw [here] at failed
      cases failed
      exact ⟨[], first, rest, [], rfl, rfl, here⟩
    | ok result =>
      rw [here] at failed
      cases later : rest.mapM action with
      | ok results =>
        rw [later] at failed
        cases failed
      | error other =>
        rw [later] at failed
        cases failed
        obtain ⟨before, element, after, results, rfl, done, fails⟩ := ih later
        refine ⟨first :: before, element, after, result :: results, rfl, ?_, fails⟩
        rw [List.mapM_cons, here, done]
        rfl

end Lists

namespace Chain

/-- What is wrong with a name in a parenthesised list: there is nothing between the blanks around
it, or a character that no label has. -/
inductive Misnamed (name : List Char) : ChainFault → Prop where
  | empty (nothing : trimBlanks name = []) : Misnamed name .emptyLabel
  | invalid {c : Char} (inside : c ∈ trimBlanks name) (other : isLabelChar c = false) :
    Misnamed name (.invalidLabel (String.ofList (trimBlanks name)))

/-- What is wrong with the leftmost name between parentheses that is not a label. -/
def ListMisnamed (body : List Char) (fault : ChainFault) : Prop :=
  ∃ (padded : List PaddedLabel) (name : List Char) (others : List (List Char)),
    splitAt '|' body = padded.map PaddedLabel.text ++ name :: others ∧ Misnamed name fault

theorem misnamed_of_readName {name : List Char} {fault : ChainFault}
    (failed : readName name = .error fault) : Misnamed name fault := by
  rw [readName] at failed
  split at failed
  · rename_i nothing
    cases failed
    exact .empty (List.isEmpty_iff.mp nothing)
  split at failed
  · cases failed
  · rename_i notAll
    cases failed
    obtain ⟨c, inside, other⟩ := List.all_eq_false.mp (Bool.eq_false_iff.mpr notAll)
    exact .invalid inside (Bool.eq_false_iff.mpr other)

theorem readNames_eq_mapM (names : List (List Char)) : readNames names = names.mapM readName := by
  induction names with
  | nil => rfl
  | cons name others ih => rw [List.mapM_cons, readNames, ih]

theorem listMisnamed_of_readNames {body : List Char} {fault : ChainFault}
    (failed : readNames (splitAt '|' body) = .error fault) : ListMisnamed body fault := by
  rw [readNames_eq_mapM] at failed
  obtain ⟨before, name, others, labels, same, read, wrong⟩ := exists_first_fault failed
  rw [← readNames_eq_mapM] at read
  obtain ⟨padded, rfl, _⟩ := exists_padded_of_readNames read
  exact ⟨padded, name, others, same, misnamed_of_readName wrong⟩

theorem ListMisnamed.eq_or {body : List Char} {fault : ChainFault}
    (wrong : ListMisnamed body fault) :
    fault = .emptyLabel ∨ ∃ name, fault = .invalidLabel name := by
  obtain ⟨_, _, _, _, wrong⟩ := wrong
  cases wrong with
  | empty => exact .inl rfl
  | invalid => exact .inr ⟨_, rfl⟩

theorem readFrom_unclosed {seen body : List Char} (inside : ')' ∉ body) :
    readFrom (.inGroup seen) body = .error .unterminatedGroup := by
  induction body generalizing seen with
  | nil => rfl
  | cons c body ih =>
    simp only [List.mem_cons, not_or] at inside
    rw [readFrom, if_neg (Ne.symm inside.1), ih inside.2]

end Chain

namespace Token

open Chain

namespace Link

variable {link : Link} {links : List Link} {rest behind : List Char}

def selector : Link → Except ChainFault Selector
  | dot => .ok .reset
  | label name => .ok (.anyOf [⟨String.ofList name⟩])
  | closed body => do
    let labels ← readNames (splitAt '|' body)
    return .anyOf labels
  | unclosed _ => .error .unterminatedGroup

theorem readFrom_text (ends : link.EndsBefore rest) (dotted : ∀ c ∈ rest.head?, c = '.') :
    readFrom .betweenElements (link.text ++ rest) = do
      let first ← link.selector
      let later ← readFrom .betweenElements rest
      return first :: later := by
  cases link with
  | dot => exact readFrom_bareDot dotted
  | label name => exact readFrom_name ends.1 ends.2.1 dotted
  | closed body =>
    have opened : readFrom .betweenElements (text (closed body) ++ rest) =
        readFrom (.inGroup []) (body ++ ')' :: rest) := by
      simp [text, readFrom]
    rw [opened, readFrom_inGroup ends, selector]
    simp
  | unclosed body =>
    obtain ⟨inside, rfl⟩ := ends
    have opened : readFrom .betweenElements (text (unclosed body) ++ []) =
        readFrom (.inGroup []) body := by
      simp [text, readFrom]
    rw [opened, readFrom_unclosed inside]
    rfl

theorem readFrom_flatMap (ends : ListEndsBefore [] links) :
    readFrom .betweenElements (links.flatMap text) = links.mapM selector := by
  induction links with
  | nil => rfl
  | cons link later ih =>
    obtain ⟨here, after⟩ := ends
    rw [List.append_nil] at here
    rw [List.flatMap_cons, readFrom_text here (head?_flatMap_text later), ih after, List.mapM_cons]

theorem exists_element {found : Selector} (ends : link.EndsBefore rest)
    (read : link.selector = .ok found) :
    ∃ element : Element, element.text = link.text ∧ element.selector = found := by
  cases link with
  | dot =>
    cases read
    exact ⟨.bareDot, rfl, rfl⟩
  | label name =>
    cases read
    have selectable : Label.Selectable ⟨String.ofList name⟩ := by
      simpa [Label.Selectable] using ⟨ends.1, ends.2.1⟩
    exact ⟨.single _ selectable, by rw [Element.text, String.toList_ofList, text], rfl⟩
  | closed body =>
    cases names : readNames (splitAt '|' body) with
    | error fault =>
      rw [selector, names] at read
      cases read
    | ok labels =>
      rw [selector, names] at read
      cases read
      obtain ⟨padded, stretches, rfl⟩ := exists_padded_of_readNames names
      have whole := intercalate_splitAt '|' body
      rw [← stretches] at whole
      cases padded with
      | nil => exact absurd stretches.symm (splitAt_ne_nil _ _)
      | cons first others => exact ⟨.list first others, by rw [Element.text, whole, text], rfl⟩
  | unclosed body => cases read

def AreElements (links : List Link) (elements : List Element) : Prop :=
  elements.map Element.text = links.map text

theorem exists_elements {chain : Chain} (ends : ∀ link ∈ links, ∃ rest, link.EndsBefore rest)
    (read : links.mapM selector = .ok chain) :
    ∃ elements, AreElements links elements ∧ elements.map Element.selector = chain := by
  induction links generalizing chain with
  | nil =>
    cases read
    exact ⟨[], rfl, rfl⟩
  | cons link later ih =>
    rw [List.mapM_cons] at read
    obtain ⟨⟨rest, here⟩, after⟩ := List.forall_mem_cons.mp ends
    cases first : link.selector with
    | error fault =>
      rw [first] at read
      cases read
    | ok found =>
      rw [first] at read
      obtain ⟨others, behind, rfl⟩ := cons_eq_ok.mp read
      obtain ⟨element, same, rfl⟩ := exists_element here first
      obtain ⟨elements, sameBehind, rfl⟩ := ih after behind
      exact ⟨element :: elements, List.cons_eq_cons.mpr ⟨same, sameBehind⟩, rfl⟩

/-- What the links of a chain are read as. Either all of them are elements; or those ahead of a
parenthesised list are, in which a name is not a label; or all but the last are, which is a
parenthesis that is not closed. -/
inductive ReadAs (links : List Link) : Except ChainFault Chain → Prop where
  | chain {elements : List Element} (same : AreElements links elements) :
    ReadAs links (.ok (elements.map Element.selector))
  | misnamed {sound further : List Link} {elements : List Element} {body : List Char}
    {fault : ChainFault} (whole : links = sound ++ closed body :: further)
    (same : AreElements sound elements) (wrong : ListMisnamed body fault) :
    ReadAs links (.error fault)
  | unterminated {sound : List Link} {elements : List Element} {body : List Char}
    (whole : links = sound ++ [unclosed body]) (same : AreElements sound elements) :
    ReadAs links (.error .unterminatedGroup)

theorem readAs_mapM (ends : ListEndsBefore behind links) : ReadAs links (links.mapM selector) := by
  have each : ∀ link ∈ links, ∃ rest, link.EndsBefore rest := by
    intro link member
    obtain ⟨before, after, rfl⟩ := List.append_of_mem member
    exact ⟨_, ends.endsBefore⟩
  cases outcome : links.mapM selector with
  | ok chain =>
    obtain ⟨elements, same, rfl⟩ := exists_elements each outcome
    exact .chain same
  | error fault =>
    obtain ⟨sound, link, further, read, rfl, done, wrong⟩ := exists_first_fault outcome
    obtain ⟨elements, same, _⟩ := exists_elements (List.forall_mem_append.mp each).1 done
    cases link with
    | dot | label => cases wrong
    | closed body =>
      cases names : readNames (splitAt '|' body) with
      | ok labels =>
        rw [selector, names] at wrong
        cases wrong
      | error reported =>
        rw [selector, names] at wrong
        cases wrong
        exact .misnamed rfl same (listMisnamed_of_readNames names)
    | unclosed body =>
      cases wrong
      -- Nothing stands behind an open parenthesis, so it is the last link.
      obtain ⟨nothing, _⟩ := List.append_eq_nil_iff.mp ends.endsBefore.2
      cases eq_nil_of_flatMap_text nothing
      exact .unterminated rfl same

theorem ReadAs.behind_eq_nil (reads : ReadAs links (.error .unterminatedGroup))
    (ends : ListEndsBefore behind links) : behind = [] := by
  cases reads with
  | misnamed whole same wrong =>
    rcases wrong.eq_or with fault | ⟨name, fault⟩ <;> cases fault
  | unterminated whole same =>
    subst whole
    exact ends.endsBefore.2

theorem ReadAs.ne_misplaced {outcome : Except ChainFault Chain} (reads : ReadAs links outcome)
    (c : Char) : outcome ≠ .error (.expectedDot c) ∧ outcome ≠ .error (.unexpected c) := by
  cases reads with
  | chain | unterminated => exact ⟨nofun, nofun⟩
  | misnamed whole same wrong =>
    rcases wrong.eq_or with rfl | ⟨name, rfl⟩ <;> exact ⟨nofun, nofun⟩

theorem ReadAs.length_eq {chain : Chain} (reads : ReadAs links (.ok chain)) :
    chain.length = links.length := by
  cases reads with
  | chain same =>
    have lengths := congrArg List.length same
    rwa [List.length_map, List.length_map, ← List.length_map Element.selector] at lengths

end Link

/-- A chain that is cut out of a text consists of links, in one way only. It is read as a chain with
one selector for each of them, unless a name in parentheses is not a label or a parenthesis is not
closed; and a parenthesis that is not closed takes up the rest of the text, so that the chain is the
last token. There is always a dot where an element begins, and what follows a dot belongs to it. -/
theorem chain_read_by_links {text chain : String} {ahead later : List PlacedToken}
    {position : Position}
    (cut : tokenize text = .ok (ahead ++ ⟨.chain chain, position⟩ :: later)) :
    ∃ before links behind outcome,
      text.toList = before ++ chain.toList ++ behind ∧ position = .behind before ∧
      (∀ others, chain.toList = others.flatMap Link.text ∧ Link.ListEndsBefore behind others ↔
        others = links) ∧
      Chain.read chain = outcome.mapError (fun fault => ⟨chain, fault⟩) ∧
      Link.ReadAs links outcome ∧
      (∀ found, outcome = .ok found → found.length = links.length) ∧
      (outcome = .error .unterminatedGroup → behind = [] ∧ later = []) ∧
      ∀ c, outcome ≠ .error (.expectedDot c) ∧ outcome ≠ .error (.unexpected c) := by
  obtain ⟨tiles, covering, placed⟩ := exists_tiles cut
  obtain ⟨earlier, span, rest, rfl, stands, others⟩ := Tile.exists_of_placed placed.symm
  obtain ⟨_, here, after⟩ := Tile.listFits_append.mp covering.fits
  obtain ⟨rfl, links, spelled, ends⟩ := Spans.exists_links here
  rw [List.append_nil] at ends
  have reads := Link.readAs_mapM ends
  refine ⟨earlier.flatMap Tile.text, links, rest.flatMap Tile.text, links.mapM Link.selector, ?_,
    stands, fun others => ⟨?_, ?_⟩, ?_, reads, ?_, ?_, reads.ne_misplaced⟩
  · rw [covering.covers]
    simp [Tile.text]
  · rintro ⟨same, too⟩
    exact too.unique ends (same.symm.trans spelled)
  · rintro rfl
    exact ⟨spelled, ends⟩
  · rw [Chain.read, spelled, Link.readFrom_flatMap (ends.of_head (by simp))]
  · intro found made
    rw [made] at reads
    exact reads.length_eq
  · intro failed
    rw [failed] at reads
    have nothing := reads.behind_eq_nil ends
    refine ⟨nothing, ?_⟩
    rw [others, after.eq_nil nothing]
    rfl

/-- A sound chain of three elements ahead of an apostrophe, one with an empty name, and one that is
not closed. -/
def threeChains : String :=
  "S ::= A.one..( M|F )' B.(M|) C.(a ;"

theorem tokenize_threeChains : tokenize threeChains = .ok
    [⟨.word "S", ⟨1, 1⟩⟩, ⟨.define, ⟨1, 3⟩⟩, ⟨.word "A", ⟨1, 7⟩⟩,
      ⟨.chain ".one..( M|F )", ⟨1, 8⟩⟩, ⟨.word "'", ⟨1, 21⟩⟩, ⟨.word "B", ⟨1, 23⟩⟩,
      ⟨.chain ".(M|)", ⟨1, 24⟩⟩, ⟨.word "C", ⟨1, 30⟩⟩, ⟨.chain ".(a ;", ⟨1, 31⟩⟩] := by
  decide +kernel

theorem chain_read_by_links_threeChains :
    (∃ links elements, Link.AreElements links elements ∧ links.length = 3 ∧
      Chain.read ".one..( M|F )" = .ok (elements.map Element.selector)) ∧
    (∃ sound body further, ".(M|)".toList = (sound ++ .closed body :: further).flatMap Link.text ∧
      ListMisnamed body .emptyLabel ∧ Chain.read ".(M|)" = .error ⟨".(M|)", .emptyLabel⟩) ∧
    ∃ before, threeChains.toList = before ++ ".(a ;".toList ∧ Position.mk 1 31 = .behind before ∧
      Chain.read ".(a ;" = .error ⟨".(a ;", .unterminatedGroup⟩ := by
  have first : Chain.read ".one..( M|F )" =
      .ok [.anyOf [⟨"one"⟩], .reset, .anyOf [⟨"M"⟩, ⟨"F"⟩]] := rfl
  have second : Chain.read ".(M|)" = .error ⟨".(M|)", .emptyLabel⟩ := rfl
  have third : Chain.read ".(a ;" = .error ⟨".(a ;", .unterminatedGroup⟩ := rfl
  have cut : tokenize threeChains =
      .ok ([_, _, _] ++ ⟨.chain ".one..( M|F )", ⟨1, 8⟩⟩ :: _) := tokenize_threeChains
  have cutToo : tokenize threeChains =
      .ok ([_, _, _, _, _, _] ++ ⟨.chain ".(M|)", ⟨1, 24⟩⟩ :: _) := tokenize_threeChains
  have cutLast : tokenize threeChains =
      .ok ([_, _, _, _, _, _, _, _] ++ ⟨.chain ".(a ;", ⟨1, 31⟩⟩ :: _) := tokenize_threeChains
  refine ⟨?_, ?_, ?_⟩
  · obtain ⟨_, links, _, outcome, _, _, _, read, reads, length, _⟩ := chain_read_by_links cut
    cases reads with
    | chain same =>
      have found := Except.ok.inj (first.symm.trans read)
      exact ⟨links, _, same, by rw [← length _ rfl, ← found]; rfl, read⟩
    | misnamed | unterminated => cases first.symm.trans read
  · obtain ⟨_, links, _, outcome, _, _, unique, read, reads, _⟩ := chain_read_by_links cutToo
    have spelled := ((unique links).mpr rfl).1
    cases reads with
    | misnamed whole same wrong =>
      cases second.symm.trans read
      exact ⟨_, _, _, whole ▸ spelled, wrong, second⟩
    | chain | unterminated => cases second.symm.trans read
  · obtain ⟨before, links, behind, outcome, whole, place, _, read, _, _, last, _⟩ :=
      chain_read_by_links cutLast
    cases outcome with
    | ok found => cases third.symm.trans read
    | error fault =>
      cases third.symm.trans read
      obtain ⟨rfl, _⟩ := last rfl
      rw [List.append_nil] at whole
      exact ⟨before, whole, place, third⟩

end Token

end SentenceGrammar
