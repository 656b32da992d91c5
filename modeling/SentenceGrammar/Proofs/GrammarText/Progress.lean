import SentenceGrammar.Proofs.GrammarText.Cursor

/-! The cursor goes forward. Every step of a parser ends, with the cursor as far or further than
before and not beyond the tokens, or with a fault; and a fault that has a place lies at one of the
tokens. Each round of a loop, and each atom in front of nested productions, takes a token. That
bounds the rounds, and how deep calls are nested, by the number of tokens that are left. -/

namespace SentenceGrammar

open Character

namespace GrammarText

variable {α β : Type}

def LiesAtToken (tokens : List PlacedToken) (fault : GrammarTextFault) : Prop :=
  ∀ position why, fault = .syntaxAt position why → ∃ token ∈ tokens, token.position = position

theorem bind_parsing (action : Parsing α) (next : α → Parsing β) (cursor : Cursor) :
    (action >>= next) cursor =
      match action cursor with
      | .ok (result, final) => next result final
      | .error halt => .error halt := by
  simp only [bind, StateT.bind, Except.bind]
  cases action cursor <;> rfl

namespace Pass

/-- How a step ends that has begun at a cursor. It takes at least so many tokens and no more than
there are, or it fails. There is no way for it to stall. -/
inductive Ends (pass : Pass) (least : Nat) (begun : Cursor) : Except Halt (α × Cursor) → Prop where
  | taken {result : α} {final : Cursor} (further : begun.position + least ≤ final.position)
    (within : final.position ≤ pass.tokens.length) : Ends pass least begun (.ok (result, final))
  | failed {fault : GrammarTextFault} (located : LiesAtToken pass.tokens fault) :
    Ends pass least begun (.error (.fault fault))

/-- A step ends wherever it begins as expected, provided that fewer tokens are left than there is
room for nested calls. -/
def Proceeds (pass : Pass) (expected : Cursor → Prop) (least room : Nat) (action : Parsing α) :
    Prop :=
  pass.tokens ≠ [] → ∀ cursor : Cursor, cursor.position ≤ pass.tokens.length →
    pass.tokens.length < cursor.position + room → expected cursor →
    pass.Ends least cursor (action cursor)

def Anywhere (_ : Cursor) : Prop :=
  True

def Before (pass : Pass) (goesOn : Option Token → Bool) (cursor : Cursor) : Prop :=
  goesOn (pass.tokenAt cursor.position) = true

variable {pass : Pass} {expected : Cursor → Prop} {least more room : Nat}

theorem Ends.mono {lower : Nat} {begun : Cursor} {outcome : Except Halt (α × Cursor)}
    (ends : pass.Ends least begun outcome) (fits : lower ≤ least) :
    pass.Ends lower begun outcome := by
  cases ends with
  | taken further within => exact .taken (Nat.le_trans (Nat.add_le_add_left fits _) further) within
  | failed located => exact .failed located

theorem Ends.later {begun final : Cursor} {outcome : Except Halt (α × Cursor)}
    (ends : pass.Ends more final outcome) (further : begun.position + least ≤ final.position) :
    pass.Ends (least + more) begun outcome := by
  cases ends with
  | taken furthest within => exact .taken (by omega) within
  | failed located => exact .failed located

theorem lt_length_of_tokenAt {index : Nat} (present : pass.tokenAt index ≠ none) :
    index < pass.tokens.length := by
  rw [tokenAt, ne_eq, Option.map_eq_none_iff, List.getElem?_eq_none_iff] at present
  exact Nat.lt_of_not_le present

theorem Before.ne_none {goesOn : Option Token → Bool} {cursor : Cursor}
    (before : pass.Before goesOn cursor) (stops : goesOn none = false) :
    pass.tokenAt cursor.position ≠ none := by
  intro last
  rw [Before, last, stops] at before
  cases before

theorem ends_reportAt (filled : pass.tokens ≠ []) (index : Nat) (fault : SyntaxFault)
    (begun cursor : Cursor) :
    pass.Ends least begun (pass.reportAt index fault cursor : Except Halt (α × Cursor)) := by
  unfold reportAt
  cases found : pass.tokens[index]?.or pass.tokens.getLast? with
  | none => exact absurd (List.getLast?_eq_none_iff.mp (Option.or_eq_none_iff.mp found).2) filled
  | some token =>
    refine .failed ?_
    rintro _ _ ⟨⟩
    refine ⟨token, ?_, rfl⟩
    rcases Option.or_eq_some_iff.mp found with here | ⟨_, last⟩
    · exact List.mem_of_getElem? here
    · exact List.mem_of_getLast? last

namespace Proceeds

theorem mono {others : Cursor → Prop} {lower less : Nat} {action : Parsing α}
    (proceeds : pass.Proceeds expected least room action)
    (fewer : ∀ cursor, others cursor → expected cursor) (fits : lower ≤ least)
    (narrow : less ≤ room) : pass.Proceeds others lower less action := by
  intro filled cursor inside enough begins
  exact (proceeds filled cursor inside (by omega) (fewer _ begins)).mono fits

theorem lower {lower : Nat} {action : Parsing α}
    (proceeds : pass.Proceeds expected least room action) (fits : lower ≤ least) :
    pass.Proceeds expected lower room action :=
  proceeds.mono (fun _ => id) fits (Nat.le_refl room)

theorem pure (result : α) : pass.Proceeds expected 0 room (Pure.pure result) :=
  fun _ _ inside _ _ => .taken (Nat.le_refl _) inside

theorem sequence {first : Parsing α} {next : α → Parsing β}
    (here : pass.Proceeds expected least room first)
    (later : ∀ start, expected start → ∀ result,
      pass.Proceeds (fun cursor => start.position + least ≤ cursor.position) more (room - least)
        (next result)) :
    pass.Proceeds expected (least + more) room (first >>= next) := by
  intro filled cursor inside enough begins
  rw [bind_parsing]
  have ends := here filled cursor inside enough begins
  cases outcome : first cursor with
  | ok reached =>
    rw [outcome] at ends
    cases ends with
    | taken further within =>
      exact (later cursor begins _ filled _ within (by omega) further).later further
  | error halt =>
    rw [outcome] at ends
    cases ends with
    | failed located => exact .failed located

theorem andThen {first : Parsing α} {next : α → Parsing β}
    (here : pass.Proceeds expected least room first)
    (later : ∀ start, expected start → ∀ result,
      pass.Proceeds (fun cursor => start.position + least ≤ cursor.position) 0 (room - least)
        (next result)) :
    pass.Proceeds expected least room (first >>= next) :=
  here.sequence later

theorem bind {first : Parsing α} {next : α → Parsing β}
    (here : pass.Proceeds expected least room first)
    (later : ∀ result, pass.Proceeds Anywhere 0 room (next result)) :
    pass.Proceeds expected least room (first >>= next) :=
  here.andThen fun _ _ result =>
    (later result).mono (fun _ _ => trivial) (Nat.le_refl 0) (Nat.sub_le _ _)

theorem before {first : Parsing α} {next : α → Parsing β}
    (here : pass.Proceeds expected 0 room first)
    (later : ∀ result, pass.Proceeds Anywhere least room (next result)) :
    pass.Proceeds expected least room (first >>= next) := by
  rw [← Nat.zero_add least]
  exact here.sequence fun _ _ result =>
    (later result).mono (fun _ _ => trivial) (Nat.le_refl _) (Nat.le_refl _)

theorem get {next : Cursor → Parsing α}
    (later : ∀ start, pass.Proceeds expected least room (next start)) :
    pass.Proceeds expected least room (MonadState.get >>= next) :=
  fun filled cursor => later cursor filled cursor

theorem peekAt {offset : Nat} {next : Option Token → Parsing α}
    (later : ∀ found, pass.Proceeds
      (fun cursor => expected cursor ∧ pass.tokenAt (cursor.position + offset) = found) least room
      (next found)) :
    pass.Proceeds expected least room (pass.peekAt offset >>= next) :=
  fun filled cursor inside enough begins => later _ filled cursor inside enough ⟨begins, rfl⟩

theorem peek {next : Option Token → Parsing α}
    (later : ∀ found, pass.Proceeds
      (fun cursor => expected cursor ∧ pass.tokenAt cursor.position = found) least room
      (next found)) :
    pass.Proceeds expected least room (pass.peek >>= next) :=
  peekAt later

theorem skip {last : Nat} (present : ∀ cursor, expected cursor →
      pass.tokenAt (cursor.position + last) ≠ none) :
    pass.Proceeds expected (last + 1) room (skip (last + 1)) :=
  fun _ cursor _ _ begins =>
    .taken (Nat.le_refl _) (lt_length_of_tokenAt (present cursor begins))

/-- Taking a token makes up for one nested call. -/
theorem advance {next : Option Token → Parsing α}
    (nothing : pass.Proceeds Anywhere 1 (room + 1) (next none))
    (something : ∀ token,
      pass.Proceeds (fun cursor => 0 < cursor.position) 0 room (next (some token))) :
    pass.Proceeds expected 1 (room + 1) (pass.advance >>= next) := by
  rw [Pass.advance, bind_assoc]
  refine peek fun found => ?_
  cases found with
  | none => exact nothing.mono (fun _ _ => trivial) (Nat.le_refl _) (Nat.le_refl _)
  | some token =>
    rw [bind_assoc]
    refine andThen (skip fun _ begins => by simp [begins]) fun start _ _ => ?_
    exact (something token).mono (fun _ => Nat.lt_of_lt_of_le (Nat.succ_pos _)) (Nat.le_refl _)
      (Nat.le_refl _)

theorem reportAt (index : Nat) (fault : SyntaxFault) :
    pass.Proceeds expected least room (pass.reportAt index fault : Parsing α) :=
  fun filled cursor _ _ _ => ends_reportAt filled index fault cursor cursor

theorem report (fault : SyntaxFault) :
    pass.Proceeds expected least room (pass.report fault : Parsing α) :=
  get fun start => reportAt start.position fault

theorem expect (wanted : Token) : pass.Proceeds expected 1 room (pass.expect wanted) := by
  refine peek fun found => ?_
  split
  · rename_i same
    exact skip fun _ begins => by simp [begins, same]
  · exact report _

theorem chain : pass.Proceeds expected 0 room pass.chain := by
  refine peek fun found => ?_
  split
  · split
    · exact (bind (skip fun _ begins => by simp [begins]) fun _ => pure _).lower (Nat.zero_le _)
    · exact fun _ _ _ _ _ => .failed nofun
  · exact pure _

theorem junction : pass.Proceeds expected 0 room pass.junction := by
  refine peek fun found => ?_
  split
  · rename_i same
    exact (bind (skip fun _ begins => by simp [begins, same]) fun _ => pure _).lower (Nat.zero_le _)
  · exact pure _

theorem label : pass.Proceeds expected 0 room pass.label := by
  refine peek fun first => peekAt fun second => ?_
  split
  · exact (bind (skip fun _ begins => by simp [begins]) fun _ => pure _).lower (Nat.zero_le _)
  · exact pure _

/-- A loop whose rounds all take a token has no more rounds than tokens are left. -/
theorem loop {goesOn : Option Token → Bool} {round : α → Parsing α} (stops : goesOn none = false)
    (proceeds : ∀ value, pass.Proceeds (pass.Before goesOn) 1 room (round value)) (value : α) :
    pass.Proceeds expected 0 room (pass.loop goesOn round pass.tokens.length value) := by
  have ends : ∀ rounds value, pass.Proceeds
      (fun cursor => pass.tokens.length ≤ cursor.position + rounds) 0 room
      (pass.loop goesOn round rounds value) := by
    intro rounds
    induction rounds with
    | zero =>
      intro value
      refine peek fun found => ?_
      split
      · rename_i on
        rintro _ cursor _ _ ⟨finished, rfl⟩
        have last : pass.tokenAt cursor.position = none := by simpa [tokenAt] using finished
        rw [last, stops] at on
        cases on
      · exact pure _
    | succ rounds ih =>
      intro value
      refine peek fun found => ?_
      split
      · rename_i on
        have begins : ∀ cursor, (pass.tokens.length ≤ cursor.position + (rounds + 1) ∧
            pass.tokenAt cursor.position = found) → pass.Before goesOn cursor := by
          rintro _ ⟨_, rfl⟩
          exact on
        have first := (proceeds value).mono begins (Nat.le_refl _) (Nat.le_refl _)
        refine (first.andThen fun start left result => ?_).lower (Nat.zero_le 1)
        exact (ih result).mono (fun _ further => by omega) (Nat.le_refl _) (Nat.sub_le _ _)
      · exact pure _
  exact (ends _ value).mono (fun _ _ => Nat.le_add_left _ _) (Nat.le_refl _) (Nat.le_refl _)

theorem defer : pass.Proceeds expected 0 room defer :=
  fun _ _ inside _ _ => .taken (Nat.le_refl _) inside

theorem stepBack {fault : SyntaxFault} :
    pass.Proceeds (fun cursor => 0 < cursor.position) least room
      (stepBack >>= fun _ => pass.report fault : Parsing α) := by
  rintro filled ⟨_ | before, deferred⟩ inside enough begins
  · exact absurd begins (Nat.lt_irrefl 0)
  · exact ends_reportAt filled before fault _ ⟨before, deferred⟩

section Levels

variable {inner : Parsing (List Alternative)}

theorem group (inside : pass.Proceeds Anywhere 0 room inner) (closing : Token)
    (added : List Alternative) :
    pass.Proceeds Anywhere 0 room (pass.group inner closing added) :=
  inside.bind fun _ => ((expect closing).bind fun _ => chain.bind fun _ => pure _).lower
    (Nat.zero_le 1)

theorem unitFrom (inside : pass.Proceeds Anywhere 0 room inner) (token : Token) :
    pass.Proceeds (fun cursor => 0 < cursor.position) 0 room (pass.unitFrom inner token) := by
  have enclosed : ∀ closing added, pass.Proceeds (fun cursor => 0 < cursor.position) 0 room
      (pass.group inner closing added) := fun closing added =>
    (inside.group closing added).mono (fun _ _ => trivial) (Nat.le_refl _) (Nat.le_refl _)
  cases token with
  | word | quoted => exact chain.bind fun _ => pure _
  | openParen | openBracket => exact enclosed _ _
  | _ => exact stepBack

theorem unit (inside : pass.Proceeds Anywhere 0 room inner) :
    pass.Proceeds expected 1 (room + 1) (pass.unit inner) :=
  advance (report _) inside.unitFrom

theorem nextChoice (inside : pass.Proceeds Anywhere 0 room inner) (choices : List Atom) :
    pass.Proceeds (pass.Before (· == some .comma)) 1 (room + 1) (pass.nextChoice inner choices) :=
  (skip fun _ begins => begins.ne_none rfl).bind fun _ =>
    (inside.unit.bind fun _ => pure _).lower (Nat.zero_le 1)

theorem atom (inside : pass.Proceeds Anywhere 0 room inner) :
    pass.Proceeds expected 1 (room + 1) (pass.atom inner) := by
  refine inside.unit.bind fun first => peek fun found => ?_
  split
  · exact (loop rfl inside.nextChoice _).bind fun _ => pure _
  · exact pure _

theorem splice (junction : Junction) (index : Nat) (atom : Atom) :
    pass.Proceeds expected 0 room (pass.splice junction index atom) := by
  unfold Pass.splice
  split
  · exact pure _
  · split
    · exact defer.bind fun _ => pure _
    · split
      · exact pure _
      · exact reportAt _ _
  all_goals exact reportAt _ _

theorem unfolded (inside : pass.Proceeds Anywhere 0 room inner) (junction : Junction) :
    pass.Proceeds expected 1 (room + 1) (pass.unfolded inner junction) :=
  get fun _ => inside.unit.bind fun _ => splice _ _ _

theorem item (inside : pass.Proceeds Anywhere 0 room inner) :
    pass.Proceeds expected 1 (room + 1) (pass.item inner) := by
  refine junction.before fun junction => peek fun found => ?_
  split
  · rename_i sign
    exact (skip fun _ begins => by simp [begins, sign]).bind fun _ =>
      (inside.unfolded junction).lower (Nat.zero_le 1)
  · exact inside.atom.bind fun _ => pure _

theorem nextItem (inside : pass.Proceeds Anywhere 0 room inner) (fragments : List Fragment) :
    pass.Proceeds expected 1 (room + 1) (pass.nextItem inner fragments) :=
  inside.item.bind fun _ => pure _

theorem production (inside : pass.Proceeds Anywhere 0 room inner) :
    pass.Proceeds expected 0 (room + 1) (pass.production inner) := by
  refine label.bind fun label => (loop rfl inside.nextItem _).bind fun fragments => ?_
  split
  · exact report _
  · exact pure _

theorem nextProduction (inside : pass.Proceeds Anywhere 0 room inner)
    (alternatives : List Alternative) :
    pass.Proceeds (pass.Before (· == some .bar)) 1 (room + 1)
      (pass.nextProduction inner alternatives) :=
  (skip fun _ begins => begins.ne_none rfl).bind fun _ => inside.production.bind fun _ => pure _

end Levels

theorem productions (room : Nat) : pass.Proceeds expected 0 room (pass.productions room) := by
  induction room generalizing expected with
  | zero => exact fun _ cursor inside enough _ => absurd enough (Nat.not_lt_of_le inside)
  | succ room ih => exact ih.production.bind fun first => loop rfl ih.nextProduction first

theorem definition (begun : List Symbol × Rules) (symbol : Symbol)
    (present : ∀ cursor, expected cursor → pass.tokenAt cursor.position ≠ none) :
    pass.Proceeds expected 1 (pass.tokens.length + 1) (pass.definition begun symbol) := by
  refine (skip present).andThen fun _ _ _ => ?_
  refine ((expect .define).bind fun _ => ?_).lower (Nat.zero_le 1)
  exact (productions _).bind fun _ =>
    ((expect .semicolon).bind fun _ => pure _).lower (Nat.zero_le 1)

theorem nextDefinition (begun : List Symbol × Rules) :
    pass.Proceeds expected 1 (pass.tokens.length + 1) (pass.nextDefinition begun) := by
  refine peek fun found => ?_
  split
  · split
    · split
      · exact report _
      · exact definition begun _ fun _ begins => by simp [begins]
    · exact report _
  · exact report _

end Proceeds

/-- Whatever is repeated or calls itself takes a token, with room for so many nested calls. -/
structure GoesForward (pass : Pass) (room : Nat) : Prop where
  unit : pass.Proceeds Anywhere 1 (room + 1) (pass.unit (pass.productions room))
  item : pass.Proceeds Anywhere 1 (room + 1) (pass.item (pass.productions room))
  nextChoice : ∀ choices, pass.Proceeds (pass.Before (· == some .comma)) 1 (room + 1)
    (pass.nextChoice (pass.productions room) choices)
  nextItem : ∀ fragments, pass.Proceeds (pass.Before goesOn) 1 (room + 1)
    (pass.nextItem (pass.productions room) fragments)
  nextProduction : ∀ alternatives, pass.Proceeds (pass.Before (· == some .bar)) 1 (room + 1)
    (pass.nextProduction (pass.productions room) alternatives)
  nextDefinition : ∀ begun, pass.Proceeds (pass.Before Option.isSome) 1 (pass.tokens.length + 1)
    (pass.nextDefinition begun)

theorem goesForward (pass : Pass) (room : Nat) : pass.GoesForward room where
  unit := (Proceeds.productions room).unit
  item := (Proceeds.productions room).item
  nextChoice := (Proceeds.productions room).nextChoice
  nextItem := (Proceeds.productions room).nextItem
  nextProduction := (Proceeds.productions room).nextProduction
  nextDefinition := .nextDefinition

theorem ends_build (start : Symbol) (rules : Rules) {cursor : Cursor}
    (inside : cursor.position ≤ pass.tokens.length) :
    pass.Ends 0 cursor (build start rules cursor) := by
  unfold build Definition.startingFrom
  cases Grammar.ofRules rules start with
  | ok grammar => exact .taken (Nat.le_refl _) inside
  | error fault => exact .failed nofun

theorem ends_document (pass : Pass) (start : Symbol) :
    pass.Ends 0 ⟨0, 0⟩ (pass.document start ⟨0, 0⟩) := by
  by_cases empty : pass.tokens = []
  · obtain ⟨_, symbols⟩ := pass
    cases empty
    exact ends_build start .empty (Nat.le_refl 0)
  · have proceeds : pass.Proceeds Anywhere 0 (pass.tokens.length + 1) (pass.document start) :=
      (Proceeds.loop rfl (fun _ => .nextDefinition _) _).bind fun definitions =>
        fun _ _ inside _ _ => ends_build start definitions.2 inside
    exact proceeds empty _ (Nat.zero_le _) (by omega) trivial

end Pass

end GrammarText

end SentenceGrammar
