import SentenceGrammar.Proofs.GrammarText.Framing

/-! Where reading a phrase goes wrong. What stands ahead of a syntax fault may be completed to a
phrase, and with the first of the remaining tokens it may not; except that a term behind an unfold
sign is at fault as a whole if it has a chain. There is one lemma for each way in which reading a
phrase fails. -/

namespace SentenceGrammar

open Character

namespace GrammarText

/-- A term that may stand behind an unfold sign, or any phrase that is no term. -/
def Category.Unfoldable : (category : Category) → category.Value → Prop
  | .term, value => unfoldFault value = none
  | .branches, _ | .branch, _ | .pieces, _ | .piece, _ | .others, _ => True

/-- Tokens that others make a phrase of. -/
def Category.Completable (category : Category) (front : List PlacedToken) : Prop :=
  ∃ tail, ∀ other, category.EndsBefore other →
    ∃ value, Reads category (front ++ (tail ++ other)) value other ∧ category.Unfoldable value

def Category.Stuck (category : Category) (front : List PlacedToken) (token : PlacedToken) : Prop :=
  ∀ later value rest, ¬Reads category (front ++ token :: later) value rest

/-- A phrase can go on up to the remaining tokens, but, unless the fault is a chain behind an
unfolded term, not with the first of them. -/
structure Offends (category : Category) (front remaining : List PlacedToken) (why : SyntaxFault) :
    Prop where
  completable : category.Completable front
  stuck : why ≠ .unfoldWithChain → ∀ token behind, remaining = token :: behind →
    category.Stuck front token

/-- A name that completes a phrase in which a term is missing. -/
def filler : PlacedToken :=
  ⟨.word "A", .first⟩

section Filler

variable {other : List PlacedToken}

theorem reads_filler (ends : Category.term.EndsBefore other) :
    Reads .term (filler :: other) (.reference ⟨"A"⟩ []) other := by
  have named : Term.ofWord "A" [] = .reference ⟨"A"⟩ [] := by
    rw [Term.ofWord, if_neg (by decide), if_pos (by decide)]
  rw [← named]
  exact .word ((takes_readChain_other ends).mpr ⟨rfl, rfl⟩)

theorem reads_filler_pieces (ends : endsBranch other = true) :
    Reads .pieces (filler :: other) [.plain .space (.reference ⟨"A"⟩ []) []] other := by
  obtain ⟨noComma, noChain⟩ := Derivation.endsBefore_of_endsBranch ends
  have joined : [].map PlacedToken.token = junctionTokens .space := rfl
  exact .lastPiece (.plain joined (reads_filler noChain) (.noOther noComma)) ends

theorem reads_word_pieces (text : String) (position : Position) :
    ∃ value, Reads .pieces [⟨.word text, position⟩] value [] := by
  have joined : [].map PlacedToken.token = junctionTokens .space := rfl
  have chained : Takes (readChain []) [] [] :=
    (takes_readChain_other (by simp [firstToken])).mpr ⟨rfl, rfl⟩
  exact ⟨_, .lastPiece (.plain joined (.word chained) (.noOther (by simp [firstToken]))) rfl⟩

end Filler

theorem Reads.endsBefore_others {tokens rest : List PlacedToken} {values : List Term}
    (reads : Reads .others tokens values rest) (ends : Category.term.EndsBefore rest) :
    Category.term.EndsBefore tokens := by
  cases reads with
  | noOther => exact ends
  | nextOther => exact fun text first => by cases first

theorem exists_unfoldedPiece {value : Term} (unfoldable : unfoldFault value = none)
    (junction : Junction) (position : Position) :
    ∃ piece, unfoldedPiece junction position value = some piece := by
  rcases value with _ | ⟨symbol, _ | _⟩ | ⟨branches, _ | _⟩ | ⟨branches, _ | _⟩ | _ <;>
    cases unfoldable <;> exact ⟨_, rfl⟩

theorem unfoldedPiece_eq_none {token : PlacedToken} {behind later rest left : List PlacedToken}
    {value other : Term} {why : SyntaxFault} (reads : Reads .term (token :: behind) value rest)
    (wrong : unfoldFault value = some why) (noChain : why ≠ .unfoldWithChain)
    (readsToo : Reads .term (token :: later) other left) (junction : Junction)
    (position : Position) : unfoldedPiece junction position other = none := by
  cases reads with
  | @word _ _ text chain =>
    cases readsToo with
    | @word _ _ _ another =>
      cases made : unfoldedPiece junction position (.ofWord text another) with
      | none => rfl
      | some piece =>
        obtain ⟨uppercase, _⟩ := uppercase_of_unfoldedPiece made
        have other : text ≠ "_" := by
          rintro rfl
          exact absurd uppercase (by decide)
        rw [Term.ofWord, if_neg other, if_pos uppercase] at wrong
        cases chain with
        | nil => cases wrong
        | cons => exact absurd (Option.some.inj wrong).symm noChain
    | enclosed encloses => cases encloses
  | quoted =>
    cases readsToo with
    | quoted => rfl
    | enclosed encloses => cases encloses
  | @enclosed _ _ _ _ _ _ _ chain _ _ encloses =>
    cases chain with
    | nil => cases encloses <;> cases wrong
    | cons => cases encloses <;> exact absurd (Option.some.inj wrong).symm noChain

theorem Encloses.endsBefore {opening closing : Token} {make : List Branch → Chain → Term}
    (encloses : Encloses opening closing make) (position : Position) (other : List PlacedToken) :
    Category.branches.EndsBefore (⟨closing, position⟩ :: other) := by
  cases encloses <;> exact ⟨rfl, by simp [firstToken]⟩

namespace Offends

variable {front remaining taken : List PlacedToken} {why : SyntaxFault}

theorem firstBranch (offends : Offends .branch front remaining why) :
    Offends .branches front remaining why where
  completable := by
    obtain ⟨tail, completes⟩ := offends.completable
    refine ⟨tail, fun other ends => ?_⟩
    obtain ⟨value, branch, _⟩ := completes other ends.1
    exact ⟨[value], .lastBranch branch ends.2, trivial⟩
  stuck different token behind same later values rest reads := by
    cases reads with
    | lastBranch branch | nextBranch branch =>
      exact offends.stuck different token behind same later _ _ branch

theorem laterBranch {value : Branch} {bar : Position}
    (framed : ∀ more, Reads .branch (taken ++ ⟨.bar, bar⟩ :: more) value (⟨.bar, bar⟩ :: more))
    (offends : Offends .branches front remaining why) :
    Offends .branches (taken ++ ⟨.bar, bar⟩ :: front) remaining why where
  completable := by
    obtain ⟨tail, completes⟩ := offends.completable
    refine ⟨tail, fun other ends => ?_⟩
    obtain ⟨values, branches, _⟩ := completes other ends
    rw [List.append_assoc]
    exact ⟨_, .nextBranch (framed _) branches, trivial⟩
  stuck different token behind same later values rest reads := by
    rw [List.append_assoc, List.cons_append] at reads
    cases reads with
    | lastBranch branch ends =>
      obtain ⟨_, rfl⟩ := branch.unique (framed _)
      exact ends rfl
    | nextBranch branch more =>
      obtain ⟨_, same'⟩ := branch.unique (framed _)
      cases same'
      exact offends.stuck different token behind same later _ _ more

theorem empty {label : Option String} (opened : front.map PlacedToken.token = labelTokens label)
    (ends : endsBranch remaining = true) : Offends .branch front remaining .emptyAlternative where
  completable := by
    refine ⟨[filler], fun other stops => ?_⟩
    have pieces := reads_filler_pieces stops
    exact ⟨_, .sequence opened (fun _ => pieces.beginsWithLabel_eq) pieces.endsBranch_eq pieces,
      trivial⟩
  stuck _ token behind same later value rest reads := by
    have endsToo : endsBranch (token :: later) = true := by
      rw [same] at ends
      exact ends
    have bare := beginsWithLabel_of_endsBranch endsToo
    obtain ⟨filled, _⟩ := (takes_readBranch opened fun _ => bare).mp reads.takes
    exact nomatch endsToo.symm.trans filled

theorem beginsWithLabel_eq (offends : Offends .pieces front remaining why)
    (different : why ≠ .unfoldWithChain) {token : PlacedToken} {behind : List PlacedToken}
    (same : remaining = token :: behind)
    (bare : beginsWithLabel ((front ++ remaining).map PlacedToken.token) = false)
    (later : List PlacedToken) :
    beginsWithLabel ((front ++ token :: later).map PlacedToken.token) = false := by
  subst same
  obtain _ | ⟨first, _ | ⟨second, others⟩⟩ := front
  · -- The one token that is left decides alone, since pieces may begin with any word.
    obtain ⟨kind, position⟩ := token
    cases kind with
    | word text =>
      obtain ⟨value, reads⟩ := reads_word_pieces text position
      exact absurd reads (offends.stuck different _ _ rfl [] value [])
    | _ => rfl
  · obtain ⟨kind, _⟩ := first
    obtain ⟨next, _⟩ := token
    cases kind with
    | word text => cases next <;> first | rfl | cases bare
    | _ => rfl
  · obtain ⟨kind, _⟩ := first
    obtain ⟨next, _⟩ := second
    cases kind with
    | word text => cases next <;> first | rfl | cases bare
    | _ => rfl

theorem sequence {opening : List PlacedToken} {label : Option String}
    (opened : opening.map PlacedToken.token = labelTokens label)
    (bare : label = none → beginsWithLabel ((front ++ remaining).map PlacedToken.token) = false)
    (offends : Offends .pieces front remaining why) :
    Offends .branch (opening ++ front) remaining why where
  completable := by
    obtain ⟨tail, completes⟩ := offends.completable
    refine ⟨tail, fun other ends => ?_⟩
    obtain ⟨values, pieces, _⟩ := completes other ends
    rw [List.append_assoc]
    exact ⟨_, .sequence opened (fun _ => pieces.beginsWithLabel_eq) pieces.endsBranch_eq pieces,
      trivial⟩
  stuck different token behind same later value rest reads := by
    rw [List.append_assoc] at reads
    have bareToo := fun absent => offends.beginsWithLabel_eq different same (bare absent) later
    obtain ⟨_, pieces, taken, _⟩ := (takes_readBranch opened bareToo).mp reads.takes
    exact offends.stuck different token behind same later _ _ (reads_pieces taken)

theorem firstPiece (offends : Offends .piece front remaining why) :
    Offends .pieces front remaining why where
  completable := by
    obtain ⟨tail, completes⟩ := offends.completable
    refine ⟨tail, fun other ends => ?_⟩
    obtain ⟨value, piece, _⟩ := completes other (Derivation.endsBefore_of_endsBranch ends)
    exact ⟨[value], .lastPiece piece ends, trivial⟩
  stuck different token behind same later values rest reads := by
    cases reads with
    | lastPiece piece | nextPiece piece =>
      exact offends.stuck different token behind same later _ _ piece

theorem laterPiece {value : Piece}
    (framed : ∀ other, Category.piece.Follows (front ++ remaining) other →
      Reads .piece (taken ++ other) value other)
    (goesOn : endsBranch (front ++ remaining) = false)
    (offends : Offends .pieces front remaining why) :
    Offends .pieces (taken ++ front) remaining why where
  completable := by
    obtain ⟨tail, completes⟩ := offends.completable
    refine ⟨tail, fun other ends => ?_⟩
    obtain ⟨values, pieces, _⟩ := completes other ends
    rw [List.append_assoc]
    exact ⟨_, .nextPiece (framed _ (.inl pieces.endsBefore)) pieces.endsBranch_eq pieces, trivial⟩
  stuck different token behind same later values rest reads := by
    subst same
    rw [List.append_assoc] at reads
    have first : firstToken (front ++ token :: later) = firstToken (front ++ token :: behind) :=
      firstToken_append_eq front rfl
    have piece := framed _ (.inr first)
    cases reads with
    | lastPiece pieceToo ends =>
      obtain ⟨_, rfl⟩ := piece.unique pieceToo
      exact nomatch ends.symm.trans ((endsBranch_congr first).trans goesOn)
    | nextPiece pieceToo _ pieces =>
      obtain ⟨_, rfl⟩ := piece.unique pieceToo
      exact offends.stuck different token behind rfl later _ _ pieces

section Pieces

variable {joint : List PlacedToken} {junction : Junction}
  (joined : joint.map PlacedToken.token = junctionTokens junction)
include joined

theorem firstTerm (bare : junction = .space → firstToken (front ++ remaining) ≠ some .caret)
    (folded : firstToken (front ++ remaining) ≠ some .unfold)
    (offends : Offends .term front remaining why) :
    Offends .piece (joint ++ front) remaining why where
  completable := by
    obtain ⟨tail, completes⟩ := offends.completable
    refine ⟨tail, fun other ends => ?_⟩
    obtain ⟨value, term, _⟩ := completes other ends.2
    rw [List.append_assoc]
    exact ⟨_, .plain joined term (.noOther ends.1), trivial⟩
  stuck different token behind same later value rest reads := by
    subst same
    rw [List.append_assoc] at reads
    have first : firstToken (front ++ token :: later) = firstToken (front ++ token :: behind) :=
      firstToken_append_eq front rfl
    rw [← first] at bare folded
    have piece := (takes_readPiece_iff joined bare).mp reads.takes
    obtain ⟨_, _, _, term, _⟩ := (takes_readJoined_plain folded).mp piece
    exact offends.stuck different token behind rfl later _ _ (reads_term term)

theorem laterTerm {value : Term}
    (framed : ∀ other, Category.term.Follows (front ++ remaining) other →
      Reads .term (taken ++ other) value other)
    (offends : Offends .others front remaining why) :
    Offends .piece (joint ++ (taken ++ front)) remaining why where
  completable := by
    obtain ⟨tail, completes⟩ := offends.completable
    refine ⟨tail, fun other ends => ?_⟩
    obtain ⟨values, others, _⟩ := completes other ends
    rw [List.append_assoc, List.append_assoc]
    exact ⟨_, .plain joined (framed _ (.inl (others.endsBefore_others ends.2))) others, trivial⟩
  stuck different token behind same later piece rest reads := by
    subst same
    rw [List.append_assoc, List.append_assoc] at reads
    have term := framed (front ++ token :: later) (.inr (firstToken_append_eq front rfl))
    have piece := (takes_readPiece_iff joined fun _ => term.firstToken_ne rfl).mp reads.takes
    obtain ⟨_, _, _, termToo, others, _⟩ :=
      (takes_readJoined_plain (term.firstToken_ne rfl)).mp piece
    obtain ⟨_, rfl⟩ := term.unique (reads_term termToo)
    exact offends.stuck different token behind rfl later _ _ (reads_others others)

theorem unfoldedTerm {sign : Position} (offends : Offends .term front remaining why) :
    Offends .piece (joint ++ ⟨.unfold, sign⟩ :: front) remaining why where
  completable := by
    obtain ⟨tail, completes⟩ := offends.completable
    refine ⟨tail, fun other ends => ?_⟩
    obtain ⟨value, term, unfoldable⟩ := completes other ends.2
    obtain ⟨piece, made⟩ := exists_unfoldedPiece unfoldable junction
      (firstPosition (front ++ (tail ++ other)))
    rw [List.append_assoc]
    exact ⟨piece, .unfolded joined term made, trivial⟩
  stuck different token behind same later value rest reads := by
    rw [List.append_assoc] at reads
    have piece := (takes_readPiece_iff joined fun _ => firstToken_unfold_ne_caret).mp reads.takes
    obtain ⟨_, term, _⟩ := takes_readJoined_unfold.mp piece
    exact offends.stuck different token behind same later _ _ (reads_term term)

theorem unfolded {rest : List PlacedToken} {value : Term} {sign : Position}
    (term : Reads .term remaining value rest) (wrong : unfoldFault value = some why) :
    Offends .piece (joint ++ [⟨.unfold, sign⟩]) remaining why where
  completable := by
    refine ⟨[filler], fun other ends => ?_⟩
    rw [List.append_assoc]
    exact ⟨_, .unfolded joined (reads_filler ends.2) rfl, trivial⟩
  stuck different token behind same later piece left reads := by
    subst same
    rw [List.append_assoc] at reads
    have taken := (takes_readPiece_iff joined fun _ => firstToken_unfold_ne_caret).mp reads.takes
    obtain ⟨_, termToo, made⟩ := takes_readJoined_unfold.mp taken
    rw [unfoldedPiece_eq_none term wrong different (reads_term termToo)] at made
    cases made

end Pieces

theorem nextTerm {comma : Position} (offends : Offends .term front remaining why) :
    Offends .others (⟨.comma, comma⟩ :: front) remaining why where
  completable := by
    obtain ⟨tail, completes⟩ := offends.completable
    refine ⟨tail, fun other ends => ?_⟩
    obtain ⟨value, term, _⟩ := completes other ends.2
    exact ⟨_, .nextOther term (.noOther ends.1), trivial⟩
  stuck different token behind same later values rest reads := by
    obtain ⟨_, _, _, term, _⟩ := takes_readOthers_comma.mp reads.takes
    exact offends.stuck different token behind same later _ _ (reads_term term)

theorem laterOther {value : Term} {comma : Position}
    (framed : ∀ other, Category.term.Follows (front ++ remaining) other →
      Reads .term (taken ++ other) value other)
    (offends : Offends .others front remaining why) :
    Offends .others (⟨.comma, comma⟩ :: (taken ++ front)) remaining why where
  completable := by
    obtain ⟨tail, completes⟩ := offends.completable
    refine ⟨tail, fun other ends => ?_⟩
    obtain ⟨values, others, _⟩ := completes other ends
    rw [List.cons_append, List.append_assoc]
    exact ⟨_, .nextOther (framed _ (.inl (others.endsBefore_others ends.2))) others, trivial⟩
  stuck different token behind same later values rest reads := by
    subst same
    rw [List.cons_append, List.append_assoc] at reads
    have term := framed (front ++ token :: later) (.inr (firstToken_append_eq front rfl))
    obtain ⟨_, _, _, termToo, others, _⟩ := takes_readOthers_comma.mp reads.takes
    obtain ⟨_, rfl⟩ := term.unique (reads_term termToo)
    exact offends.stuck different token behind rfl later _ _ (reads_others others)

theorem noTerm (absent : ∀ token ∈ firstToken remaining, token.opensTerm = false) :
    Offends .term [] remaining why where
  completable := ⟨[filler], fun _ ends => ⟨_, reads_filler ends, rfl⟩⟩
  stuck _ token behind same later value rest reads := by
    subst same
    obtain ⟨_, ⟨⟩, opens⟩ := reads.exists_opensTerm
    exact nomatch opens.symm.trans (absent _ rfl)

section Enclosed

variable {opening closing : Token} {make : List Branch → Chain → Term} {start : Position}
  (encloses : Encloses opening closing make)
include encloses

theorem inside (offends : Offends .branches front remaining why) :
    Offends .term (⟨opening, start⟩ :: front) remaining why where
  completable := by
    obtain ⟨tail, completes⟩ := offends.completable
    refine ⟨tail ++ [⟨closing, .first⟩], fun other ends => ?_⟩
    obtain ⟨values, branches, _⟩ :=
      completes (⟨closing, .first⟩ :: other) (encloses.endsBefore .first other)
    have chain : Takes (readChain other) [] other := (takes_readChain_other ends).mpr ⟨rfl, rfl⟩
    rw [List.cons_append, List.append_assoc tail]
    exact ⟨_, .enclosed encloses branches chain, by cases encloses <;> rfl⟩
  stuck different token behind same later value rest reads := by
    obtain ⟨_, _, _, _, branches, _⟩ := encloses.takes_iff.mp reads.takes
    exact offends.stuck different token behind same later _ _ (reads_branches branches)

theorem unclosed {values : List Branch}
    (framed : ∀ other, Category.branches.Follows remaining other →
      Reads .branches (taken ++ other) values other)
    (absent : firstToken remaining ≠ some closing) :
    Offends .term (⟨opening, start⟩ :: taken) remaining why where
  completable := by
    refine ⟨[⟨closing, .first⟩], fun other ends => ?_⟩
    have branches := framed (⟨closing, .first⟩ :: other) (.inl (encloses.endsBefore .first other))
    have chain : Takes (readChain other) [] other := (takes_readChain_other ends).mpr ⟨rfl, rfl⟩
    exact ⟨_, .enclosed encloses branches chain, by cases encloses <;> rfl⟩
  stuck _ token behind same later value rest reads := by
    subst same
    obtain ⟨_, _, _, _, branchesToo, _⟩ := encloses.takes_iff.mp reads.takes
    have branches := framed (token :: later) (.inr rfl)
    obtain ⟨_, same⟩ := branches.unique (reads_branches branchesToo)
    cases same
    exact absent rfl

end Enclosed

end Offends

/-- Every syntax fault of a phrase offends where it lies. -/
theorem Fails.exists_front {category : Category} {tokens : List PlacedToken} {fault : ReadingFault}
    (fails : Fails category tokens fault) :
    ∀ {remaining : List PlacedToken} {why : SyntaxFault}, fault = .syntaxBefore remaining why →
      ∃ front, tokens = front ++ remaining ∧ Offends category front remaining why := by
  have noSyntax : ∀ {tokens remaining why},
      readChain tokens ≠ .error (.syntaxBefore remaining why) := by
    intro tokens remaining why failed
    obtain ⟨_, _, _, _, same⟩ := readChain_eq_error.mp failed
    cases same
  induction fails with
  | firstBranch _ branch =>
    rintro remaining why rfl
    obtain ⟨front, rfl, offends⟩ := branch rfl
    exact ⟨front, rfl, offends.firstBranch⟩
  | @laterBranch _ _ _ _ bar branch _ later =>
    rintro remaining why rfl
    obtain ⟨taken, rfl, framed⟩ := branch.exists_taken
    obtain ⟨front, rfl, offends⟩ := later rfl
    exact ⟨taken ++ ⟨.bar, bar⟩ :: front, by simp,
      offends.laterBranch fun more => framed _ (.inr rfl)⟩
  | @empty front _ _ opened ends =>
    rintro _ _ ⟨⟩
    exact ⟨front, rfl, .empty opened ends⟩
  | @sequence opening _ _ _ opened bare _ _ pieces =>
    rintro remaining why rfl
    obtain ⟨front, rfl, offends⟩ := pieces rfl
    exact ⟨opening ++ front, by simp, offends.sequence opened bare⟩
  | firstPiece _ piece =>
    rintro remaining why rfl
    obtain ⟨front, rfl, offends⟩ := piece rfl
    exact ⟨front, rfl, offends.firstPiece⟩
  | laterPiece piece goesOn _ later =>
    rintro remaining why rfl
    obtain ⟨taken, rfl, framed⟩ := piece.exists_taken
    obtain ⟨front, rfl, offends⟩ := later rfl
    exact ⟨taken ++ front, by simp, offends.laterPiece framed goesOn⟩
  | @firstTerm joint _ _ _ joined bare folded _ term =>
    rintro remaining why rfl
    obtain ⟨front, rfl, offends⟩ := term rfl
    exact ⟨joint ++ front, by simp, offends.firstTerm joined bare folded⟩
  | @laterTerm joint _ _ _ _ _ joined term _ others =>
    rintro remaining why rfl
    obtain ⟨taken, rfl, framed⟩ := term.exists_taken
    obtain ⟨front, rfl, offends⟩ := others rfl
    exact ⟨joint ++ (taken ++ front), by simp, offends.laterTerm joined framed⟩
  | @unfoldedTerm joint _ _ _ sign joined _ term =>
    rintro remaining why rfl
    obtain ⟨front, rfl, offends⟩ := term rfl
    exact ⟨joint ++ ⟨.unfold, sign⟩ :: front, by simp, offends.unfoldedTerm joined⟩
  | @unfolded joint _ _ _ _ _ sign joined term wrong =>
    rintro _ _ ⟨⟩
    exact ⟨joint ++ [⟨.unfold, sign⟩], by simp, .unfolded joined term wrong⟩
  | @nextTerm _ _ comma _ term =>
    rintro remaining why rfl
    obtain ⟨front, rfl, offends⟩ := term rfl
    exact ⟨⟨.comma, comma⟩ :: front, rfl, offends.nextTerm⟩
  | @laterOther _ _ _ _ comma term _ others =>
    rintro remaining why rfl
    obtain ⟨taken, rfl, framed⟩ := term.exists_taken
    obtain ⟨front, rfl, offends⟩ := others rfl
    exact ⟨⟨.comma, comma⟩ :: (taken ++ front), by simp, offends.laterOther framed⟩
  | noTerm absent =>
    rintro _ _ ⟨⟩
    exact ⟨[], rfl, .noTerm absent⟩
  | word chained | quoted chained | enclosed _ _ chained =>
    rintro remaining why rfl
    exact absurd chained noSyntax
  | @inside opening _ _ _ _ start encloses _ branches =>
    rintro remaining why rfl
    obtain ⟨front, rfl, offends⟩ := branches rfl
    exact ⟨⟨opening, start⟩ :: front, rfl, offends.inside encloses⟩
  | @unclosed opening _ _ _ _ _ start encloses branches absent =>
    rintro _ _ ⟨⟩
    obtain ⟨taken, rfl, framed⟩ := branches.exists_taken
    exact ⟨⟨opening, start⟩ :: taken, rfl, .unclosed encloses framed absent⟩

end GrammarText

end SentenceGrammar
