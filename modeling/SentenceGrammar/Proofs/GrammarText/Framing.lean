import SentenceGrammar.Proofs.GrammarText.Outcomes
import SentenceGrammar.Proofs.GrammarText.Soundness

/-! What a phrase is read as depends on its own tokens, and of those behind it only on the first. So
it is read alike in front of whatever begins with the same token or cannot belong to it. -/

namespace SentenceGrammar

open Character

namespace GrammarText

section Fronts

variable {tokens rest : List PlacedToken}

theorem Reads.unique {category : Category} {value other : category.Value} {left : List PlacedToken}
    (reads : Reads category tokens value rest) (readsToo : Reads category tokens other left) :
    value = other ∧ rest = left := by
  have taken := reads.takes
  have takenToo := readsToo.takes
  cases category <;>
  · obtain ⟨_, read⟩ := taken
    obtain ⟨_, readToo⟩ := takenToo
    cases read.symm.trans readToo
    exact ⟨rfl, rfl⟩

theorem Reads.exists_opensPiece {value : Piece} (reads : Reads .piece tokens value rest) :
    ∃ token ∈ firstToken tokens, token.opensPiece = true := by
  cases reads with
  | @plain front tokens _ _ junction _ _ joined first =>
    cases junction with
    | space =>
      rw [List.map_eq_nil_iff.mp joined]
      obtain ⟨token, begins, opens⟩ := first.exists_opensTerm
      exact ⟨token, begins, by rw [Token.opensPiece, opens]; rfl⟩
    | glue =>
      obtain ⟨position, later, rfl, _⟩ := map_token_eq_cons.mp joined
      exact ⟨_, rfl, rfl⟩
  | @unfolded front _ _ junction _ _ _ joined =>
    cases junction with
    | space =>
      rw [List.map_eq_nil_iff.mp joined]
      exact ⟨_, rfl, rfl⟩
    | glue =>
      obtain ⟨position, later, rfl, _⟩ := map_token_eq_cons.mp joined
      exact ⟨_, rfl, rfl⟩

theorem Reads.exists_opensPieces {values : List Piece} (reads : Reads .pieces tokens values rest) :
    ∃ token ∈ firstToken tokens, token.opensPiece = true := by
  cases reads with
  | lastPiece piece | nextPiece piece => exact piece.exists_opensPiece

theorem Reads.endsBranch_eq {values : List Piece} (reads : Reads .pieces tokens values rest) :
    endsBranch tokens = false := by
  obtain ⟨token, begins, opens⟩ := reads.exists_opensPieces
  rw [endsBranch, begins]
  cases token <;> first | rfl | cases opens

theorem Reads.endsBefore {values : List Piece} (reads : Reads .pieces tokens values rest) :
    Category.piece.EndsBefore tokens := by
  obtain ⟨token, begins, opens⟩ := reads.exists_opensPieces
  constructor
  · intro first
    cases begins.symm.trans first
    cases opens
  · intro text first
    cases begins.symm.trans first
    cases opens

theorem Reads.beginsWithLabel_eq {values : List Piece} (reads : Reads .pieces tokens values rest) :
    beginsWithLabel (tokens.map PlacedToken.token) = false := by
  cases labelled : beginsWithLabel (tokens.map PlacedToken.token) with
  | false => rfl
  | true =>
    obtain ⟨label, position, colon, later, rfl⟩ := exists_of_beginsWithLabel labelled
    have chain : Takes (readChain (⟨.colon, colon⟩ :: later)) [] (⟨.colon, colon⟩ :: later) :=
      (takes_readChain_other (by simp [firstToken])).mpr ⟨rfl, rfl⟩
    have alone : Reads .piece ([] ++ ⟨.word label, position⟩ :: ⟨.colon, colon⟩ :: later)
        (.plain .space (.ofWord label []) []) (⟨.colon, colon⟩ :: later) :=
      .plain rfl (.word chain) (.noOther (by simp [firstToken]))
    -- The colon would have to end the branch or begin another piece.
    cases reads with
    | lastPiece piece ends =>
      obtain ⟨_, rfl⟩ := alone.unique piece
      cases ends
    | nextPiece piece goesOn more =>
      obtain ⟨_, rfl⟩ := alone.unique piece
      obtain ⟨token, begins, opens⟩ := more.exists_opensPieces
      cases begins
      cases opens

end Fronts

/-- Tokens in front of which a phrase is read as it is in front of the given rest. -/
def Category.Follows (category : Category) (rest other : List PlacedToken) : Prop :=
  category.EndsBefore other ∨ firstToken other = firstToken rest

section Frames

variable {rest other taken : List PlacedToken}

theorem firstToken_append_eq (front : List PlacedToken)
    (same : firstToken other = firstToken rest) :
    firstToken (front ++ other) = firstToken (front ++ rest) := by
  cases front with
  | nil => exact same
  | cons token later => rfl

theorem endsBranch_congr (same : firstToken other = firstToken rest) :
    endsBranch other = endsBranch rest := by
  rw [endsBranch, same, endsBranch]

theorem Category.Follows.piece (follows : Category.pieces.Follows rest other) :
    Category.piece.Follows rest other :=
  follows.imp_left Derivation.endsBefore_of_endsBranch

theorem Category.Follows.term (follows : Category.piece.Follows rest other) :
    Category.term.Follows rest other :=
  follows.imp_left And.right

theorem exists_taken_chain {tokens : List PlacedToken} {chain : Chain}
    (chained : Takes (readChain tokens) chain rest) :
    ∃ taken, tokens = taken ++ rest ∧ ∀ other, Category.term.Follows rest other →
      Takes (readChain (taken ++ other)) chain other := by
  obtain ⟨text, position, later, rfl⟩ | absent := exists_chain_or_not tokens
  · obtain ⟨read, rfl⟩ := takes_readChain_chain.mp chained
    exact ⟨[⟨.chain text, position⟩], rfl, fun other _ => takes_readChain_chain.mpr ⟨read, rfl⟩⟩
  · obtain ⟨rfl, rfl⟩ := (takes_readChain_other absent).mp chained
    refine ⟨[], rfl, fun other follows => (takes_readChain_other ?_).mpr ⟨rfl, rfl⟩⟩
    rcases follows with ends | same
    · exact ends
    · exact same ▸ absent

theorem Reads.follows_others {tokens between : List PlacedToken} {values : List Term}
    (reads : Reads .others tokens values rest) (readsToo : Reads .others between values other)
    (follows : Category.others.Follows rest other) : Category.term.Follows tokens between := by
  cases reads with
  | noOther =>
    cases readsToo
    exact follows.term
  | nextOther =>
    cases readsToo
    exact .inr rfl

theorem Reads.firstPosition_append {value : Term} (reads : Reads .term (taken ++ rest) value rest)
    (other : List PlacedToken) :
    firstPosition (taken ++ other) = firstPosition (taken ++ rest) := by
  have fewer : rest.length < (taken ++ rest).length := reads.takes.fits
  cases taken with
  | nil => exact absurd fewer (Nat.lt_irrefl _)
  | cons token later => rfl

/-- A phrase is read from the same tokens in front of whatever may follow it as it is followed. -/
theorem Reads.exists_taken {category : Category} {tokens : List PlacedToken}
    {value : category.Value} (reads : Reads category tokens value rest) :
    ∃ taken, tokens = taken ++ rest ∧
      ∀ other, category.Follows rest other → Reads category (taken ++ other) value other := by
  induction reads with
  | lastBranch _ ends ih =>
    obtain ⟨taken, rfl, framed⟩ := ih
    refine ⟨taken, rfl, fun other follows => ?_⟩
    rcases follows with ⟨stops, noBar⟩ | same
    · exact .lastBranch (framed other (.inl stops)) noBar
    · exact .lastBranch (framed other (.inr same)) (same ▸ ends)
  | @nextBranch _ _ _ _ _ bar _ _ branch later =>
    obtain ⟨taken, rfl, framed⟩ := branch
    obtain ⟨more, rfl, framedLater⟩ := later
    refine ⟨taken ++ ⟨.bar, bar⟩ :: more, by simp, fun other follows => ?_⟩
    rw [List.append_assoc]
    exact .nextBranch (framed _ (.inr rfl)) (framedLater other follows)
  | @sequence front _ _ _ _ opened _ _ _ ih =>
    obtain ⟨taken, rfl, framed⟩ := ih
    refine ⟨front ++ taken, by simp, fun other follows => ?_⟩
    have pieces := framed other follows
    rw [List.append_assoc]
    exact .sequence opened (fun _ => pieces.beginsWithLabel_eq) pieces.endsBranch_eq pieces
  | lastPiece _ ends ih =>
    obtain ⟨taken, rfl, framed⟩ := ih
    refine ⟨taken, rfl, fun other follows => .lastPiece (framed other follows.piece) ?_⟩
    rcases follows with stops | same
    · exact stops
    · exact (endsBranch_congr same).trans ends
  | nextPiece _ _ _ piece later =>
    obtain ⟨taken, rfl, framed⟩ := piece
    obtain ⟨more, rfl, framedLater⟩ := later
    refine ⟨taken ++ more, by simp, fun other follows => ?_⟩
    have pieces := framedLater other follows
    rw [List.append_assoc]
    exact .nextPiece (framed _ (.inl pieces.endsBefore)) pieces.endsBranch_eq pieces
  | @plain front _ _ _ _ _ _ joined _ more first others =>
    obtain ⟨taken, rfl, framed⟩ := first
    obtain ⟨further, rfl, framedOthers⟩ := others
    refine ⟨front ++ (taken ++ further), by simp, fun other follows => ?_⟩
    have terms := framedOthers other follows
    rw [List.append_assoc, List.append_assoc]
    exact .plain joined (framed _ (more.follows_others terms follows)) terms
  | @unfolded front _ _ _ _ _ sign joined reads made ih =>
    obtain ⟨taken, rfl, framed⟩ := ih
    refine ⟨front ++ ⟨.unfold, sign⟩ :: taken, by simp, fun other follows => ?_⟩
    rw [List.append_assoc]
    have place := reads.firstPosition_append other
    exact .unfolded joined (framed other follows.term) (place ▸ made)
  | noOther ends =>
    refine ⟨[], rfl, fun other follows => .noOther ?_⟩
    rcases follows with stops | same
    · exact stops.1
    · exact same ▸ ends
  | @nextOther _ _ _ _ _ comma _ more term later =>
    obtain ⟨taken, rfl, framed⟩ := term
    obtain ⟨further, rfl, framedLater⟩ := later
    refine ⟨⟨.comma, comma⟩ :: (taken ++ further), by simp, fun other follows => ?_⟩
    have terms := framedLater other follows
    rw [List.cons_append, List.append_assoc]
    exact .nextOther (framed _ (more.follows_others terms follows)) terms
  | @word _ _ text _ position chained =>
    obtain ⟨taken, rfl, framed⟩ := exists_taken_chain chained
    exact ⟨⟨.word text, position⟩ :: taken, rfl, fun other follows => .word (framed other follows)⟩
  | @quoted _ _ text _ position chained =>
    obtain ⟨taken, rfl, framed⟩ := exists_taken_chain chained
    exact ⟨⟨.quoted text, position⟩ :: taken, rfl,
      fun other follows => .quoted (framed other follows)⟩
  | @enclosed opening closing _ _ _ _ _ _ start finish encloses _ chained ih =>
    obtain ⟨taken, rfl, framed⟩ := ih
    obtain ⟨behind, rfl, framedChain⟩ := exists_taken_chain chained
    refine ⟨⟨opening, start⟩ :: (taken ++ ⟨closing, finish⟩ :: behind), by simp,
      fun other follows => ?_⟩
    rw [List.cons_append, List.append_assoc]
    exact .enclosed encloses (framed _ (.inr rfl)) (framedChain other follows)

end Frames

theorem Reads.uppercase_reference {tokens rest : List PlacedToken} {value : Term}
    (reads : Reads .term tokens value rest) {symbol : Symbol} {chain : Chain}
    (reference : value = .reference symbol chain) : startsUppercase symbol.name.toList = true := by
  cases reads with
  | word =>
    unfold Term.ofWord at reference
    split at reference
    · cases reference
    split at reference
    · rename_i uppercase
      cases reference
      exact uppercase
    · cases reference
  | quoted => cases reference
  | enclosed encloses => cases encloses <;> cases reference

theorem Reads.uppercase {category : Category} {tokens rest : List PlacedToken}
    {value : category.Value} (reads : Reads category tokens value rest) :
    ∀ sign ∈ category.unfolds value, startsUppercase sign.1.name.toList = true := by
  induction reads with
  | lastBranch _ _ branch => exact branch
  | @nextBranch _ _ _ value values _ _ _ branch later =>
    rw [Category.unfolds, listUnfolds_cons]
    exact List.forall_mem_append.mpr ⟨branch, later⟩
  | sequence _ _ _ _ pieces => simpa [Category.unfolds, Branch.listUnfolds] using pieces
  | lastPiece _ _ piece => simpa [Category.unfolds, Piece.listUnfolds] using piece
  | nextPiece _ _ _ piece later => exact List.forall_mem_append.mpr ⟨piece, later⟩
  | plain _ _ _ first others => exact List.forall_mem_append.mpr ⟨first, others⟩
  | @unfolded _ _ _ _ value _ _ _ reads made term =>
    rcases value with _ | ⟨symbol, _ | _⟩ | ⟨branches, _ | _⟩ | ⟨branches, _ | _⟩ | _ <;> cases made
    · exact List.forall_mem_singleton.mpr (reads.uppercase_reference rfl)
    · exact term
    · exact term
  | noOther => exact List.forall_mem_nil _
  | nextOther _ _ term later => exact List.forall_mem_append.mpr ⟨term, later⟩
  | word =>
    rw [Category.unfolds, Term.ofWord]
    split
    · exact List.forall_mem_nil _
    · split <;> exact List.forall_mem_nil _
  | quoted => exact List.forall_mem_nil _
  | enclosed encloses _ _ branches => cases encloses <;> exact branches

end GrammarText

end SentenceGrammar
