import SentenceGrammar.Grammar.LabelIndex

/-! The alternatives that an index selects are those that are admitted one by one. The lists of an
index are described by the labels that they collect, and merging two of them collects the labels of
both. -/

namespace SentenceGrammar

namespace LabelIndex

/-- The positions of the alternatives whose label passes a test, the first one having the given
position. -/
def positionsWhere (test : Option Label → Bool) : Nat → List Alternative → List Nat
  | _, [] => []
  | position, alternative :: rest =>
    if test alternative.label then position :: positionsWhere test (position + 1) rest
    else positionsWhere test (position + 1) rest

theorem le_of_mem_positionsWhere {test : Option Label → Bool} {alternatives : List Alternative}
    {position other : Nat} (member : other ∈ positionsWhere test position alternatives) :
    position ≤ other := by
  induction alternatives generalizing position with
  | nil => simp [positionsWhere] at member
  | cons alternative rest ih =>
    simp only [positionsWhere] at member
    split at member
    · rcases List.mem_cons.mp member with same | later
      · omega
      · exact Nat.le_of_succ_le (ih later)
    · exact Nat.le_of_succ_le (ih member)

theorem lt_of_mem_positionsWhere {test : Option Label → Bool} {alternatives : List Alternative}
    {position other : Nat} (member : other ∈ positionsWhere test position alternatives) :
    other < position + alternatives.length := by
  induction alternatives generalizing position with
  | nil => simp [positionsWhere] at member
  | cons alternative rest ih =>
    rw [List.length_cons]
    simp only [positionsWhere] at member
    split at member
    · rcases List.mem_cons.mp member with same | later
      · omega
      · have := ih later
        omega
    · have := ih member
      omega

theorem merge_cons_left {position : Nat} {first second : List Nat}
    (above : ∀ other ∈ second, position + 1 ≤ other) :
    (position :: first).merge second = position :: first.merge second := by
  cases second with
  | nil => simp
  | cons other rest =>
    apply List.cons_merge_cons_pos
    have := above other (by simp)
    simp only [decide_eq_true_eq]
    omega

theorem merge_cons_right {position : Nat} {first second : List Nat}
    (above : ∀ other ∈ first, position + 1 ≤ other) :
    first.merge (position :: second) = position :: first.merge second := by
  cases first with
  | nil => simp
  | cons other rest =>
    apply List.cons_merge_cons_neg
    have := above other (by simp)
    simp only [decide_eq_true_eq]
    omega

theorem merge_positionsWhere {first second : Option Label → Bool}
    (disjoint : ∀ label, first label = true → second label = false) (position : Nat)
    (alternatives : List Alternative) :
    (positionsWhere first position alternatives).merge
        (positionsWhere second position alternatives) =
      positionsWhere (fun label => first label || second label) position alternatives := by
  induction alternatives generalizing position with
  | nil => simp [positionsWhere]
  | cons alternative rest ih =>
    simp only [positionsWhere]
    by_cases inFirst : first alternative.label = true
    · simp only [inFirst, disjoint _ inFirst, Bool.or_false, if_true, Bool.false_eq_true, if_false]
      rw [merge_cons_left fun _ => le_of_mem_positionsWhere, ih]
    · by_cases inSecond : second alternative.label = true
      · simp only [inFirst, inSecond, Bool.or_true, Bool.false_eq_true, if_true, if_false]
        rw [merge_cons_right fun _ => le_of_mem_positionsWhere, ih]
      · simp only [inFirst, inSecond, Bool.or_false, Bool.false_eq_true, if_false]
        exact ih _

theorem unlabelled_build (position : Nat) (alternatives : List Alternative) :
    (build position alternatives).unlabelled =
      positionsWhere (fun label => label.isNone) position alternatives := by
  induction alternatives generalizing position with
  | nil => rfl
  | cons alternative rest ih =>
    rcases alternative with ⟨_ | label, parts⟩
    · simp [build, add, positionsWhere, ih]
    · simp [build, add, positionsWhere, ih]

theorem find_prepend (label other : Label) (position : Nat) (lists : List (Label × List Nat)) :
    find other (prepend label position lists) =
      if label = other then position :: find other lists else find other lists := by
  induction lists with
  | nil => simp [prepend, find]
  | cons entry rest ih =>
    simp only [prepend]
    split
    · rename_i same
      simp only [find, same]
      split <;> rfl
    · rename_i different
      simp only [find, ih]
      split
      · rename_i here
        rw [if_neg fun equal => different (here.trans equal.symm)]
      · rfl

theorem find_build (label : Label) (position : Nat) (alternatives : List Alternative) :
    find label (build position alternatives).labelled =
      positionsWhere (fun other => other = some label) position alternatives := by
  induction alternatives generalizing position with
  | nil => rfl
  | cons alternative rest ih =>
    rcases alternative with ⟨_ | other, parts⟩
    · simp [build, add, positionsWhere, ih]
    · simp only [build, add, find_prepend, positionsWhere, ih, Option.some.injEq,
        decide_eq_true_eq]

theorem select_build {labels : List Label} (nodup : labels.Nodup) (position : Nat)
    (alternatives : List Alternative) :
    (build position alternatives).select labels =
      positionsWhere (fun label => label.all fun label => label ∈ labels) position
        alternatives := by
  have collect : ∀ (earlier later : List Label), (earlier ++ later).Nodup →
      later.foldl (fun positions label => positions.merge
          (find label (build position alternatives).labelled))
        (positionsWhere (fun label => label.all fun label => label ∈ earlier) position
          alternatives) =
      positionsWhere (fun label => label.all fun label => label ∈ earlier ++ later) position
        alternatives := by
    intro earlier later
    induction later generalizing earlier with
    | nil => simp
    | cons label rest ih =>
      intro nodup
      have fresh : label ∉ earlier := by
        intro member
        exact (List.nodup_append.mp nodup).2.2 label member label (by simp) rfl
      have next := ih (earlier ++ [label]) (by simpa using nodup)
      rw [List.append_assoc, List.singleton_append] at next
      rw [List.foldl_cons, find_build, merge_positionsWhere, ← next]
      · congr 2
        funext other
        cases other <;> simp
      · intro other kept
        rcases other with _ | other
        · simp
        · simp only [Option.all_some, decide_eq_true_eq] at kept
          simp only [Option.some.injEq, decide_eq_false_iff_not]
          intro same
          subst same
          exact fresh kept
  have whole := collect [] labels (by simpa using nodup)
  rw [List.nil_append] at whole
  rw [select, unlabelled_build, ← whole]
  congr 2

theorem filterMap_positionsWhere (test : Option Label → Bool)
    (earlier alternatives : List Alternative) :
    (positionsWhere test earlier.length alternatives).filterMap
        (fun position => (earlier ++ alternatives)[position]?) =
      alternatives.filter fun alternative => test alternative.label := by
  induction alternatives generalizing earlier with
  | nil => rfl
  | cons alternative rest ih =>
    have later := ih (earlier ++ [alternative])
    rw [List.length_append, List.length_singleton, List.append_assoc,
      List.singleton_append] at later
    simp only [positionsWhere, List.filter_cons]
    split
    · rw [List.filterMap_cons, later]
      simp
    · exact later

end LabelIndex

namespace Alternative

theorem range_eq_positionsWhere (position : Nat) (alternatives : List Alternative) :
    List.range' position alternatives.length =
      LabelIndex.positionsWhere (fun _ => true) position alternatives := by
  induction alternatives generalizing position with
  | nil => rfl
  | cons alternative rest ih =>
    simp [LabelIndex.positionsWhere, List.range'_succ, ih]

theorem eligiblePositions_eq (active : ActiveLabels) (alternatives : List Alternative) :
    eligiblePositions active alternatives =
      LabelIndex.positionsWhere active.admits 0 alternatives := by
  unfold eligiblePositions
  split
  · rename_i noneActive
    rw [List.range_eq_range', range_eq_positionsWhere]
    congr 1
    funext label
    cases label <;> simp [ActiveLabels.admits, noneActive]
  · rename_i someActive
    rw [LabelIndex.ofAlternatives, LabelIndex.select_build active.nodup]
    congr 1
    funext label
    cases label <;> simp [ActiveLabels.admits, ActiveLabels.contains, someActive]

theorem lt_of_mem_eligiblePositions {active : ActiveLabels} {alternatives : List Alternative}
    {position : Nat} (member : position ∈ eligiblePositions active alternatives) :
    position < alternatives.length := by
  rw [eligiblePositions_eq] at member
  simpa using LabelIndex.lt_of_mem_positionsWhere member

/-- The eligible alternatives are those that are admitted on their own account. -/
theorem eligible_eq_filter (active : ActiveLabels) (alternatives : List Alternative) :
    eligible active alternatives = alternatives.filter active.admitsAlternative := by
  have picked := LabelIndex.filterMap_positionsWhere active.admits [] alternatives
  rw [eligible, eligiblePositions_eq]
  change _ = alternatives.filter fun alternative => active.admits alternative.label
  simpa using picked

theorem mem_eligible {active : ActiveLabels} {alternatives : List Alternative}
    {alternative : Alternative} :
    alternative ∈ eligible active alternatives ↔
      alternative ∈ alternatives ∧ active.admits alternative.label = true := by
  rw [eligible_eq_filter, List.mem_filter]
  rfl

end Alternative

end SentenceGrammar
