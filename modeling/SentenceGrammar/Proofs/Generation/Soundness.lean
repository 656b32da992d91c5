import SentenceGrammar.Proofs.Generation.Derivation
import SentenceGrammar.Proofs.Generation.Scopes
import SentenceGrammar.Proofs.Grammar.Eligibility

/-! What an expansion emits can be derived, whatever its random source yields. -/

namespace SentenceGrammar

open Expansion

variable {σ : Type} [RandomSource σ]

theorem Chain.mayLeave_applyTo (chain : Chain) (active : ActiveLabels) (run : Run σ) :
    Chain.MayLeave chain active (chain.applyTo active run).1 := by
  induction chain with
  | nil => exact .nil active
  | cons selector later ih =>
    rcases selector with ⟨_ | ⟨first, others⟩⟩ | _
    · exact .noLabel ih
    · exact .label ih (List.get_mem _ _)
    · exact .reset ih

theorem Atom.firstWidth_cons (atom : Atom) (rest : List Atom) :
    Atom.firstWidth (atom :: rest) = (Atom.firstWidth [atom]).or (Atom.firstWidth rest) := by
  rcases atom with _ | _ | _ | ⟨_ | _⟩ | _ <;> simp [Atom.firstWidth]

theorem Atom.slotFits_cons_of_none {slot : Nat} {atom : Atom} {rest : List Atom}
    (single : Atom.firstWidth [atom] = none) :
    Atom.SlotFits slot (atom :: rest) ↔ Atom.SlotFits slot rest := by
  rw [Atom.SlotFits, Atom.SlotFits, Atom.firstWidth_cons, single, Option.none_or]

theorem Atom.slotFits_cons_of_some {slot width : Nat} {atom : Atom} {rest : List Atom}
    (single : Atom.firstWidth [atom] = some width) :
    Atom.SlotFits slot (atom :: rest) ↔ slot < width := by
  simp [Atom.SlotFits, Atom.firstWidth_cons, single]

variable {grammar : Grammar} {limit depth : Nat}
  {openAlternatives : Symbol → List Alternative → Expansion σ (List Signal)}

/-- Whatever the next level of nesting emits can be derived under the labels active there. -/
def Expansion.OpensSoundly (grammar : Grammar) (limit depth : Nat)
    (openAlternatives : Symbol → List Alternative → Expansion σ (List Signal)) : Prop :=
  ∀ symbol alternatives run signals final,
    openAlternatives symbol alternatives run = .ok signals final →
      Derives grammar limit depth run.active (.oneOf alternatives) signals

theorem Expansion.derives_of_under (sound : OpensSoundly grammar limit depth openAlternatives)
    {symbol : Symbol} {alternatives : List Alternative} {chain : Chain} {run final : Run σ}
    {signals : List Signal}
    (success : Expansion.under openAlternatives symbol alternatives chain run = .ok signals final) :
    ∃ inner, Chain.MayLeave chain run.active inner ∧
      Derives grammar limit depth inner (.oneOf alternatives) signals := by
  unfold Expansion.under at success
  split at success
  · rename_i empty
    rw [List.isEmpty_iff.mp empty]
    exact ⟨run.active, .nil _, sound _ _ _ _ _ success⟩
  · obtain ⟨inner, resolved, chosen, success⟩ := bind_eq_ok.mp success
    obtain ⟨_, noted, logged, success⟩ := bind_eq_ok.mp success
    have leaves : Chain.MayLeave chain run.active inner := by
      have may := chain.mayLeave_applyTo run.active run
      cases chosen
      exact may
    refine ⟨inner, leaves, ?_⟩
    unfold Run.within at success
    cases outcome : openAlternatives symbol alternatives (noted.enter inner) with
    | ok emitted last =>
      rw [outcome] at success
      cases success
      exact sound _ _ _ _ _ outcome
    | error fault last => simp [outcome] at success

/-- An atom leaves the slot alone unless it has choices; then it takes the one that the slot names,
or fills an empty slot. -/
theorem Atom.derives_of_expand (sound : OpensSoundly grammar limit depth openAlternatives)
    {symbol : Symbol} {atom : Atom} {slot after : Option Nat} {run final : Run σ}
    {signals : List Signal}
    (success : Atom.expand grammar openAlternatives symbol slot atom run =
      .ok (signals, after) final) :
    (Atom.firstWidth [atom] = none ∧ after = slot ∧
      ∀ position, Derives grammar limit depth run.active (.atom position atom) signals) ∨
    ∃ width position, Atom.firstWidth [atom] = some width ∧ after = some position ∧
      (slot = some position ∨ slot = none ∧ position < width) ∧
      Derives grammar limit depth run.active (.atom position atom) signals := by
  induction atom using Atom.induction generalizing slot after run final signals with
  | terminal text =>
    cases success
    exact .inl ⟨rfl, rfl, fun _ => .terminal⟩
  | reference name chain =>
    cases defined : grammar.lookup name with
    | some alternatives =>
      simp only [Atom.expand, defined] at success
      obtain ⟨emitted, middle, expanded, finished⟩ := bind_eq_ok.mp success
      cases finished
      obtain ⟨inner, leaves, derivation⟩ := derives_of_under sound expanded
      exact .inl ⟨rfl, rfl, fun _ => .reference defined leaves derivation⟩
    | none =>
      simp only [Atom.expand, defined] at success
      obtain ⟨_, _, _, failure⟩ := bind_eq_ok.mp success
      cases failure
  | group alternatives chain _ =>
    simp only [Atom.expand] at success
    obtain ⟨emitted, middle, expanded, finished⟩ := bind_eq_ok.mp success
    cases finished
    obtain ⟨inner, leaves, derivation⟩ := derives_of_under sound expanded
    exact .inl ⟨rfl, rfl, fun _ => .group leaves derivation⟩
  | positional choices ih =>
    cases choices with
    | nil =>
      cases success
      exact .inl ⟨rfl, rfl, fun _ => .noChoice⟩
    | cons first others =>
      have takes : ∀ (position : Nat) (start : Run σ), start.active = run.active → (do
            let signals ← Atom.expandNth grammar openAlternatives symbol
              (position % (others.length + 1)) (first :: others)
            return (signals, some position)) start = .ok (signals, after) final →
          after = some position ∧ Derives grammar limit depth run.active
            (.atom position (.positional (first :: others))) signals := by
        intro position start sameActive taken
        have inside : position % (others.length + 1) < (first :: others).length :=
          Nat.mod_lt _ (Nat.succ_pos _)
        rw [Atom.expandNth_of_lt symbol inside] at taken
        obtain ⟨emitted, middle, expanded, finished⟩ := bind_eq_ok.mp taken
        obtain ⟨⟨inner, filled⟩, last, chosen, wrapped⟩ := bind_eq_ok.mp expanded
        cases wrapped
        cases finished
        have here : (first :: others)[position % (first :: others).length]? =
            some (first :: others)[position % (others.length + 1)] :=
          List.getElem?_eq_getElem inside
        refine ⟨rfl, ?_⟩
        rw [← sameActive]
        rcases ih _ (List.getElem_mem inside) chosen with
          ⟨single, _, derivation⟩ | ⟨width, slot, single, _, fresh, derivation⟩
        · have fits : Atom.SlotFits 0 [(first :: others)[position % (others.length + 1)]] := by
            simp [Atom.SlotFits, single]
          exact .choice here fits (derivation 0)
        · refine .choice here ?_ derivation
          rw [Atom.slotFits_cons_of_some single]
          simpa using fresh
      cases slot with
      | some position =>
        obtain ⟨filled, derivation⟩ := takes position run rfl success
        exact .inr ⟨_, position, rfl, filled, .inl rfl, derivation⟩
      | none =>
        obtain ⟨chosen, middle, drawn, success⟩ := bind_eq_ok.mp success
        have sameActive :=
          (keepsScopes_modifyGet (Run.index_keeps others.length)).active_eq drawn
        obtain ⟨filled, derivation⟩ := takes chosen.val middle sameActive success
        exact .inr ⟨_, chosen.val, rfl, filled, .inr ⟨rfl, chosen.isLt⟩, derivation⟩
  | epsilon =>
    cases success
    exact .inl ⟨rfl, rfl, fun _ => .epsilon⟩

theorem Part.derives_of_expandList (sound : OpensSoundly grammar limit depth openAlternatives)
    (keeps : ∀ symbol alternatives, KeepsScopes (openAlternatives symbol alternatives))
    {symbol : Symbol} {parts : List Part} {slot : Option Nat} {run final : Run σ}
    {signals : List Signal}
    (success : Part.expandList grammar openAlternatives symbol slot parts run = .ok signals final) :
    ∃ position, (∀ filled, slot = some filled → position = filled) ∧
      (slot = none → Atom.SlotFits position (parts.map Part.atom)) ∧
      Derives grammar limit depth run.active (.sequence position parts) signals := by
  induction parts generalizing slot run final signals with
  | nil =>
    cases success
    refine ⟨slot.getD 0, ?_, ?_, .nil⟩
    · intro filled given
      cases given
      rfl
    · simp [Atom.SlotFits, Atom.firstWidth]
  | cons part rest ih =>
    obtain ⟨⟨emitted, after⟩, middle, first, success⟩ := bind_eq_ok.mp success
    obtain ⟨later, last, others, finished⟩ := bind_eq_ok.mp success
    cases finished
    have sameActive := (Atom.keepsScopes_expand keeps symbol part.atom slot).active_eq first
    obtain ⟨position, follows, fits, remaining⟩ := ih others
    rw [sameActive] at remaining
    simp only [List.map_cons]
    rcases Atom.derives_of_expand sound first with
      ⟨single, unchanged, derivation⟩ | ⟨width, chosen, single, filled, fresh, derivation⟩
    · subst unchanged
      refine ⟨position, follows, ?_, .cons (derivation position) remaining⟩
      exact fun empty => (Atom.slotFits_cons_of_none single).mpr (fits empty)
    · obtain rfl := follows chosen filled
      refine ⟨position, ?_, ?_, .cons derivation remaining⟩
      · intro other given
        cases given
        simpa [eq_comm] using fresh
      · intro empty
        subst empty
        rw [Atom.slotFits_cons_of_some single]
        simpa using fresh

theorem Run.eligible_eq_nil_of_pick {eligible : List Alternative} {run final : Run σ}
    (choice : (modifyGet (Run.pick eligible) : Expansion σ _) run = .ok none final) :
    eligible = [] := by
  cases eligible with
  | nil => rfl
  | cons first others => cases choice

theorem Alternative.derives_of_expandOne (grammar : Grammar) (limit room : Nat)
    (inLimit : room ≤ limit) :
    OpensSoundly grammar limit (limit - room)
      (Alternative.expandOne grammar limit room : _ → _ → Expansion σ (List Signal)) := by
  induction room with
  | zero =>
    intro symbol alternatives run signals final success
    cases success
  | succ room ih =>
    intro symbol alternatives run signals final success
    have below : limit - (room + 1) < limit := by omega
    obtain ⟨current, same, got, success⟩ := bind_eq_ok.mp success
    cases got
    obtain ⟨_, noted, logged, success⟩ := bind_eq_ok.mp success
    cases logged
    obtain ⟨picked, middle, choice, success⟩ := bind_eq_ok.mp success
    have sameActive := (keepsScopes_modifyGet (Run.pick_keeps _)).active_eq choice
    obtain ⟨slot, -, fits, derivation⟩ := Part.derives_of_expandList (ih (by omega))
      (Alternative.keepsScopes_expandOne grammar limit room) success
    rw [sameActive, show limit - room = limit - (room + 1) + 1 by omega] at derivation
    have allExcluded : Alternative.eligible run.active alternatives = [] →
        ∀ alternative ∈ alternatives, run.active.admits alternative.label = false := by
      intro none alternative member
      rw [← Bool.not_eq_true]
      intro admitted
      have present := Alternative.mem_eligible.mpr ⟨member, admitted⟩
      rw [none] at present
      exact absurd present List.not_mem_nil
    cases picked with
    | some index =>
      have chosen : (Alternative.eligible run.active alternatives).get index ∈
          Alternative.eligible run.active alternatives := List.get_mem _ _
      obtain ⟨member, admitted⟩ := Alternative.mem_eligible.mp chosen
      exact .picked below member admitted (fits rfl) derivation
    | none =>
      have exhausted := Run.eligible_eq_nil_of_pick choice
      have silent : signals = [] := by
        cases derivation with
        | cons first others =>
          cases first
          cases others
          rfl
      rw [silent]
      exact .noneAdmitted below (allExcluded exhausted)

end SentenceGrammar
