import SentenceGrammar.Proofs.Generation.Faults
import SentenceGrammar.Proofs.Generation.Scopes

/-! Raising the limit on nesting. Two expansions that differ in their limits take the same steps up
to the point where the one with the lower limit is out of room; if it never gets there, they are the
same from beginning to end. -/

namespace SentenceGrammar

variable {σ α β : Type}

namespace Expansion

/-- In every run an action comes to a limit, or the other action does the same as it. -/
def SameWithin (limit : Nat) (action other : Expansion σ α) : Prop :=
  ∀ run, (∃ symbol final, action run = .error (.limitExceeded symbol limit) final) ∨
    other run = action run

variable {limit : Nat}

theorem sameWithin_refl (action : Expansion σ α) : SameWithin limit action action :=
  fun _ => .inr rfl

theorem sameWithin_throw (symbol : Symbol) (other : Expansion σ α) :
    SameWithin limit (throw (.limitExceeded symbol limit)) other :=
  fun run => .inl ⟨symbol, run, rfl⟩

theorem SameWithin.bind {action other : Expansion σ α} {next following : α → Expansion σ β}
    (first : SameWithin limit action other)
    (second : ∀ result, Returns action result → SameWithin limit (next result) (following result)) :
    SameWithin limit (action >>= next) (other >>= following) := by
  intro run
  rw [bind_apply, bind_apply]
  rcases first run with ⟨symbol, final, exceeds⟩ | same
  · left
    exact ⟨symbol, final, by rw [exceeds]⟩
  · rw [same]
    cases outcome : action run with
    | ok result middle => exact second result ⟨run, middle, outcome⟩ middle
    | error fault middle => exact .inr rfl

theorem SameWithin.within {action other : Expansion σ α} (inside : SameWithin limit action other)
    (active : ActiveLabels) :
    SameWithin limit (Run.within active action) (Run.within active other) := by
  intro run
  unfold Run.within
  rcases inside (run.enter active) with ⟨symbol, final, exceeds⟩ | same
  · left
    exact ⟨symbol, final.leave, by rw [exceeds]⟩
  · right
    rw [same]

variable [RandomSource σ]

theorem compatible_sameWithin (grammar : Grammar) (limit : Nat) :
    Compatible grammar (fun _ => True) fun _ (action other : Expansion σ _) =>
      SameWithin limit action other where
  pure _ := sameWithin_refl _
  bind first second := first.bind second
  started := sameWithin_refl _
  index _ _ := sameWithin_refl _
  choose _ _ := sameWithin_refl _
  undefined _ _ := sameWithin_refl _
  under _ _ opens := by
    unfold Expansion.under
    split
    · exact opens
    · refine (sameWithin_refl _).bind fun active _ => ?_
      exact (sameWithin_refl _).bind fun _ _ => opens.within active

end Expansion

open Expansion

variable [RandomSource σ]

theorem Grammar.sameWithin_generate (grammar : Grammar) (trim : Bool) {lower higher : Nat}
    (raised : lower ≤ higher) :
    SameWithin lower (grammar.generate ⟨lower, trim⟩ : Expansion σ String)
      (grammar.generate ⟨higher, trim⟩) :=
  (compatible_sameWithin grammar lower).generate (Atom.hereditary_true grammar) sameWithin_throw
    raised rfl fun _ _ _ _ => trivial

/-- A generation that does not exceed its limit has the same outcome and leaves the same run under
every higher limit. So one that exceeds a limit exceeds every lower limit, too. -/
theorem Grammar.generate_eq_of_le (grammar : Grammar) (trim : Bool) (lower higher : Nat)
    (raised : lower ≤ higher) (run : Run σ) :
    ((∀ symbol limit final,
        grammar.generate ⟨lower, trim⟩ run ≠ .error (.limitExceeded symbol limit) final) →
      grammar.generate ⟨higher, trim⟩ run = grammar.generate ⟨lower, trim⟩ run) ∧
    ∀ symbol limit final,
      grammar.generate ⟨higher, trim⟩ run = .error (.limitExceeded symbol limit) final →
        ∃ symbol final,
          grammar.generate ⟨lower, trim⟩ run = .error (.limitExceeded symbol lower) final := by
  rcases grammar.sameWithin_generate trim raised run with exceeds | same
  · obtain ⟨symbol, final, exceeded⟩ := exceeds
    exact ⟨fun within => absurd exceeded (within symbol lower final),
      fun _ _ _ _ => ⟨symbol, final, exceeded⟩⟩
  · refine ⟨fun _ => same, fun symbol limit final exceeded => ?_⟩
    rw [same] at exceeded
    -- The fault names the limit of its own generation, so both limits are the same.
    rcases grammar.failsWith_generate ⟨lower, trim⟩ run _ final exceeded with
      ⟨_, _, undefined, _⟩ | ⟨other, limited⟩
    · cases undefined
    · rw [limited] at exceeded
      exact ⟨other, final, exceeded⟩

def Grammar.perhapsEndless : Grammar :=
  ⟨Rules.empty.insert ⟨"S"⟩
      [⟨none, [.spaced (.reference ⟨"S"⟩ [])]⟩, ⟨none, [.spaced (.terminal "a")]⟩],
    ⟨"S"⟩, by decide⟩

/-- A run on words that stand for the upper one of two choices. -/
def Run.onHalves : Run (Nat → UInt64) :=
  .onSource 0 fun _ => (1 : UInt64) <<< 63

theorem Grammar.generate_eq_of_le_perhapsEndless :
    (2 ≤ 3 ∧ ∃ symbol final, perhapsEndless.generate ⟨2, true⟩ Run.onZeros =
        .error (.limitExceeded symbol 2) final) ∧
      1 ≤ 2 ∧ perhapsEndless.generate ⟨2, true⟩ Run.onHalves =
        perhapsEndless.generate ⟨1, true⟩ Run.onHalves := by
  refine ⟨⟨by decide, ?_⟩, by decide, ?_⟩
  · exact (generate_eq_of_le perhapsEndless true 2 3 (by decide) Run.onZeros).2 ⟨"S"⟩ 3 _ rfl
  · refine (generate_eq_of_le perhapsEndless true 1 2 (by decide) _).1 ?_
    intro symbol limit final exceeded
    cases exceeded

end SentenceGrammar
