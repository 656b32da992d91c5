import SentenceGrammar.Proofs.Generation.Steps
import SentenceGrammar.Proofs.Grammar.Lookup

/-! Why a generation may fail. An expansion comes only to references that are written in some rule,
so each symbol that it misses is among those that the grammar lists as undefined; apart from that it
can only run out of levels. -/

namespace SentenceGrammar

variable {σ α β : Type}

namespace Expansion

def FailsWith (foreseen : ExpansionFault → Prop) (action : Expansion σ α) : Prop :=
  ∀ run fault final, action run = .error fault final → foreseen fault

variable {foreseen : ExpansionFault → Prop}

theorem failsWith_pure (result : α) : FailsWith foreseen (pure result : Expansion σ α) :=
  fun _ _ _ failed => nomatch failed

theorem failsWith_modifyGet (operation : Run σ → α × Run σ) :
    FailsWith foreseen (modifyGet operation : Expansion σ α) :=
  fun _ _ _ failed => nomatch failed

theorem failsWith_note (event : Run σ → Event) :
    FailsWith foreseen (modify fun run => run.note (event run) : Expansion σ Unit) :=
  fun _ _ _ failed => nomatch failed

theorem failsWith_get : FailsWith foreseen (get : Expansion σ (Run σ)) :=
  fun _ _ _ failed => nomatch failed

theorem failsWith_throw {fault : ExpansionFault} (known : foreseen fault) :
    FailsWith foreseen (throw fault : Expansion σ α) := by
  intro run other final failed
  cases failed
  exact known

theorem FailsWith.bind {action : Expansion σ α} {next : α → Expansion σ β}
    (first : FailsWith foreseen action)
    (second : ∀ result, Returns action result → FailsWith foreseen (next result)) :
    FailsWith foreseen (action >>= next) := by
  intro run fault final failed
  rw [bind_apply] at failed
  cases outcome : action run with
  | ok result middle =>
    rw [outcome] at failed
    exact second result ⟨run, middle, outcome⟩ middle fault final failed
  | error earlier middle =>
    rw [outcome] at failed
    cases failed
    exact first run _ _ outcome

theorem FailsWith.within {action : Expansion σ α} (inside : FailsWith foreseen action)
    (active : ActiveLabels) : FailsWith foreseen (Run.within active action) := by
  intro run fault final failed
  unfold Run.within at failed
  cases outcome : action (run.enter active) with
  | ok result last => simp [outcome] at failed
  | error inner last =>
    rw [outcome] at failed
    cases failed
    exact inside _ _ _ outcome

end Expansion

open Expansion

def Atom.Written (grammar : Grammar) (atom : Atom) : Prop :=
  ∀ symbol ∈ atom.references, symbol ∈ grammar.rules.references

theorem Grammar.mem_references_of_lookup {grammar : Grammar} {symbol other : Symbol}
    {alternatives : List Alternative} (defined : grammar.lookup symbol = some alternatives)
    (referred : other ∈ Alternative.listReferences alternatives) :
    other ∈ grammar.rules.references :=
  List.mem_flatMap.mpr ⟨⟨symbol, alternatives⟩, Rules.mem_of_find defined, referred⟩

theorem Grammar.eachAtom_of_lookup {grammar : Grammar} {symbol : Symbol}
    {alternatives : List Alternative} (defined : grammar.lookup symbol = some alternatives) :
    Alternative.EachAtom (Atom.Written grammar) alternatives :=
  Alternative.eachAtom_refersWithin fun _ referred => mem_references_of_lookup defined referred

theorem Atom.hereditary_written (grammar : Grammar) :
    Atom.Hereditary grammar (Atom.Written grammar) :=
  Atom.hereditary_refersWithin fun _ _ _ defined _ referred =>
    Grammar.mem_references_of_lookup defined referred

/-- The faults that the rules of a grammar and a limit leave possible. -/
def Grammar.Foresees (grammar : Grammar) (limit : Nat) (fault : ExpansionFault) : Prop :=
  (∃ symbol active, fault = .undefinedSymbol symbol active ∧ symbol ∈ grammar.undefinedSymbols) ∨
    ∃ symbol, fault = .limitExceeded symbol limit

theorem Grammar.foresees_undefinedSymbol {grammar : Grammar} {limit : Nat} {symbol : Symbol}
    (referred : symbol ∈ grammar.rules.references) (absent : grammar.lookup symbol = none)
    (active : ActiveLabels) : grammar.Foresees limit (.undefinedSymbol symbol active) := by
  refine .inl ⟨symbol, active, rfl, ?_⟩
  have undefined : grammar.rules.defines symbol = false := by
    rw [Rules.defines, ← Grammar.lookup, absent, Option.isSome_none]
  simp [Grammar.undefinedSymbols, referred, undefined]

variable [RandomSource σ]

theorem Expansion.compatible_failsWith {grammar : Grammar} {property : Atom → Prop}
    {foreseen : ExpansionFault → Prop}
    (undefined : ∀ symbol chain active, property (.reference symbol chain) →
      grammar.lookup symbol = none → foreseen (.undefinedSymbol symbol active)) :
    Compatible grammar property fun _ (action : Expansion σ _) _ => FailsWith foreseen action where
  pure := failsWith_pure
  bind first second := first.bind second
  started := failsWith_note _
  index _ _ := failsWith_modifyGet _
  choose _ _ := failsWith_get.bind fun _ _ => (failsWith_note _).bind fun _ _ =>
    (failsWith_modifyGet _).bind fun _ _ => failsWith_pure _
  undefined holds absent := failsWith_get.bind fun run _ => failsWith_throw
    (undefined _ _ run.active holds absent)
  under _ _ opens := by
    unfold Expansion.under
    split
    · exact opens
    · refine (failsWith_modifyGet _).bind fun active _ => ?_
      exact (failsWith_note _).bind fun _ _ => opens.within active

theorem Grammar.failsWith_generate (grammar : Grammar) (settings : Settings) :
    FailsWith (grammar.Foresees settings.maxDepth)
      (grammar.generate settings : Expansion σ String) :=
  (compatible_failsWith fun _ _ active written absent =>
      Grammar.foresees_undefinedSymbol (written _ List.mem_cons_self) absent active).generate
    (Atom.hereditary_written grammar)
    (fun symbol _ => failsWith_throw (.inr ⟨symbol, rfl⟩)) (Nat.le_refl _) rfl
    (Grammar.eachAtom_of_lookup (Option.some_get grammar.startDefined).symm)

/-- A generation that fails misses a symbol that is listed as undefined, or it comes to the limit of
the settings. If no symbol is undefined only the limit remains. -/
theorem Grammar.foresees_of_generate_eq_error (grammar : Grammar) (settings : Settings)
    (run final : Run σ) (fault : ExpansionFault)
    (failed : grammar.generate settings run = .error fault final) :
    ((∃ symbol active,
        fault = .undefinedSymbol symbol active ∧ symbol ∈ grammar.undefinedSymbols) ∨
      ∃ symbol, fault = .limitExceeded symbol settings.maxDepth) ∧
    (grammar.undefinedSymbols = [] →
      ∃ symbol, fault = .limitExceeded symbol settings.maxDepth) := by
  have foreseen := grammar.failsWith_generate settings run fault final failed
  refine ⟨foreseen, fun complete => ?_⟩
  rcases foreseen with ⟨symbol, active, _, listed⟩ | exceeded
  · rw [complete] at listed
    exact absurd listed List.not_mem_nil
  · exact exceeded

def Grammar.missingInGroup : Grammar :=
  ⟨Rules.empty.insert ⟨"S"⟩ [⟨none, [.spaced (.group
      [⟨none, [.spaced (.positional [.reference ⟨"Missing"⟩ []])]⟩] [])]⟩],
    ⟨"S"⟩, by decide⟩

def Run.onZeros : Run (Nat → UInt64) :=
  .onSource 0 fun _ => 0

theorem Grammar.foresees_missingInGroup :
    missingInGroup.generate .standard Run.onZeros =
        .error (.undefinedSymbol ⟨"Missing"⟩ .none)
          (finalRun (missingInGroup.generate .standard Run.onZeros)) ∧
      ((∃ symbol active, ExpansionFault.undefinedSymbol ⟨"Missing"⟩ .none =
            .undefinedSymbol symbol active ∧ symbol ∈ missingInGroup.undefinedSymbols) ∨
        ∃ symbol, ExpansionFault.undefinedSymbol ⟨"Missing"⟩ .none =
          .limitExceeded symbol Settings.standard.maxDepth) := by
  have failed : missingInGroup.generate .standard Run.onZeros =
    .error (.undefinedSymbol ⟨"Missing"⟩ .none)
      (finalRun (missingInGroup.generate .standard Run.onZeros)) := rfl
  exact ⟨failed, (foresees_of_generate_eq_error missingInGroup .standard Run.onZeros _ _ failed).1⟩

end SentenceGrammar
