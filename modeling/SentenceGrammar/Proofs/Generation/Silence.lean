import SentenceGrammar.Proofs.Generation.Faults
import SentenceGrammar.Proofs.Generation.Scopes
import SentenceGrammar.Proofs.Text.Joining

/-! Where nothing is said. An empty atom, and one whose alternatives are all excluded where it
stands, leave the line as it is. So the words around them are joined as if they were not there. -/

namespace SentenceGrammar

variable {σ : Type}

/-- An atom that comes to nothing in a run: it is empty, or has no choice, or opens alternatives
that are all excluded under the labels that its chain leaves active. -/
inductive Atom.ComesToNothing [RandomSource σ] (grammar : Grammar) (run : Run σ) : Atom → Prop where
  | epsilon : ComesToNothing grammar run .epsilon
  | noChoice : ComesToNothing grammar run (.positional [])
  | excluded {atom : Atom} {alternatives : List Alternative} {chain : Chain}
    (opening : atom.opening grammar = some (alternatives, chain))
    (each : ∀ alternative ∈ alternatives,
      (chain.resolve run).1.admits alternative.label = false) :
    ComesToNothing grammar run atom

namespace Expansion

/-- An action that emits no signal in a run, or lacks the room to find out that there is none. -/
def SaysNothing (limit room : Nat) (action : Expansion σ (List Signal)) (run : Run σ) : Prop :=
  (∃ final, action run = .ok [] final) ∨
    room = 0 ∧ ∃ symbol final, action run = .error (.limitExceeded symbol limit) final

theorem SaysNothing.within {limit room : Nat} {run : Run σ}
    {action : Expansion σ (List Signal)} {active : ActiveLabels}
    (inside : SaysNothing limit room action (run.enter active)) :
    SaysNothing limit room (Run.within active action) run := by
  rcases inside with ⟨final, success⟩ | ⟨noRoom, symbol, final, failure⟩
  · exact .inl ⟨final.leave, by rw [Run.within, success]⟩
  · exact .inr ⟨noRoom, symbol, final.leave, by rw [Run.within, failure]⟩

def writtenOn (line : Line) (action : Expansion σ (List Signal)) : Expansion σ Line := do
  let signals ← action
  return Signal.change signals line

end Expansion

open Expansion

variable [RandomSource σ]

section Excluded

variable {grammar : Grammar} {limit room : Nat} {run : Run σ} {alternatives : List Alternative}

theorem Alternative.saysNothing_expandOne (symbol : Symbol)
    (excluded : ∀ alternative ∈ alternatives, run.active.admits alternative.label = false) :
    SaysNothing limit room (Alternative.expandOne grammar limit room symbol alternatives) run := by
  cases room with
  | zero => exact .inr ⟨rfl, symbol, run, rfl⟩
  | succ room =>
    have none : Alternative.eligible run.active alternatives = [] := by
      rw [Alternative.eligible_eq_filter, List.filter_eq_nil_iff]
      intro alternative member
      exact Bool.eq_false_iff.mp (excluded alternative member)
    obtain ⟨final, chosen⟩ : ∃ final,
        Alternative.choose symbol alternatives run = .ok .nothing final := by
      refine ⟨(run.note (.eligible symbol 0 alternatives.length)).note
        (.nothingEligible run.active), ?_⟩
      change Alternative.chooseEligible symbol alternatives run.active run = _
      rw [Alternative.chooseEligible, none]
      rfl
    refine .inl ⟨final, ?_⟩
    rw [Alternative.expandOne_succ, bind_apply, chosen]
    rfl

theorem Expansion.saysNothing_under (symbol : Symbol) {chain : Chain}
    (excluded : ∀ alternative ∈ alternatives,
      (chain.resolve run).1.admits alternative.label = false) :
    SaysNothing limit room
      (under (Alternative.expandOne grammar limit room) symbol alternatives chain) run := by
  cases chain with
  | nil => exact Alternative.saysNothing_expandOne symbol excluded
  | cons selector later =>
    let resolved := Chain.resolve (selector :: later) run
    let opened := resolved.2.note (.opened symbol (selector :: later) resolved.1)
    have inside : SaysNothing limit room
        (Alternative.expandOne grammar limit room symbol alternatives)
        (opened.enter resolved.1) :=
      Alternative.saysNothing_expandOne symbol excluded
    exact inside.within

variable {atom : Atom}

theorem Atom.exists_expand_eq
    (openAlternatives : Symbol → List Alternative → Expansion σ (List Signal)) {chain : Chain}
    (opening : atom.opening grammar = some (alternatives, chain)) (symbol : Symbol)
    (slot : Option Nat) :
    ∃ name, Atom.expand grammar openAlternatives symbol slot atom = do
      let signals ← Expansion.under openAlternatives name alternatives chain
      return (signals, slot) := by
  cases atom with
  | reference name other =>
    obtain ⟨found, defined, same⟩ := Option.map_eq_some_iff.mp opening
    cases same
    exact ⟨name, by simp only [Atom.expand, defined]⟩
  | group inner other =>
    cases opening
    exact ⟨symbol, rfl⟩
  | terminal | positional | epsilon => cases opening

theorem Atom.ComesToNothing.expand_eq (nothing : atom.ComesToNothing grammar run)
    (symbol : Symbol) (slot : Option Nat) :
    (∃ final, Atom.expand grammar (Alternative.expandOne grammar limit room) symbol slot atom run =
      .ok ([], slot) final) ∨
    room = 0 ∧ ∃ name final, Atom.expand grammar (Alternative.expandOne grammar limit room) symbol
      slot atom run = .error (.limitExceeded name limit) final := by
  cases nothing with
  | epsilon | noChoice => exact .inl ⟨run, rfl⟩
  | excluded opening each =>
    let opens : Symbol → List Alternative → Expansion σ (List Signal) :=
      Alternative.expandOne grammar limit room
    obtain ⟨name, expands⟩ := Atom.exists_expand_eq opens opening symbol slot
    rw [expands, bind_apply]
    rcases saysNothing_under name each with ⟨final, success⟩ | ⟨noRoom, other, final, failure⟩
    · rw [success]
      exact .inl ⟨final, rfl⟩
    · rw [failure]
      exact .inr ⟨noRoom, other, final, rfl⟩

end Excluded

theorem Part.writtenOn_cons (grammar : Grammar)
    (openAlternatives : Symbol → List Alternative → Expansion σ (List Signal)) (symbol : Symbol)
    (slot : Option Nat) (part : Part) (rest : List Part) (line : Line) :
    writtenOn line (Part.expandList grammar openAlternatives symbol slot (part :: rest)) = (do
      let outcome ← part.atom.expand grammar openAlternatives symbol slot
      writtenOn (Signal.change (part.junction.signals ++ outcome.1) line)
        (Part.expandList grammar openAlternatives symbol outcome.2 rest)) := by
  simp only [writtenOn, Part.expandList, bind_assoc, pure_bind, Signal.change_append,
    Function.comp_apply]

theorem Grammar.generate_eq_written (grammar : Grammar) (settings : Settings) :
    (grammar.generate settings : Expansion σ String) = (do
      modify fun run => run.note (.started grammar.start run.seed)
      let line ← writtenOn .blank (Alternative.expandOne grammar settings.maxDepth
        settings.maxDepth grammar.start grammar.startAlternatives)
      return if settings.trimOutput then Text.trim line.text else line.text) := by
  simp only [writtenOn, bind_assoc, pure_bind]
  rfl

/-- The text is that of the words that are not empty, in their order, with a space between two of
them unless there is a glue in the pause between them. Empty words make no difference, nor do glues
ahead of all words or behind them, and a glue stays pending over a pause. Generations write on a
line from left to right. An atom that comes to nothing leaves the line as it is, so that what
follows it is written there as if it were not there, but for the glue ahead of it. -/
theorem Signal.join_words_and_pauses :
    (∀ signals : List Signal, ∃ (lead : Pause) (spoken : List Spoken),
      signals = lead.signals ++ spoken.flatMap Spoken.signals) ∧
    (∀ (lead : Pause) (spoken : List Spoken),
      join (lead.signals ++ spoken.flatMap Spoken.signals) = Spoken.text spoken) ∧
    (∀ before after, join (before ++ .word "" :: after) = join (before ++ after)) ∧
    (∀ (lead trail : Pause) (signals : List Signal),
      join (lead.signals ++ signals ++ trail.signals) = join signals) ∧
    (∀ (before : List Signal) (pause : Pause) (word : String),
      join (before ++ .glue :: (pause.signals ++ [.word word])) = join before ++ word) ∧
    ∀ {σ : Type} [RandomSource σ] (grammar : Grammar),
      (∀ settings : Settings, (grammar.generate settings : Expansion σ String) = (do
        modify fun run => run.note (.started grammar.start run.seed)
        let line ← writtenOn .blank (Alternative.expandOne grammar settings.maxDepth
          settings.maxDepth grammar.start grammar.startAlternatives)
        return if settings.trimOutput then Text.trim line.text else line.text)) ∧
      ∀ (limit room : Nat) (symbol : Symbol) (slot : Option Nat) (part : Part) (rest : List Part)
        (line : Line) (run : Run σ), part.atom.ComesToNothing grammar run →
        (∃ middle, part.atom.expand grammar (Alternative.expandOne grammar limit room) symbol slot
            run = .ok ([], slot) middle ∧ middle.scopes = run.scopes ∧
          writtenOn line (Part.expandList grammar (Alternative.expandOne grammar limit room) symbol
              slot (part :: rest)) run =
            writtenOn (change part.junction.signals line) (Part.expandList grammar
              (Alternative.expandOne grammar limit room) symbol slot rest) middle) ∨
        room = 0 ∧ ∃ name final, part.atom.expand grammar
          (Alternative.expandOne grammar limit room) symbol slot run =
            .error (.limitExceeded name limit) final := by
  refine ⟨exists_spoken, join_spoken, join_empty_word, join_between, join_glued, ?_⟩
  intro σ _ grammar
  refine ⟨grammar.generate_eq_written, ?_⟩
  intro limit room symbol slot part rest line run nothing
  rcases nothing.expand_eq symbol slot with ⟨middle, success⟩ | exceeded
  · refine .inl ⟨middle, success, ?_, ?_⟩
    · exact (Atom.keepsScopes_expand (Alternative.keepsScopes_expandOne grammar limit room)
        symbol part.atom slot).scopes_eq success
    · rw [Part.writtenOn_cons, bind_apply, success]
      change writtenOn (change (part.junction.signals ++ []) line) _ middle = _
      rw [List.append_nil]
  · exact .inr exceeded

def Grammar.onlyLabelled : Grammar :=
  ⟨.insert .empty ⟨"C"⟩ [⟨some ⟨"g"⟩, [.spaced (.terminal "c")]⟩], ⟨"C"⟩, by decide⟩

theorem Signal.join_words_and_pauses_excluded :
    Atom.ComesToNothing Grammar.onlyLabelled Run.onZeros
      (.reference ⟨"C"⟩ [.anyOf [⟨"a"⟩]]) ∧
    ∃ middle, middle.scopes = [] ∧
      writtenOn ⟨"cat", false⟩ (Part.expandList Grammar.onlyLabelled
        (Alternative.expandOne Grammar.onlyLabelled 2 1) ⟨"S"⟩ none
        [⟨.glue, .reference ⟨"C"⟩ [.anyOf [⟨"a"⟩]]⟩, .spaced (.terminal "s")]) Run.onZeros =
          .ok ⟨"cats", false⟩ middle := by
  have nothing : Atom.ComesToNothing Grammar.onlyLabelled Run.onZeros
      (.reference ⟨"C"⟩ [.anyOf [⟨"a"⟩]]) := .excluded rfl (by decide)
  obtain ⟨_, _, _, _, _, generations⟩ := join_words_and_pauses
  rcases (generations Grammar.onlyLabelled).2 2 1 ⟨"S"⟩ none
      ⟨.glue, .reference ⟨"C"⟩ [.anyOf [⟨"a"⟩]]⟩ [.spaced (.terminal "s")] ⟨"cat", false⟩
      Run.onZeros nothing with ⟨middle, _, scopes, written⟩ | ⟨noRoom, _⟩
  · exact ⟨nothing, middle, scopes, written.trans rfl⟩
  · exact absurd noRoom Nat.one_ne_zero

end SentenceGrammar
