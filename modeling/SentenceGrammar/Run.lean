import SentenceGrammar.Event
import SentenceGrammar.Grammar.Atom
import SentenceGrammar.Random.Keystream

/-! The state of a run: a random source with the seed it came from, the scopes that have been opened
and not closed, and what has been logged. Several generations may share a run; each then goes on
with the random state that the one before it left. -/

namespace SentenceGrammar

/-- Scopes are kept innermost first, and events newest first. -/
structure Run (σ : Type) where
  seed : UInt64
  source : σ
  scopes : List ActiveLabels
  events : List Event

namespace Run

def onSource {σ : Type} (seed : UInt64) (source : σ) : Run σ :=
  ⟨seed, source, [], [.seeded seed]⟩

def ofSeed (seed : UInt64) : Run Keystream :=
  onSource seed (.ofSeed seed)

variable {σ : Type}

/-- The labels of the innermost scope; none are active outside all scopes. -/
def active (run : Run σ) : ActiveLabels :=
  run.scopes.head?.getD .none

def depth (run : Run σ) : Nat :=
  run.scopes.length

def log (run : Run σ) : List Event :=
  run.events.reverse

def note (run : Run σ) (event : Event) : Run σ :=
  { run with events := event :: run.events }

def enter (run : Run σ) (active : ActiveLabels) : Run σ :=
  { run with scopes := active :: run.scopes }

def leave (run : Run σ) : Run σ :=
  { run with scopes := run.scopes.tail }

/-- Does something in a scope of its own, which is closed again whether or not it succeeds. -/
def within {ε α : Type} (active : ActiveLabels) (action : EStateM ε (Run σ) α) :
    EStateM ε (Run σ) α := fun run =>
  match action (run.enter active) with
  | .ok result run => .ok result run.leave
  | .error fault run => .error fault run.leave

variable [RandomSource σ]

def number (low high : Nat) (run : Run σ) : Nat × Run σ :=
  let (value, source) := RandomSource.between low high run.source
  (value, { run with source := source })

def index (last : Nat) (run : Run σ) : Fin (last + 1) × Run σ :=
  let (value, source) := RandomSource.index last run.source
  (value, { run with source := source })

def pick : (eligible : List Alternative) → Run σ → Option (Fin eligible.length) × Run σ
  | [], run => (none, run.note (.nothingEligible run.active))
  | first :: others, run =>
    let (chosen, run) := run.index others.length
    let label := ((first :: others).get chosen).label
    (some chosen, run.note (.picked label chosen (first :: others).length run.active))

end Run

@[simp] theorem Run.leave_enter {σ : Type} (run : Run σ) (active : ActiveLabels) :
    (run.enter active).leave = run := rfl

@[simp] theorem Run.active_enter {σ : Type} (run : Run σ) (active : ActiveLabels) :
    (run.enter active).active = active := rfl

end SentenceGrammar
