import SentenceGrammar.ActiveLabels
import SentenceGrammar.Chain

/-! What happens during reading and generation, as told to a log. An event is a fact; its level and
its wording are functions of it. -/

namespace SentenceGrammar

inductive Level where
  | warn
  | info
  | debug
  | trace
deriving DecidableEq, Repr

def Level.name : Level → String
  | .warn => "WARN"
  | .info => "INFO"
  | .debug => "DEBUG"
  | .trace => "TRACE"

/-- The rank of a level; a log set to some rank shows the levels up to it. -/
def Level.rank : Level → Nat
  | .warn => 0
  | .info => 1
  | .debug => 2
  | .trace => 3

/-- A fact worth logging. The label of a picked alternative belongs to the fact, though the wording
leaves it out. -/
inductive Event where
  | seeded (seed : UInt64)
  | started (start : Symbol) (seed : UInt64)
  | opened (symbol : Symbol) (chain : Chain) (active : ActiveLabels)
  | eligible (symbol : Symbol) (kept : Nat) (offered : Nat)
  | picked (label : Option Label) (index : Nat) (count : Nat) (active : ActiveLabels)
  | nothingEligible (active : ActiveLabels)
  | unfolding (references : Nat)
  | loaded (nonTerminals : Nat) (file : String)
  | undefinedReference (symbol : Symbol)
  | generated (seed : UInt64)
deriving DecidableEq

namespace Event

/-- Choices are traced, the course of a run is for debugging, and only undefined references warn. -/
def level : Event → Level
  | seeded _ | started _ _ | nothingEligible _ | unfolding _ => .debug
  | opened _ _ _ | eligible _ _ _ | picked _ _ _ _ => .trace
  | loaded _ _ | generated _ => .info
  | undefinedReference _ => .warn

def message : Event → String
  | seeded seed => "seed used: " ++ toString seed.toNat
  | started start seed => "generating `" ++ start.name ++ "` with seed " ++ toString seed.toNat
  | opened symbol chain active =>
    "`" ++ symbol.name ++ chain.text ++ "` opens selection " ++ active.text
  | eligible symbol kept offered =>
    "`" ++ symbol.name ++ "`: " ++ toString kept ++ " of " ++ toString offered ++
      " alternatives eligible"
  | picked _ index count active =>
    "picked alternative " ++ toString index ++ " of " ++ toString count ++ " under " ++ active.text
  | nothingEligible active =>
    "every alternative excluded by selection " ++ active.text ++ ", producing nothing"
  | unfolding references => "unfolding " ++ toString references ++ " non-terminal references"
  | loaded nonTerminals file =>
    "loaded " ++ toString nonTerminals ++ " non-terminals from " ++ file
  | undefinedReference symbol => "`" ++ symbol.name ++ "` is referenced but never defined"
  | generated seed => "seed used: " ++ toString seed.toNat

end Event

structure LogRecord where
  level : Level
  message : String
deriving DecidableEq, Repr

def Event.record (event : Event) : LogRecord :=
  ⟨event.level, event.message⟩

end SentenceGrammar
