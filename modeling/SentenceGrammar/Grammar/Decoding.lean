import SentenceGrammar.Grammar.Basic
import SentenceGrammar.Json.Reader
import SentenceGrammar.Json.Record

/-! Grammars from JSON. Decoding descends from container to container and may enter only so many of
them inside each other; what is passed over without being decoded does not count. -/

namespace SentenceGrammar

/-- Why a JSON text is not a grammar. Faults of the text and of its form are not told apart. -/
inductive GrammarJsonFault where
  | unreadable
  | startUndefined (fault : StartUndefined)
deriving DecidableEq, Repr

def Grammar.containerLimit : Nat := 127

def Label.ofJson (json : Json) : Option Label :=
  json.text.map Label.mk

def Selector.ofJson : (room : Nat) → Json → Option Selector
  | _, .string units => if units.text = some "reset" then some .reset else none
  | 0, _ => none
  | room + 1, json => do
    let (name, content) ← json.choice
    match name, room with
    | "reset", _ => if content.isNull then some .reset else none
    | "labels", _ + 1 => return .anyOf (← (← content.elements).mapM Label.ofJson)
    | _, _ => none

/-- A chain is an array of selectors, and empty where it is left out. -/
def Chain.ofJson (room : Nat) : Option Json → Option Chain
  | none => some []
  | some json =>
    match room with
    | 0 => none
    | room + 1 => do (← json.elements).mapM (Selector.ofJson room)

def Junction.ofName : String → Option Junction
  | "space" => some .space
  | "glue" => some .glue
  | _ => none

/-- A junction is a choice to which nothing belongs, and a space where it is left out. -/
def Junction.ofJson (room : Nat) : Option Json → Option Junction
  | none => some .space
  | some (.string units) => do Junction.ofName (← units.text)
  | some json =>
    match room with
    | 0 => none
    | _ + 1 => do
      let (name, content) ← json.choice
      if content.isNull then Junction.ofName name else none

/-- The label of an alternative may be left out, or null. -/
def Label.ofField : Option Json → Option (Option Label)
  | none | some .null => some none
  | some json => (Label.ofJson json).map some

mutual

def Atom.ofJson : (room : Nat) → Json → Option Atom
  | _, .string units => if units.text = some "epsilon" then some .epsilon else none
  | 0, _ => none
  | room + 1, json => do
    let (name, content) ← json.choice
    match name with
    | "epsilon" => if content.isNull then some .epsilon else none
    | "terminal" => content.text.map .terminal
    | "positional" => (Atom.listOfJson room content).map .positional
    | "reference" => Atom.referenceOfJson room content
    | "group" => Atom.groupOfJson room content
    | _ => none

def Atom.listOfJson : (room : Nat) → Json → Option (List Atom)
  | 0, _ => none
  | room + 1, json => do (← json.elements).mapM (Atom.ofJson room)

def Atom.referenceOfJson : (room : Nat) → Json → Option Atom
  | 0, _ => none
  | room + 1, json => do
    match ← json.fields ["symbol", "selection"] with
    | [some symbol, selection] =>
      return .reference ⟨← symbol.text⟩ (← Chain.ofJson room selection)
    | _ => none

def Atom.groupOfJson : (room : Nat) → Json → Option Atom
  | 0, _ => none
  | room + 1, json => do
    match ← json.fields ["alternatives", "selection"] with
    | [some alternatives, selection] =>
      return .group (← Alternative.listOfJson room alternatives) (← Chain.ofJson room selection)
    | _ => none

def Part.ofJson : (room : Nat) → Json → Option Part
  | 0, _ => none
  | room + 1, json => do
    match ← json.fields ["atom", "join"] with
    | [some atom, join] => return ⟨← Junction.ofJson room join, ← Atom.ofJson room atom⟩
    | _ => none

def Part.listOfJson : (room : Nat) → Json → Option (List Part)
  | 0, _ => none
  | room + 1, json => do (← json.elements).mapM (Part.ofJson room)

def Alternative.ofJson : (room : Nat) → Json → Option Alternative
  | 0, _ => none
  | room + 1, json => do
    match ← json.fields ["label", "items"] with
    | [label, some items] => return ⟨← Label.ofField label, ← Part.listOfJson room items⟩
    | _ => none

def Alternative.listOfJson : (room : Nat) → Json → Option (List Alternative)
  | 0, _ => none
  | room + 1, json => do (← json.elements).mapM (Alternative.ofJson room)

end

/-- The rules that the members of an object give to its names. The last of several with one name
counts. -/
def Rules.ofMembers (room : Nat) (rules : Rules) :
    List (JsonString × Json) → Option Rules
  | [] => some rules
  | (key, value) :: rest => do
    let name ← key.text
    let alternatives ← Alternative.listOfJson room value
    Rules.ofMembers room (rules.insert ⟨name⟩ alternatives) rest

def Rules.ofJson : (room : Nat) → Json → Option Rules
  | room + 1, .object members => Rules.ofMembers room .empty members
  | _, _ => none

namespace Grammar

def ofJson : (room : Nat) → Json → Option (Rules × Symbol)
  | 0, _ => none
  | room + 1, json => do
    match ← json.fields ["rules", "start_symbol"] with
    | [some rules, some start] => return (← Rules.ofJson room rules, ⟨← start.text⟩)
    | _ => none

def ofJsonText (text : String) : Except GrammarJsonFault Grammar :=
  match (Json.read text).bind (ofJson containerLimit) with
  | none => .error .unreadable
  | some (rules, start) => (ofRules rules start).mapError .startUndefined

end Grammar

end SentenceGrammar
