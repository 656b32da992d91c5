import SentenceGrammar.Grammar.Basic
import SentenceGrammar.Json.Printer

/-! Grammars as JSON. Fields with their usual value are left out: no label, a space as junction, and
an empty chain. -/

namespace SentenceGrammar

def Selector.toJson : Selector → Json
  | .reset => .ofText "reset"
  | .anyOf labels =>
    .ofMembers [("labels", .array (labels.map fun label => .ofText label.name))]

def Chain.toFields (chain : Chain) : List (String × Json) :=
  if chain.isEmpty then [] else [("selection", .array (chain.map Selector.toJson))]

def Junction.toFields : Junction → List (String × Json)
  | .space => []
  | .glue => [("join", .ofText "glue")]

def Label.toFields : Option Label → List (String × Json)
  | none => []
  | some label => [("label", .ofText label.name)]

mutual

def Atom.toJson : Atom → Json
  | .terminal text => .ofMembers [("terminal", .ofText text)]
  | .reference symbol chain =>
    .ofMembers [("reference", .ofMembers (("symbol", .ofText symbol.name) :: chain.toFields))]
  | .group alternatives chain =>
    .ofMembers [("group", .ofMembers
      (("alternatives", .array (Alternative.listToJson alternatives)) :: chain.toFields))]
  | .positional choices => .ofMembers [("positional", .array (Atom.listToJson choices))]
  | .epsilon => .ofText "epsilon"

def Atom.listToJson : List Atom → List Json
  | [] => []
  | atom :: rest => atom.toJson :: Atom.listToJson rest

def Part.listToJson : List Part → List Json
  | [] => []
  | ⟨junction, atom⟩ :: rest =>
    .ofMembers (("atom", atom.toJson) :: junction.toFields) :: Part.listToJson rest

def Alternative.listToJson : List Alternative → List Json
  | [] => []
  | ⟨label, parts⟩ :: rest =>
    .ofMembers (Label.toFields label ++ [("items", .array (Part.listToJson parts))]) ::
      Alternative.listToJson rest

end

def Rules.toJson (rules : Rules) : Json :=
  .ofMembers (rules.list.map fun rule =>
    (rule.symbol.name, .array (Alternative.listToJson rule.alternatives)))

namespace Grammar

def toJson (grammar : Grammar) : Json :=
  .ofMembers [("rules", grammar.rules.toJson), ("start_symbol", .ofText grammar.start.name)]

def toJsonText (grammar : Grammar) : String :=
  grammar.toJson.pretty

end Grammar

end SentenceGrammar
