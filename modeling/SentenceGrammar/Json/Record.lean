import SentenceGrammar.Json.Value

/-! Records and choices in JSON. A record is an object with named members, of which unknown ones are
passed over, or an array of its fields in their order. A choice is the name of a case, alone or as
the only member of an object that holds what belongs to the case. -/

namespace SentenceGrammar

namespace Json

/-- The value of the member with a name. A name that occurs twice is not accepted, and neither is a
member whose name has no text. -/
def member (name : String) : List (JsonString × Json) → Option (Option Json)
  | [] => some none
  | (key, value) :: rest => do
    let text ← key.text
    let later ← member name rest
    if text = name then
      match later with
      | none => some (some value)
      | some _ => none
    else some later

def membersNamed (members : List (JsonString × Json)) : List String → Option (List (Option Json))
  | [] => some []
  | name :: names => do
    let value ← member name members
    let values ← membersNamed members names
    return value :: values

/-- The elements of an array as the values of fields, of which the last may be missing. -/
def fieldsInOrder : List Json → List String → Option (List (Option Json))
  | [], names => some (names.map fun _ => none)
  | _ :: _, [] => none
  | element :: rest, _ :: names => (fieldsInOrder rest names).map (some element :: ·)

def fields (names : List String) : Json → Option (List (Option Json))
  | .object members => membersNamed members names
  | .array elements => fieldsInOrder elements names
  | _ => none

/-- A case of a choice that is written as an object, with what belongs to it. -/
def choice : Json → Option (String × Json)
  | .object [(key, content)] => key.text.map fun name => (name, content)
  | _ => none

def isNull : Json → Bool
  | .null => true
  | _ => false

end Json

end SentenceGrammar
