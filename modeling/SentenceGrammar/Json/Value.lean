import SentenceGrammar.Text.Decimal

/-! JSON values. A string is a sequence of characters and of surrogates without a partner, because
an escape can name a surrogate that is no character; only a string without surrogates has a text.
Object members keep their order, and numbers their digits. -/

namespace SentenceGrammar

inductive StringUnit where
  | char (c : Char)
  | surrogate (code : Nat)
deriving DecidableEq, Repr

/-- What stands between the quotes of a JSON string, with escapes resolved. -/
abbrev JsonString := List StringUnit

inductive Json where
  | null
  | bool (value : Bool)
  | number (literal : List Char)
  | string (units : JsonString)
  | array (elements : List Json)
  | object (members : List (JsonString × Json))

instance : Inhabited Json := ⟨.null⟩

def JsonString.ofText (text : String) : JsonString :=
  text.toList.map .char

/-- The characters of a string, unless it has a surrogate. -/
def JsonString.characters : JsonString → Option (List Char)
  | [] => some []
  | .char c :: rest => (JsonString.characters rest).map (c :: ·)
  | .surrogate _ :: _ => none

def JsonString.text (units : JsonString) : Option String :=
  (JsonString.characters units).map String.ofList

namespace Json

def ofText (text : String) : Json :=
  .string (.ofText text)

def ofMembers (members : List (String × Json)) : Json :=
  .object (members.map fun (name, value) => (.ofText name, value))

def text : Json → Option String
  | .string units => units.text
  | _ => none

def elements : Json → Option (List Json)
  | .array elements => some elements
  | _ => none

def truth : Json → Option Bool
  | .bool value => some value
  | _ => none

/-- The value of a number that is written with digits alone: no sign, no fraction, no exponent. -/
def natural : Json → Option Nat
  | .number literal => Text.readDigits 0 literal
  | _ => none

mutual

def nesting : Json → Nat
  | .null | .bool _ | .number _ | .string _ => 0
  | .array elements => listNesting elements + 1
  | .object members => memberNesting members + 1

def listNesting : List Json → Nat
  | [] => 0
  | element :: rest => max element.nesting (listNesting rest)

def memberNesting : List (JsonString × Json) → Nat
  | [] => 0
  | (_, value) :: rest => max value.nesting (memberNesting rest)

end

end Json

@[simp] theorem JsonString.characters_map_char (text : List Char) :
    JsonString.characters (text.map .char) = some text := by
  induction text with
  | nil => rfl
  | cons c rest ih => simp [JsonString.characters, ih]

@[simp] theorem JsonString.text_ofText (text : String) :
    (JsonString.ofText text).text = some text := by
  simp [JsonString.text, JsonString.ofText]

end SentenceGrammar
