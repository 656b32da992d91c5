import SentenceGrammar.Json.Value

/-! The tokens of a JSON text. What stands at its front is recognised together with its length, and
the scan then passes over that many characters. -/

namespace SentenceGrammar

/-- A token of a JSON text. Numbers keep their literal. -/
inductive JsonToken where
  | openBrace
  | closeBrace
  | openBracket
  | closeBracket
  | colon
  | comma
  | null
  | bool (value : Bool)
  | number (literal : List Char)
  | string (units : JsonString)
deriving DecidableEq, Repr

namespace JsonToken

def isSpace (c : Char) : Bool :=
  c = ' ' || c = '\n' || c = '\r' || c = '\t'

def hexDigit (c : Char) : Option Nat :=
  if c.isDigit then some (c.toNat - '0'.toNat)
  else if 'a' ≤ c ∧ c ≤ 'f' then some (c.toNat - 'a'.toNat + 10)
  else if 'A' ≤ c ∧ c ≤ 'F' then some (c.toNat - 'A'.toNat + 10)
  else none

def hexNumber (first second third fourth : Char) : Option Nat := do
  let a ← hexDigit first
  let b ← hexDigit second
  let c ← hexDigit third
  let d ← hexDigit fourth
  return ((a * 16 + b) * 16 + c) * 16 + d

/-- The unit that a four-digit escape stands for on its own. -/
def unitOfCode (code : Nat) : StringUnit :=
  if 0xD800 ≤ code ∧ code ≤ 0xDFFF then .surrogate code else .char (Char.ofNat code)

def letterEscape (c : Char) : Option Char :=
  if c = '\"' ∨ c = '\\' ∨ c = '/' then some c
  else if c = 'b' then some '\x08'
  else if c = 'f' then some '\x0c'
  else if c = 'n' then some '\n'
  else if c = 'r' then some '\r'
  else if c = 't' then some '\t'
  else none

/-- The units of a string after its opening quote, surrogates still single, and the number of
characters to the end of its closing quote. Control characters must be escaped. -/
def stringUnits : List Char → Option (JsonString × Nat)
  | [] => none
  | c :: rest =>
    if c = '\"' then some ([], 1)
    else if c = '\\' then
      match rest with
      | 'u' :: first :: second :: third :: fourth :: rest => do
        let code ← hexNumber first second third fourth
        let (units, length) ← stringUnits rest
        return (unitOfCode code :: units, length + 6)
      | letter :: rest => do
        let escaped ← letterEscape letter
        let (units, length) ← stringUnits rest
        return (.char escaped :: units, length + 2)
      | [] => none
    else if c.toNat < 0x20 then none
    else (stringUnits rest).map fun (units, length) => (.char c :: units, length + 1)

/-- The character that two surrogates in a row stand for, if the first is a leading and the second a
trailing one. -/
def pairedCharacter (first second : Nat) : Option Char :=
  if 0xD800 ≤ first ∧ first ≤ 0xDBFF ∧ 0xDC00 ≤ second ∧ second ≤ 0xDFFF then
    some (Char.ofNat (0x10000 + (first - 0xD800) * 0x400 + (second - 0xDC00)))
  else none

def joinSurrogates : JsonString → JsonString
  | .surrogate first :: .surrogate second :: rest =>
    match pairedCharacter first second with
    | some c => .char c :: joinSurrogates rest
    | none => .surrogate first :: joinSurrogates (.surrogate second :: rest)
  | unit :: rest => unit :: joinSurrogates rest
  | [] => []

def digitsLength (text : List Char) : Nat :=
  (text.takeWhile Char.isDigit).length

/-- The length of the integer part of a number: a zero alone, or digits that do not begin with one.
-/
def integerLength : List Char → Option Nat
  | [] => none
  | c :: rest =>
    if c = '0' then some 1
    else if c.isDigit then some (digitsLength rest + 1)
    else none

/-- The length of the fraction of a number, if it has one; there must be a digit after the point. -/
def fractionLength : List Char → Option Nat
  | [] => some 0
  | c :: rest =>
    if c = '.' then
      if digitsLength rest = 0 then none else some (digitsLength rest + 1)
    else some 0

def signLength : List Char → Nat
  | [] => 0
  | c :: _ => if c = '+' ∨ c = '-' then 1 else 0

/-- The length of the exponent of a number, if it has one; it must contain a digit. -/
def exponentLength : List Char → Option Nat
  | [] => some 0
  | c :: rest =>
    if c = 'e' ∨ c = 'E' then
      let digits := digitsLength (rest.drop (signLength rest))
      if digits = 0 then none else some (signLength rest + digits + 1)
    else some 0

def numberLength (text : List Char) : Option Nat := do
  let sign := if text.head? = some '-' then 1 else 0
  let integer ← integerLength (text.drop sign)
  let fraction ← fractionLength (text.drop (sign + integer))
  let exponent ← exponentLength (text.drop (sign + integer + fraction))
  return sign + integer + fraction + exponent

def punctuation (c : Char) : Option JsonToken :=
  if c = '\x7b' then some .openBrace
  else if c = '\x7d' then some .closeBrace
  else if c = '[' then some .openBracket
  else if c = ']' then some .closeBracket
  else if c = ':' then some .colon
  else if c = ',' then some .comma
  else none

def keyword (text : List Char) : Option (JsonToken × Nat) :=
  if text.take 4 = ['n', 'u', 'l', 'l'] then some (.null, 4)
  else if text.take 4 = ['t', 'r', 'u', 'e'] then some (.bool true, 4)
  else if text.take 5 = ['f', 'a', 'l', 's', 'e'] then some (.bool false, 5)
  else none

def front (c : Char) (rest : List Char) : Option (JsonToken × Nat) :=
  if c = '\"' then
    (stringUnits rest).map fun (units, length) => (.string (joinSurrogates units), length + 1)
  else if c = '-' ∨ c.isDigit then
    (numberLength (c :: rest)).map fun length => (.number ((c :: rest).take length), length)
  else
    match punctuation c with
    | some token => some (token, 1)
    | none => keyword (c :: rest)

/-- Scans a text of which the first characters may belong to the token before. -/
def scan : Nat → List Char → Option (List JsonToken)
  | _, [] => some []
  | passing + 1, _ :: rest => scan passing rest
  | 0, c :: rest =>
    if isSpace c then scan 0 rest
    else do
      let (token, length) ← front c rest
      let later ← scan (length - 1) rest
      return token :: later

end JsonToken

end SentenceGrammar
