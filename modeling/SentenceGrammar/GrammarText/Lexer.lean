import SentenceGrammar.GrammarText.Fault

/-! Cutting a grammar text into tokens. Blanks and comments only separate tokens. What stands at the
front of a text is recognised together with the number of characters it takes up; the scan then
passes over that many characters, keeping count of lines and columns. -/

namespace SentenceGrammar

open Character

namespace Token

def punctuation (c : Char) : Option Token :=
  if c = ':' then some .colon
  else if c = ';' then some .semicolon
  else if c = '|' then some .bar
  else if c = '(' then some .openParen
  else if c = ')' then some .closeParen
  else if c = '[' then some .openBracket
  else if c = ']' then some .closeBracket
  else if c = '^' then some .caret
  else if c = ',' then some .comma
  else if c = '>' then some .unfold
  else none

/-- The number of characters to the end of a comment, from inside it. The nesting is the number of
comments around the innermost one that is open. -/
def commentLength (nesting : Nat) : List Char → Option Nat
  | [] => none
  | [_] => none
  | first :: second :: rest =>
    if first = '(' ∧ second = '*' then (commentLength (nesting + 1) rest).map (· + 2)
    else if first = '*' ∧ second = ')' then
      if nesting = 0 then some 2 else (commentLength (nesting - 1) rest).map (· + 2)
    else (commentLength nesting (second :: rest)).map (· + 1)

/-- The text of a quotation after its opening quote, and the number of characters to the end of its
closing one. A backslash makes the next character stand for itself. -/
def quotation : List Char → Option (List Char × Nat)
  | [] => none
  | c :: rest =>
    if c = '\"' then some ([], 1)
    else if c = '\\' then
      match rest with
      | [] => none
      | escaped :: rest =>
        (quotation rest).map fun (text, length) => (escaped :: text, length + 2)
    else (quotation rest).map fun (text, length) => (c :: text, length + 1)

inductive ChainPlace where
  | betweenElements
  | afterDot
  | inLabel
  | inGroup
deriving DecidableEq, Repr

/-- The number of characters that continue a chain. A parenthesis is passed over up to its closing
counterpart or the end of the text; what it holds is not looked at. -/
def chainLength : ChainPlace → List Char → Nat
  | _, [] => 0
  | .betweenElements, c :: rest => if c = '.' then chainLength .afterDot rest + 1 else 0
  | .afterDot, c :: rest =>
    if c = '.' then chainLength .afterDot rest + 1
    else if c = '(' then chainLength .inGroup rest + 1
    else if isLabelChar c then chainLength .inLabel rest + 1
    else 0
  | .inLabel, c :: rest =>
    if isLabelChar c then chainLength .inLabel rest + 1
    else if c = '.' then chainLength .afterDot rest + 1
    else 0
  | .inGroup, c :: rest =>
    if c = ')' then chainLength .betweenElements rest + 1 else chainLength .inGroup rest + 1

/-- What stands at the front of a text: a token, or a gap between tokens, and its length. -/
structure Front where
  token : Option Token
  length : Nat
deriving DecidableEq, Repr

def front (c : Char) (rest : List Char) : Except SyntaxFault Front :=
  if isBlank c then .ok ⟨none, 1⟩
  else if c = '(' ∧ rest.head? = some '*' then
    match commentLength 0 rest.tail with
    | some length => .ok ⟨none, length + 2⟩
    | none => .error .unterminatedComment
  else if c = ':' ∧ rest.take 2 = [':', '='] then .ok ⟨some .define, 3⟩
  else if c = '\"' then
    match quotation rest with
    | some (text, length) => .ok ⟨some (.quoted (String.ofList text)), length + 1⟩
    | none => .error .unterminatedQuotation
  else if c = '.' then
    let length := chainLength .afterDot rest
    .ok ⟨some (.chain (String.ofList (c :: rest.take length))), length + 1⟩
  else if isWordChar c then
    let others := rest.takeWhile isWordChar
    .ok ⟨some (.word (String.ofList (c :: others))), others.length + 1⟩
  else
    match punctuation c with
    | some token => .ok ⟨some token, 1⟩
    | none => .error (.unexpectedCharacter c)

/-- Scans a text from a position in it, of which the first characters may belong to something that
was recognised before. -/
def scan : Position → Nat → List Char → Except GrammarTextFault (List PlacedToken)
  | _, _, [] => .ok []
  | position, passing + 1, c :: rest => scan (position.after c) passing rest
  | position, 0, c :: rest =>
    match front c rest with
    | .error fault => .error (.syntaxAt position fault)
    | .ok ⟨none, length⟩ => scan (position.after c) (length - 1) rest
    | .ok ⟨some token, length⟩ => do
      let later ← scan (position.after c) (length - 1) rest
      return ⟨token, position⟩ :: later

def tokenize (text : String) : Except GrammarTextFault (List PlacedToken) :=
  scan .first 0 text.toList

end Token

end SentenceGrammar
