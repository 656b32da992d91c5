import SentenceGrammar.Json.Value

/-! Writing a JSON value over several lines. Every level of nesting is indented by two spaces; empty
arrays and objects stay on one line. -/

namespace SentenceGrammar

namespace Json

def codeEscape (code : Nat) : List Char :=
  ['\\', 'u', Nat.digitChar (code / 4096 % 16), Nat.digitChar (code / 256 % 16),
    Nat.digitChar (code / 16 % 16), Nat.digitChar (code % 16)]

/-- A character inside quotes. Quotes, backslashes and control characters are escaped, the latter by
a letter where there is one. -/
def escapeChar (c : Char) : List Char :=
  if c = '\"' then ['\\', '\"']
  else if c = '\\' then ['\\', '\\']
  else if c = '\x08' then ['\\', 'b']
  else if c = '\x0c' then ['\\', 'f']
  else if c = '\n' then ['\\', 'n']
  else if c = '\r' then ['\\', 'r']
  else if c = '\t' then ['\\', 't']
  else if c.toNat < 0x20 then codeEscape c.toNat
  else [c]

def lineStart (level : Nat) : List Char :=
  '\n' :: List.replicate (2 * level) ' '

end Json

def StringUnit.print : StringUnit → List Char
  | .char c => Json.escapeChar c
  | .surrogate code => Json.codeEscape code

def JsonString.print (units : JsonString) : List Char :=
  '\"' :: units.flatMap StringUnit.print ++ ['\"']

namespace Json

mutual

def print (level : Nat) : Json → List Char
  | .null => ['n', 'u', 'l', 'l']
  | .bool true => ['t', 'r', 'u', 'e']
  | .bool false => ['f', 'a', 'l', 's', 'e']
  | .number literal => literal
  | .string units => units.print
  | .array [] => ['[', ']']
  | .array (first :: rest) =>
    '[' :: lineStart (level + 1) ++ print (level + 1) first ++ printElements (level + 1) rest ++
      lineStart level ++ [']']
  | .object [] => ['\x7b', '\x7d']
  | .object ((key, first) :: rest) =>
    '\x7b' :: lineStart (level + 1) ++ key.print ++ [':', ' '] ++ print (level + 1) first ++
      printMembers (level + 1) rest ++ lineStart level ++ ['\x7d']

def printElements (level : Nat) : List Json → List Char
  | [] => []
  | element :: rest =>
    ',' :: lineStart level ++ print level element ++ printElements level rest

def printMembers (level : Nat) : List (JsonString × Json) → List Char
  | [] => []
  | (key, value) :: rest =>
    ',' :: lineStart level ++ key.print ++ [':', ' '] ++ print level value ++
      printMembers level rest

end

def pretty (value : Json) : String :=
  String.ofList (print 0 value)

end Json

end SentenceGrammar
