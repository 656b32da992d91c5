/-! How emitted words become one text. Words are set apart by a single space; a glue between two
words sets them together. An empty word leaves no trace: it adds no space and keeps a pending glue.
-/

namespace SentenceGrammar

/-- What an expansion emits: a word, or the wish that the next word touch the one before it. -/
inductive Signal where
  | word (text : String)
  | glue
deriving DecidableEq, Repr

/-- A text under construction, and whether its next word will be glued on. -/
structure Line where
  text : String
  glued : Bool
deriving DecidableEq, Repr

namespace Line

def blank : Line :=
  ⟨"", false⟩

/-- Appends a word after a space, or without one when it is the first or a glue is pending. -/
def push (line : Line) (word : String) : Line :=
  if word.isEmpty then line
  else if line.text.isEmpty || line.glued then ⟨line.text ++ word, false⟩
  else ⟨line.text ++ " " ++ word, false⟩

def glue (line : Line) : Line :=
  ⟨line.text, true⟩

def receive (line : Line) : Signal → Line
  | .word text => line.push text
  | .glue => line.glue

end Line

def Signal.join (signals : List Signal) : String :=
  (signals.foldl Line.receive .blank).text

@[simp] theorem Line.push_empty (line : Line) : line.push "" = line := rfl

@[simp] theorem Line.glued_glue (line : Line) : line.glue.glued = true := rfl

@[simp] theorem Line.text_glue (line : Line) : line.glue.text = line.text := rfl

end SentenceGrammar
