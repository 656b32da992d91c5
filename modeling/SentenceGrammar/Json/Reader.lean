import SentenceGrammar.Json.Lexer

/-! Reading a JSON text. The tokens are taken one after the other, with a stack of the arrays and
objects that are still open; a text is a value if the value after the last token is complete and
nothing is open. -/

namespace SentenceGrammar

namespace Json

/-- An array or object that is waiting for a value, with what it holds so far, newest first. -/
inductive Frame where
  | inArray (earlier : List Json)
  | inObject (earlier : List (JsonString × Json)) (key : JsonString)

/-- What may come next, and the open frames, innermost first. -/
inductive Stage where
  | awaitValue (frames : List Frame)
  | awaitFirstElement (frames : List Frame)
  | awaitFirstKey (frames : List Frame)
  | awaitKey (earlier : List (JsonString × Json)) (frames : List Frame)
  | awaitColon (earlier : List (JsonString × Json)) (key : JsonString) (frames : List Frame)
  | complete (value : Json) (frames : List Frame)

def Stage.startValue (frames : List Frame) : JsonToken → Option Stage
  | .null => some (.complete .null frames)
  | .bool value => some (.complete (.bool value) frames)
  | .number literal => some (.complete (.number literal) frames)
  | .string units => some (.complete (.string units) frames)
  | .openBracket => some (.awaitFirstElement frames)
  | .openBrace => some (.awaitFirstKey frames)
  | .closeBrace | .closeBracket | .colon | .comma => none

def Stage.afterValue (value : Json) : List Frame → JsonToken → Option Stage
  | .inArray earlier :: frames, .comma => some (.awaitValue (.inArray (value :: earlier) :: frames))
  | .inArray earlier :: frames, .closeBracket =>
    some (.complete (.array (value :: earlier).reverse) frames)
  | .inObject earlier key :: frames, .comma => some (.awaitKey ((key, value) :: earlier) frames)
  | .inObject earlier key :: frames, .closeBrace =>
    some (.complete (.object ((key, value) :: earlier).reverse) frames)
  | _, _ => none

def Stage.step : Stage → JsonToken → Option Stage
  | .awaitValue frames, token => Stage.startValue frames token
  | .awaitFirstElement frames, .closeBracket => some (.complete (.array []) frames)
  | .awaitFirstElement frames, token => Stage.startValue (.inArray [] :: frames) token
  | .awaitFirstKey frames, .closeBrace => some (.complete (.object []) frames)
  | .awaitFirstKey frames, .string key => some (.awaitColon [] key frames)
  | .awaitKey earlier frames, .string key => some (.awaitColon earlier key frames)
  | .awaitColon earlier key frames, .colon => some (.awaitValue (.inObject earlier key :: frames))
  | .complete value frames, token => Stage.afterValue value frames token
  | _, _ => none

def ofTokens (tokens : List JsonToken) : Option Json :=
  match tokens.foldlM Stage.step (.awaitValue []) with
  | some (.complete value []) => some value
  | _ => none

/-- The value that a text spells. Spaces may surround it, and nothing else may. -/
def read (text : String) : Option Json := do
  ofTokens (← JsonToken.scan 0 text.toList)

end Json

end SentenceGrammar
