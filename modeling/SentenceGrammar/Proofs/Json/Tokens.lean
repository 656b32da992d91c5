import SentenceGrammar.Json.Lexer
import SentenceGrammar.Json.Printer

/-! The tokens of a printed value. A stretch of text that is cut into the same tokens whatever
follows it can be put together with others of its kind; the stretches that a value is printed in are
of that kind, as long as the value has no numbers and all its strings are texts. -/

namespace SentenceGrammar

/-- A text that is cut into the given tokens, whatever follows it. -/
def JsonToken.Spells (text : List Char) (tokens : List JsonToken) : Prop :=
  ∀ rest, JsonToken.scan 0 (text ++ rest) = (JsonToken.scan 0 rest).map (tokens ++ ·)

namespace JsonToken

theorem spells_nil : Spells [] [] := by
  intro rest
  simp

theorem Spells.append {first second : List Char} {earlier later : List JsonToken}
    (before : Spells first earlier) (after : Spells second later) :
    Spells (first ++ second) (earlier ++ later) := by
  intro rest
  rw [List.append_assoc, before, after, Option.map_map]
  congr 1
  funext tokens
  exact (List.append_assoc earlier later tokens).symm

theorem Spells.gap {text blanks : List Char} {tokens : List JsonToken}
    (before : Spells text tokens) (blank : Spells blanks []) : Spells (text ++ blanks) tokens := by
  simpa using before.append blank

theorem scan_length_append (passed rest : List Char) :
    scan passed.length (passed ++ rest) = scan 0 rest := by
  induction passed with
  | nil => rfl
  | cons c passed ih => exact ih

theorem spells_of_front {c : Char} {others : List Char} {token : JsonToken}
    (visible : isSpace c = false)
    (recognised : ∀ rest, front c (others ++ rest) = some (token, others.length + 1)) :
    Spells (c :: others) [token] := by
  intro rest
  simp only [List.cons_append, scan, visible, recognised, Bool.false_eq_true, if_false,
    Option.bind_eq_bind, Option.bind_some, Nat.add_sub_cancel, scan_length_append]
  cases scan 0 rest <;> rfl

theorem spells_space {c : Char} (blank : isSpace c = true) : Spells [c] [] := by
  intro rest
  simp [scan, blank]

theorem spells_lineStart (level : Nat) : Spells (Json.lineStart level) [] := by
  have spaces : ∀ count, Spells (List.replicate count ' ') [] := by
    intro count
    induction count with
    | zero => exact spells_nil
    | succ count ih => exact (spells_space (c := ' ') rfl).append ih
  exact (spells_space (c := '\n') rfl).append (spaces _)

/-- The characters of the control codes are read back from their four digits. -/
theorem hexNumber_digitChar : ∀ code < 0x20,
    hexNumber (Nat.digitChar (code / 4096 % 16)) (Nat.digitChar (code / 256 % 16))
      (Nat.digitChar (code / 16 % 16)) (Nat.digitChar (code % 16)) = some code := by
  decide

theorem stringUnits_quote (rest : List Char) : stringUnits ('\"' :: rest) = some ([], 1) := by
  unfold stringUnits
  exact if_pos rfl

theorem stringUnits_plain {c : Char} (notQuote : c ≠ '\"') (notBackslash : c ≠ '\\')
    (notControl : ¬c.toNat < 0x20) (rest : List Char) :
    stringUnits (c :: rest) =
      (stringUnits rest).map fun (units, length) => (.char c :: units, length + 1) := by
  conv => lhs; unfold stringUnits
  rw [if_neg notQuote, if_neg notBackslash, if_neg notControl]

theorem stringUnits_letter {letter c : Char} (notCode : letter ≠ 'u')
    (escaped : letterEscape letter = some c) (rest : List Char) :
    stringUnits ('\\' :: letter :: rest) =
      (stringUnits rest).map fun (units, length) => (.char c :: units, length + 2) := by
  rw [stringUnits]
  · simp only [escaped]
    cases stringUnits rest <;> rfl
  · intro _ _ _ _ _ same
    exact absurd same notCode

theorem stringUnits_code {first second third fourth : Char} {code : Nat}
    (number : hexNumber first second third fourth = some code) (rest : List Char) :
    stringUnits ('\\' :: 'u' :: first :: second :: third :: fourth :: rest) =
      (stringUnits rest).map fun (units, length) => (unitOfCode code :: units, length + 6) := by
  rw [stringUnits]
  simp only [number]
  cases stringUnits rest <;> rfl

theorem stringUnits_escapeChar (c : Char) (rest : List Char) :
    stringUnits (Json.escapeChar c ++ rest) =
      (stringUnits rest).map fun (units, length) =>
        (.char c :: units, length + (Json.escapeChar c).length) := by
  by_cases quote : c = '\"'
  · subst quote
    exact stringUnits_letter (by decide) rfl rest
  by_cases backslash : c = '\\'
  · subst backslash
    exact stringUnits_letter (by decide) rfl rest
  by_cases backspace : c = '\x08'
  · subst backspace
    exact stringUnits_letter (by decide) rfl rest
  by_cases formFeed : c = '\x0c'
  · subst formFeed
    exact stringUnits_letter (by decide) rfl rest
  by_cases lineFeed : c = '\n'
  · subst lineFeed
    exact stringUnits_letter (by decide) rfl rest
  by_cases carriageReturn : c = '\r'
  · subst carriageReturn
    exact stringUnits_letter (by decide) rfl rest
  by_cases tab : c = '\t'
  · subst tab
    exact stringUnits_letter (by decide) rfl rest
  by_cases control : c.toNat < 0x20
  · have code : unitOfCode c.toNat = .char c := by
      simp only [unitOfCode, Char.ofNat_toNat]
      rw [if_neg (by omega)]
    simp only [Json.escapeChar, if_neg quote, if_neg backslash, if_neg backspace, if_neg formFeed,
      if_neg lineFeed, if_neg carriageReturn, if_neg tab, if_pos control, Json.codeEscape]
    rw [← code]
    exact stringUnits_code (hexNumber_digitChar _ control) rest
  · simp only [Json.escapeChar, if_neg quote, if_neg backslash, if_neg backspace, if_neg formFeed,
      if_neg lineFeed, if_neg carriageReturn, if_neg tab, if_neg control]
    exact stringUnits_plain quote backslash control rest

theorem stringUnits_print (text rest : List Char) :
    stringUnits ((text.map StringUnit.char).flatMap StringUnit.print ++ '\"' :: rest) =
      some (text.map .char, ((text.map StringUnit.char).flatMap StringUnit.print).length + 1) := by
  induction text with
  | nil => exact stringUnits_quote rest
  | cons c text ih =>
    simp only [List.map_cons, List.flatMap_cons, StringUnit.print, List.append_assoc,
      stringUnits_escapeChar, ih, Option.map_some, List.length_append]
    congr 2
    omega

theorem joinSurrogates_map_char (text : List Char) :
    joinSurrogates (text.map .char) = text.map .char := by
  induction text with
  | nil => rfl
  | cons c text ih => simp [joinSurrogates, ih]

theorem spells_string (text : String) :
    Spells (JsonString.ofText text).print [.string (.ofText text)] := by
  have body : ∀ rest, front '\"'
      ((text.toList.map StringUnit.char).flatMap StringUnit.print ++ ['\"'] ++ rest) =
        some (.string (.ofText text),
          ((text.toList.map StringUnit.char).flatMap StringUnit.print ++ ['\"']).length + 1) := by
    intro rest
    simp only [front, if_true, List.append_assoc, List.singleton_append, stringUnits_print,
      joinSurrogates_map_char, Option.map_some, List.length_append, List.length_singleton,
      JsonString.ofText]
  exact spells_of_front rfl body

theorem spells_punctuation {c : Char} {token : JsonToken} (visible : isSpace c = false)
    (notQuote : c ≠ '\"') (notNumber : ¬(c = '-' ∨ c.isDigit))
    (mark : punctuation c = some token) : Spells [c] [token] := by
  refine spells_of_front visible fun rest => ?_
  simp only [front, if_neg notQuote, if_neg notNumber, mark, List.length_nil]

end JsonToken

end SentenceGrammar
