import SentenceGrammar.Json.Reader
import SentenceGrammar.Proofs.Json.RoundTrip

/-! All texts of a JSON value. Blanks may stand between its tokens, and a character of a string may
stand for itself or be escaped in any of the ways there are. What is written so is read as the
value, however it is written. -/

namespace SentenceGrammar

def JsonToken.Blank (gap : List Char) : Prop :=
  ∀ c ∈ gap, c = ' ' ∨ c = '\n' ∨ c = '\r' ∨ c = '\t'

inductive JsonToken.HexDigit : Nat → Char → Prop where
  | lower {value : Nat} (small : value < 16) : HexDigit value (Nat.digitChar value)
  | upper {value : Nat} (small : value < 16) : HexDigit value (Nat.digitChar value).toUpper

inductive JsonToken.CodeEscape : Nat → List Char → Prop where
  | mk {first second third fourth : Nat} {a b c d : Char} (highest : HexDigit first a)
    (high : HexDigit second b) (low : HexDigit third c) (lowest : HexDigit fourth d) :
    CodeEscape (((first * 16 + second) * 16 + third) * 16 + fourth) ['\\', 'u', a, b, c, d]

namespace JsonToken

/-- The characters that are escaped by a letter or a mark, with what stands after the backslash. -/
def shortEscapes : List (Char × Char) :=
  [('\"', '\"'), ('\\', '\\'), ('/', '/'), ('\x08', 'b'), ('\x0c', 'f'), ('\n', 'n'), ('\r', 'r'),
    ('\t', 't')]

/-- The ways to write a character between quotes. A character above the first 65536 is escaped as
two surrogates. -/
inductive CharSpelling (c : Char) : List Char → Prop where
  | plain (notQuote : c ≠ '\"') (notBackslash : c ≠ '\\') (notControl : 0x20 ≤ c.toNat) :
    CharSpelling c [c]
  | short {mark : Char} (listed : (c, mark) ∈ shortEscapes) : CharSpelling c ['\\', mark]
  | code {text : List Char} (escape : CodeEscape c.toNat text) : CharSpelling c text
  | pair {leading trailing : Nat} {first second : List Char} (leadingSmall : leading < 0x400)
    (trailingSmall : trailing < 0x400)
    (stands : c.toNat = 0x10000 + leading * 0x400 + trailing)
    (before : CodeEscape (0xD800 + leading) first) (after : CodeEscape (0xDC00 + trailing) second) :
    CharSpelling c (first ++ second)

/-- The ways to write a string between quotes. A surrogate that is no part of a pair is escaped. -/
inductive StringSpelling : JsonString → List Char → Prop where
  | nil : StringSpelling [] []
  | char {c : Char} {units : JsonString} {text later : List Char} (here : CharSpelling c text)
    (rest : StringSpelling units later) : StringSpelling (.char c :: units) (text ++ later)
  | surrogate {code : Nat} {units : JsonString} {text later : List Char} (low : 0xD800 ≤ code)
    (high : code ≤ 0xDFFF) (here : CodeEscape code text) (rest : StringSpelling units later)
    (alone : code < 0xDC00 → ∀ next, units.head? = some (.surrogate next) → next < 0xDC00) :
    StringSpelling (.surrogate code :: units) (text ++ later)

def Digits (text : List Char) : Prop :=
  ∀ c ∈ text, c.isDigit = true

inductive IntegerSpelling : List Char → Prop where
  | zero : IntegerSpelling ['0']
  | digits {first : Char} {others : List Char} (digit : first.isDigit = true)
    (positive : first ≠ '0') (rest : Digits others) : IntegerSpelling (first :: others)

inductive FractionSpelling : List Char → Prop where
  | missing : FractionSpelling []
  | digits {others : List Char} (nonempty : others ≠ []) (rest : Digits others) :
    FractionSpelling ('.' :: others)

inductive ExponentSpelling : List Char → Prop where
  | missing : ExponentSpelling []
  | digits {letter : Char} {sign others : List Char} (exponent : letter = 'e' ∨ letter = 'E')
    (signed : sign ∈ [[], ['+'], ['-']]) (nonempty : others ≠ []) (rest : Digits others) :
    ExponentSpelling (letter :: (sign ++ others))

inductive NumberSpelling : List Char → Prop where
  | mk {sign integer fraction exponent : List Char} (signed : sign ∈ [[], ['-']])
    (whole : IntegerSpelling integer) (broken : FractionSpelling fraction)
    (scaled : ExponentSpelling exponent) :
    NumberSpelling (sign ++ (integer ++ (fraction ++ exponent)))

inductive Spelling : JsonToken → List Char → Prop where
  | openBrace : Spelling .openBrace ['\x7b']
  | closeBrace : Spelling .closeBrace ['\x7d']
  | openBracket : Spelling .openBracket ['[']
  | closeBracket : Spelling .closeBracket [']']
  | colon : Spelling .colon [':']
  | comma : Spelling .comma [',']
  | nullWord : Spelling .null ['n', 'u', 'l', 'l']
  | trueWord : Spelling (.bool true) ['t', 'r', 'u', 'e']
  | falseWord : Spelling (.bool false) ['f', 'a', 'l', 's', 'e']
  | number {literal : List Char} (number : NumberSpelling literal) :
    Spelling (.number literal) literal
  | string {units : JsonString} {body : List Char} (spelled : StringSpelling units body) :
    Spelling (.string units) ('\"' :: (body ++ ['\"']))

inductive Written : List JsonToken → List Char → Prop where
  | nil {gap : List Char} (blank : Blank gap) : Written [] gap
  | cons {token : JsonToken} {tokens : List JsonToken} {gap text later : List Char}
    (blank : Blank gap) (here : Spelling token text) (rest : Written tokens later) :
    Written (token :: tokens) (gap ++ (text ++ later))

end JsonToken

/-- A text of a value: its tokens, with blanks between them and any spelling of each. -/
def Json.Written (value : Json) (text : String) : Prop :=
  JsonToken.Written value.tokens text.toList

namespace JsonToken

theorem isSpace_of_blank {gap : List Char} (blank : Blank gap) {c : Char} (member : c ∈ gap) :
    isSpace c = true := by
  rcases blank c member with rfl | rfl | rfl | rfl <;> rfl

theorem scan_blank {gap : List Char} (blank : Blank gap) (rest : List Char) :
    scan 0 (gap ++ rest) = scan 0 rest := by
  induction gap with
  | nil => rfl
  | cons c gap ih =>
    obtain ⟨first, others⟩ := List.forall_mem_cons.mp blank
    rw [List.cons_append, scan, if_pos (isSpace_of_blank blank List.mem_cons_self), ih others]

section Strings

theorem hexDigit_of_digit {value : Nat} {c : Char} (digit : HexDigit value c) :
    hexDigit c = some value := by
  have lower : ∀ value < 16, hexDigit (Nat.digitChar value) = some value := by decide
  have upper : ∀ value < 16, hexDigit (Nat.digitChar value).toUpper = some value := by decide
  cases digit with
  | lower small => exact lower value small
  | upper small => exact upper value small

theorem stringUnits_escape {code : Nat} {text : List Char} (escape : CodeEscape code text)
    (rest : List Char) :
    stringUnits (text ++ rest) = (stringUnits rest).map fun (units, length) =>
      (unitOfCode code :: units, length + text.length) := by
  cases escape with
  | mk highest high low lowest =>
    refine stringUnits_code ?_ rest
    simp only [hexNumber, hexDigit_of_digit highest, hexDigit_of_digit high, hexDigit_of_digit low,
      hexDigit_of_digit lowest, Option.bind_eq_bind, Option.bind_some]
    rfl

theorem unitOfCode_toNat (c : Char) : unitOfCode c.toNat = .char c := by
  have valid : c.toNat < 0xD800 ∨ 0xDFFF < c.toNat ∧ c.toNat < 0x110000 := c.valid
  rw [unitOfCode, if_neg (by omega), Char.ofNat_toNat]

theorem unitOfCode_surrogate {code : Nat} (low : 0xD800 ≤ code) (high : code ≤ 0xDFFF) :
    unitOfCode code = .surrogate code :=
  if_pos ⟨low, high⟩

theorem letterEscape_of_listed {c mark : Char} (listed : (c, mark) ∈ shortEscapes) :
    mark ≠ 'u' ∧ letterEscape mark = some c := by
  have each : ∀ pair ∈ shortEscapes, pair.2 ≠ 'u' ∧ letterEscape pair.2 = some pair.1 := by decide
  exact each _ listed

theorem pairedCharacter_eq {c : Char} {leading trailing : Nat} (leadingSmall : leading < 0x400)
    (trailingSmall : trailing < 0x400)
    (stands : c.toNat = 0x10000 + leading * 0x400 + trailing) :
    pairedCharacter (0xD800 + leading) (0xDC00 + trailing) = some c := by
  rw [pairedCharacter, if_pos (by omega), Nat.add_sub_cancel_left, Nat.add_sub_cancel_left,
    ← stands, Char.ofNat_toNat]

/-- What a spelling of a character is read as before pairs of surrogates are joined, and that they
are then joined to the character. Nothing before it can form a pair with it. -/
theorem CharSpelling.exists_units {c : Char} {text : List Char} (spelling : CharSpelling c text) :
    ∃ pieces : JsonString, (∀ rest, stringUnits (text ++ rest) =
        (stringUnits rest).map fun (units, length) => (pieces ++ units, length + text.length)) ∧
      (∀ later, joinSurrogates (pieces ++ later) = .char c :: joinSurrogates later) ∧
      ∀ later second, (pieces ++ later).head? = some (.surrogate second) → second < 0xDC00 := by
  cases spelling with
  | plain notQuote notBackslash notControl =>
    refine ⟨[.char c], fun rest => ?_, fun later => rfl, fun later second first => ?_⟩
    · exact stringUnits_plain notQuote notBackslash (Nat.not_lt.mpr notControl) rest
    · cases first
  | short listed =>
    obtain ⟨notCode, escaped⟩ := letterEscape_of_listed listed
    refine ⟨[.char c], fun rest => ?_, fun later => rfl, fun later second first => ?_⟩
    · exact stringUnits_letter notCode escaped rest
    · cases first
  | code escape =>
    refine ⟨[.char c], fun rest => ?_, fun later => rfl, fun later second first => ?_⟩
    · rw [stringUnits_escape escape, unitOfCode_toNat]
      rfl
    · cases first
  | @pair leading trailing first second leadingSmall trailingSmall stands before after =>
    have joined := pairedCharacter_eq leadingSmall trailingSmall stands
    refine ⟨[.surrogate (0xD800 + leading), .surrogate (0xDC00 + trailing)], fun rest => ?_,
      fun later => ?_, fun later other same => ?_⟩
    · rw [List.append_assoc, stringUnits_escape before, stringUnits_escape after, Option.map_map,
        unitOfCode_surrogate (by omega) (by omega), unitOfCode_surrogate (by omega) (by omega),
        List.length_append]
      congr 1
      funext ⟨units, length⟩
      simp only [Function.comp_apply, List.cons_append, List.nil_append, Prod.mk.injEq, true_and]
      omega
    · simp only [List.cons_append, List.nil_append, joinSurrogates, joined]
    · cases same
      omega

theorem joinSurrogates_alone {code : Nat} {later : JsonString}
    (alone : ∀ next, later.head? = some (.surrogate next) → code < 0xDC00 → next < 0xDC00) :
    joinSurrogates (.surrogate code :: later) = .surrogate code :: joinSurrogates later := by
  rcases later with _ | ⟨c | next, rest⟩
  · rfl
  · rfl
  · have apart : pairedCharacter code next = none := by
      have lower := alone next rfl
      exact if_neg (by omega)
    simp only [joinSurrogates, apart]

/-- What a spelling of a string is read as before pairs of surrogates are joined, and that they are
then joined to the string. A trailing surrogate at its front stands alone. -/
theorem StringSpelling.exists_units {units : JsonString} {body : List Char}
    (spelling : StringSpelling units body) :
    ∃ raw : JsonString, (∀ rest, stringUnits (body ++ '\"' :: rest) =
        some (raw, body.length + 1)) ∧ joinSurrogates raw = units ∧
      ∀ second, raw.head? = some (.surrogate second) →
        second < 0xDC00 ∨ units.head? = some (.surrogate second) := by
  induction spelling with
  | nil => exact ⟨[], stringUnits_quote, rfl, nofun⟩
  | @char c units text later here rest ih =>
    obtain ⟨raw, read, joined, _⟩ := ih
    obtain ⟨pieces, taken, made, leads⟩ := here.exists_units
    refine ⟨pieces ++ raw, fun rest => ?_, ?_, fun second first => .inl (leads raw second first)⟩
    · rw [List.append_assoc, taken, read, List.length_append]
      simp only [Option.map_some, Option.some.injEq, Prod.mk.injEq, true_and]
      omega
    · rw [made, joined]
  | @surrogate code units text later low high here rest alone ih =>
    obtain ⟨raw, read, joined, front⟩ := ih
    refine ⟨.surrogate code :: raw, fun rest => ?_, ?_, fun second first => .inr first⟩
    · rw [List.append_assoc, stringUnits_escape here, read, List.length_append,
        unitOfCode_surrogate low high]
      simp only [Option.map_some, Option.some.injEq, Prod.mk.injEq, true_and]
      omega
    · rw [joinSurrogates_alone, joined]
      intro next first leading
      rcases front next first with lower | same
      · exact lower
      · exact alone leading next same

theorem spells_of_stringSpelling {units : JsonString} {body : List Char}
    (spelling : StringSpelling units body) : Spells ('\"' :: (body ++ ['\"'])) [.string units] := by
  obtain ⟨raw, read, joined, _⟩ := spelling.exists_units
  refine spells_of_front rfl fun rest => ?_
  rw [front, if_pos rfl, List.append_assoc, List.singleton_append, read, List.length_append]
  simp only [Option.map_some, joined, List.length_singleton]

end Strings

section Numbers

structure EndsNumber (rest : List Char) : Prop where
  digit : ∀ c ∈ rest.head?, c.isDigit = false
  point : rest.head? ≠ some '.'
  exponent : ∀ c ∈ rest.head?, c ≠ 'e' ∧ c ≠ 'E'

variable {rest : List Char}

theorem digitsLength_append {digits : List Char} (each : Digits digits)
    (ends : ∀ c ∈ rest.head?, c.isDigit = false) :
    digitsLength (digits ++ rest) = digits.length := by
  have stops : rest.takeWhile Char.isDigit = [] := by
    cases rest with
    | nil => rfl
    | cons c later => simp [ends c rfl]
  rw [digitsLength, List.takeWhile_append_of_pos each, stops, List.append_nil]

theorem IntegerSpelling.length_eq {integer : List Char} (spelling : IntegerSpelling integer)
    (ends : ∀ c ∈ rest.head?, c.isDigit = false) :
    integerLength (integer ++ rest) = some integer.length := by
  cases spelling with
  | zero => rfl
  | digits digit positive others =>
    rw [List.cons_append, integerLength, if_neg positive, if_pos digit,
      digitsLength_append others ends, List.length_cons]

theorem FractionSpelling.length_eq {fraction : List Char} (spelling : FractionSpelling fraction)
    (ends : ∀ c ∈ rest.head?, c.isDigit = false) (point : rest.head? ≠ some '.') :
    fractionLength (fraction ++ rest) = some fraction.length := by
  cases spelling with
  | missing =>
    cases rest with
    | nil => rfl
    | cons c later => exact if_neg fun same => point (congrArg some same)
  | @digits others nonempty each =>
    have some : others.length ≠ 0 := by simpa using nonempty
    rw [List.cons_append, fractionLength, if_pos rfl, digitsLength_append each ends, if_neg some,
      List.length_cons]

theorem ne_of_digit {c other : Char} (digit : c.isDigit = true) (mark : other.isDigit = false) :
    c ≠ other := by
  rintro rfl
  rw [digit] at mark
  cases mark

theorem signLength_append {sign digits : List Char} (signed : sign ∈ [[], ['+'], ['-']])
    (nonempty : digits ≠ []) (each : Digits digits) :
    signLength (sign ++ (digits ++ rest)) = sign.length := by
  simp only [List.mem_cons, List.not_mem_nil, or_false] at signed
  rcases signed with rfl | rfl | rfl
  · obtain ⟨first, others, rfl⟩ := List.exists_cons_of_ne_nil nonempty
    have digit := each first List.mem_cons_self
    exact if_neg (not_or.mpr ⟨ne_of_digit digit rfl, ne_of_digit digit rfl⟩)
  · rfl
  · rfl

theorem ExponentSpelling.length_eq {exponent : List Char} (spelling : ExponentSpelling exponent)
    (ends : EndsNumber rest) : exponentLength (exponent ++ rest) = some exponent.length := by
  cases spelling with
  | missing =>
    cases rest with
    | nil => rfl
    | cons c later =>
      obtain ⟨lower, upper⟩ := ends.exponent c rfl
      exact if_neg (not_or.mpr ⟨lower, upper⟩)
  | @digits letter sign others letters signed nonempty each =>
    have some : others.length ≠ 0 := by simpa using nonempty
    rw [List.cons_append, exponentLength, if_pos letters, List.append_assoc,
      signLength_append signed nonempty each, List.drop_left, digitsLength_append each ends.digit]
    simp only [if_neg some, List.length_cons, List.length_append]

theorem ExponentSpelling.head_apart {exponent : List Char} (spelling : ExponentSpelling exponent)
    (ends : EndsNumber rest) :
    (∀ c ∈ (exponent ++ rest).head?, c.isDigit = false) ∧ (exponent ++ rest).head? ≠ some '.' := by
  cases spelling with
  | missing => exact ⟨ends.digit, ends.point⟩
  | digits letters signed nonempty each =>
    rcases letters with rfl | rfl
    · exact ⟨fun c first => by cases first; rfl, by simp⟩
    · exact ⟨fun c first => by cases first; rfl, by simp⟩

theorem FractionSpelling.head_apart {fraction : List Char} (spelling : FractionSpelling fraction)
    (ends : ∀ c ∈ rest.head?, c.isDigit = false) :
    ∀ c ∈ (fraction ++ rest).head?, c.isDigit = false := by
  cases spelling with
  | missing => exact ends
  | digits nonempty each =>
    intro c first
    cases first
    rfl

theorem IntegerSpelling.exists_digit {integer : List Char} (spelling : IntegerSpelling integer) :
    ∃ first others, integer = first :: others ∧ first.isDigit = true := by
  cases spelling with
  | zero => exact ⟨_, _, rfl, rfl⟩
  | digits digit positive others => exact ⟨_, _, rfl, digit⟩

theorem NumberSpelling.length_eq {literal : List Char} (spelling : NumberSpelling literal)
    (ends : EndsNumber rest) : numberLength (literal ++ rest) = some literal.length := by
  cases spelling with
  | @mk sign integer fraction exponent signed whole broken scaled =>
    -- Each piece keeps away from the one before it, so the last one comes first.
    obtain ⟨digitless, pointless⟩ := scaled.head_apart ends
    have integers := whole.length_eq (broken.head_apart digitless)
    have fractions := broken.length_eq digitless pointless
    have exponents := scaled.length_eq ends
    obtain ⟨first, others, begins, digit⟩ := whole.exists_digit
    have signs : (if (sign ++ (integer ++ (fraction ++ (exponent ++ rest)))).head? = some '-' then 1
        else 0) = sign.length := by
      simp only [List.mem_cons, List.not_mem_nil, or_false] at signed
      rcases signed with rfl | rfl
      · rw [begins]
        exact if_neg fun same => ne_of_digit digit rfl (Option.some.inj same)
      · rfl
    simp only [List.append_assoc]
    rw [numberLength, signs]
    simp only [← List.drop_drop, List.drop_left, integers, fractions, exponents,
      Option.bind_eq_bind, Option.bind_some, Option.pure_def, List.length_append, Nat.add_assoc]

theorem NumberSpelling.exists_first {literal : List Char} (spelling : NumberSpelling literal) :
    ∃ c others, literal = c :: others ∧ (c = '-' ∨ c.isDigit = true) := by
  cases spelling with
  | mk signed whole broken scaled =>
    simp only [List.mem_cons, List.not_mem_nil, or_false] at signed
    rcases signed with rfl | rfl
    · obtain ⟨first, others, rfl, digit⟩ := whole.exists_digit
      exact ⟨_, _, rfl, .inr digit⟩
    · exact ⟨_, _, rfl, .inl rfl⟩

theorem ne_of_begins {c other : Char} (begins : c = '-' ∨ c.isDigit = true) (unlike : other ≠ '-')
    (mark : other.isDigit = false) : c ≠ other := by
  rcases begins with rfl | digit
  · exact unlike.symm
  · exact ne_of_digit digit mark

theorem NumberSpelling.scan_append {literal : List Char} (spelling : NumberSpelling literal)
    (ends : EndsNumber rest) :
    scan 0 (literal ++ rest) = (scan 0 rest).map (.number literal :: ·) := by
  have length := spelling.length_eq ends
  obtain ⟨c, others, rfl, begins⟩ := spelling.exists_first
  have visible : isSpace c = false := by
    simp only [isSpace, Bool.or_eq_false_iff, decide_eq_false_iff_not]
    exact ⟨⟨⟨ne_of_begins begins (by decide) rfl, ne_of_begins begins (by decide) rfl⟩,
      ne_of_begins begins (by decide) rfl⟩, ne_of_begins begins (by decide) rfl⟩
  have recognised : front c (others ++ rest) =
      some (.number (c :: others), others.length + 1) := by
    rw [front, if_neg (ne_of_begins begins (by decide) rfl), if_pos begins]
    rw [List.cons_append] at length
    rw [length, Option.map_some, ← List.cons_append, List.take_left, List.length_cons]
  rw [List.cons_append, scan, visible, recognised]
  simp only [Bool.false_eq_true, if_false, Option.bind_eq_bind, Option.bind_some,
    Nat.add_sub_cancel, scan_length_append]
  cases scan 0 rest <;> rfl

end Numbers

def isNumber : JsonToken → Bool
  | .number _ => true
  | _ => false

def isMark : JsonToken → Bool
  | .openBrace | .closeBrace | .openBracket | .closeBracket | .colon | .comma => true
  | _ => false

/-- Behind every number there is a mark or nothing. -/
def NumbersApart : List JsonToken → Prop
  | [] => True
  | token :: rest =>
    (token.isNumber = true → ∀ next ∈ rest.head?, next.isMark = true) ∧ NumbersApart rest

/-- Every token but a number is scanned whatever stands behind it. -/
theorem Spelling.spells {token : JsonToken} {text : List Char} (spelling : Spelling token text)
    (other : token.isNumber = false) : Spells text [token] := by
  cases spelling with
  | openBrace | closeBrace | openBracket | closeBracket | colon | comma =>
    exact spells_punctuation rfl (by decide) (by decide) rfl
  | nullWord | trueWord | falseWord =>
    exact Json.spells_keyword rfl (by decide) (by decide) rfl fun _ => rfl
  | number => cases other
  | string spelled => exact spells_of_stringSpelling spelled

theorem Spelling.scan_append {token : JsonToken} {text : List Char} (spelling : Spelling token text)
    {rest : List Char} (ends : token.isNumber = true → EndsNumber rest) :
    scan 0 (text ++ rest) = (scan 0 rest).map (token :: ·) := by
  cases kind : token.isNumber with
  | false => exact spelling.spells kind rest
  | true =>
    cases spelling with
    | number number => exact number.scan_append (ends kind)
    | openBrace | closeBrace | openBracket | closeBracket | colon | comma | nullWord | trueWord
    | falseWord | string => cases kind

theorem endsNumber_nil : EndsNumber [] :=
  ⟨nofun, nofun, nofun⟩

theorem endsNumber_cons {c : Char} {rest : List Char} (digit : c.isDigit = false) (point : c ≠ '.')
    (lower : c ≠ 'e') (upper : c ≠ 'E') : EndsNumber (c :: rest) :=
  ⟨fun _ first => by cases first; exact digit, fun first => point (Option.some.inj first),
    fun _ first => by cases first; exact ⟨lower, upper⟩⟩

theorem Spelling.endsNumber {token : JsonToken} {text : List Char} (spelling : Spelling token text)
    (mark : token.isMark = true) (rest : List Char) : EndsNumber (text ++ rest) := by
  cases spelling with
  | openBrace | closeBrace | openBracket | closeBracket | colon | comma =>
    exact endsNumber_cons rfl (by decide) (by decide) (by decide)
  | nullWord | trueWord | falseWord | number | string => cases mark

theorem endsNumber_blank {gap rest : List Char} (blank : Blank gap) (ends : EndsNumber rest) :
    EndsNumber (gap ++ rest) := by
  cases gap with
  | nil => exact ends
  | cons c gap =>
    rcases blank c List.mem_cons_self with rfl | rfl | rfl | rfl
    all_goals exact endsNumber_cons rfl (by decide) (by decide) (by decide)

theorem Written.scan_eq {tokens : List JsonToken} {text : List Char} (written : Written tokens text)
    (apart : NumbersApart tokens) : scan 0 text = some tokens := by
  induction written with
  | @nil gap blank =>
    have scanned := scan_blank blank []
    rwa [List.append_nil] at scanned
  | @cons token tokens gap text later blank here rest ih =>
    obtain ⟨next, others⟩ := apart
    rw [scan_blank blank, here.scan_append, ih others, Option.map_some]
    intro number
    cases rest with
    | nil behind =>
      rw [← List.append_nil later]
      exact endsNumber_blank behind endsNumber_nil
    | cons behind after following =>
      exact endsNumber_blank behind (after.endsNumber (next number _ rfl) _)

end JsonToken

namespace Json

open JsonToken

theorem isMark_head_elements (elements : List Json) (later : List JsonToken) :
    ∀ next ∈ (elementTokens elements ++ .closeBracket :: later).head?, next.isMark = true := by
  cases elements <;> exact fun _ first => by cases first; rfl

theorem isMark_head_members (members : List (JsonString × Json)) (later : List JsonToken) :
    ∀ next ∈ (memberTokens members ++ .closeBrace :: later).head?, next.isMark = true := by
  rcases members with _ | ⟨⟨key, value⟩, rest⟩ <;> exact fun _ first => by cases first; rfl

mutual

theorem numbersApart_tokens (later : List JsonToken)
    (marked : ∀ next ∈ later.head?, next.isMark = true) (apart : NumbersApart later) :
    (value : Json) → NumbersApart (value.tokens ++ later)
  | .null | .bool _ | .string _ => ⟨nofun, apart⟩
  | .number _ => ⟨fun _ => marked, apart⟩
  | .array [] | .object [] => ⟨nofun, nofun, apart⟩
  | .array (first :: rest) => by
    have others := numbersApart_elementTokens later apart rest
    have inside := numbersApart_tokens _ (isMark_head_elements rest later) others first
    simp only [tokens, List.cons_append, List.append_assoc, List.nil_append]
    exact ⟨nofun, inside⟩
  | .object ((key, first) :: rest) => by
    have others := numbersApart_memberTokens later apart rest
    have inside := numbersApart_tokens _ (isMark_head_members rest later) others first
    simp only [tokens, List.cons_append, List.append_assoc, List.nil_append]
    exact ⟨nofun, nofun, nofun, inside⟩

theorem numbersApart_elementTokens (later : List JsonToken) (apart : NumbersApart later) :
    (elements : List Json) → NumbersApart (elementTokens elements ++ .closeBracket :: later)
  | [] => ⟨nofun, apart⟩
  | element :: rest => by
    have others := numbersApart_elementTokens later apart rest
    have inside := numbersApart_tokens _ (isMark_head_elements rest later) others element
    simp only [elementTokens, List.cons_append, List.append_assoc]
    exact ⟨nofun, inside⟩

theorem numbersApart_memberTokens (later : List JsonToken) (apart : NumbersApart later) :
    (members : List (JsonString × Json)) →
      NumbersApart (memberTokens members ++ .closeBrace :: later)
  | [] => ⟨nofun, apart⟩
  | (key, value) :: rest => by
    have others := numbersApart_memberTokens later apart rest
    have inside := numbersApart_tokens _ (isMark_head_members rest later) others value
    simp only [memberTokens, List.cons_append, List.append_assoc]
    exact ⟨nofun, nofun, nofun, inside⟩

end

theorem Written.read_eq {value : Json} {text : String} (written : value.Written text) :
    read text = some value := by
  have apart := numbersApart_tokens [] nofun trivial value
  rw [List.append_nil] at apart
  have scanned := JsonToken.Written.scan_eq written apart
  rw [read, scanned, Option.bind_eq_bind, Option.bind_some, ofTokens_tokens]

end Json

namespace JsonToken

theorem blank_nil : Blank [] :=
  nofun

theorem blank_lineStart (level : Nat) : Blank (Json.lineStart level) := by
  refine List.forall_mem_cons.mpr ⟨.inr (.inl rfl), fun c member => .inl ?_⟩
  exact List.eq_of_mem_replicate member

theorem Written.append {first later : List JsonToken} {text rest : List Char}
    (before : Written first text) (after : Written later rest) :
    Written (first ++ later) (text ++ rest) := by
  induction before with
  | nil blank =>
    cases after with
    | nil behind => exact .nil (List.forall_mem_append.mpr ⟨blank, behind⟩)
    | cons behind here following =>
      rw [← List.append_assoc]
      exact .cons (List.forall_mem_append.mpr ⟨blank, behind⟩) here following
  | cons blank here _ ih =>
    rw [List.append_assoc, List.append_assoc]
    exact .cons blank here ih

theorem Spelling.written {token : JsonToken} {text : List Char} (spelling : Spelling token text) :
    Written [token] text := by
  have alone : Written [token] ([] ++ (text ++ [])) := .cons blank_nil spelling (.nil blank_nil)
  rwa [List.append_nil, List.nil_append] at alone

theorem codeEscape_codeEscape {code : Nat} (small : code < 0x10000) :
    CodeEscape code (Json.codeEscape code) := by
  have digit : ∀ value, HexDigit (value % 16) (Nat.digitChar (value % 16)) :=
    fun value => .lower (Nat.mod_lt _ (by decide))
  have escape := CodeEscape.mk (digit (code / 4096)) (digit (code / 256)) (digit (code / 16))
    (digit code)
  have same : ((code / 4096 % 16 * 16 + code / 256 % 16) * 16 + code / 16 % 16) * 16 + code % 16 =
      code := by omega
  rwa [same] at escape

theorem charSpelling_escapeChar (c : Char) : CharSpelling c (Json.escapeChar c) := by
  unfold Json.escapeChar
  repeat' split
  all_goals first
    | (subst c; exact .short (by decide))
    | skip
  · exact .code (codeEscape_codeEscape (by omega))
  · rename_i notQuote notBackslash _ _ _ _ _ visible
    exact .plain notQuote notBackslash (Nat.not_lt.mp visible)

theorem spelling_print (text : String) :
    Spelling (.string (.ofText text)) (JsonString.ofText text).print := by
  have body : ∀ characters : List Char, StringSpelling (characters.map .char)
      ((characters.map StringUnit.char).flatMap StringUnit.print) := by
    intro characters
    induction characters with
    | nil => exact .nil
    | cons c rest ih => exact .char (charSpelling_escapeChar c) ih
  exact .string (body text.toList)

end JsonToken

namespace Json

open JsonToken

theorem written_line {tokens : List JsonToken} {text : List Char} (level : Nat)
    (written : JsonToken.Written tokens text) :
    JsonToken.Written tokens (lineStart level ++ text) :=
  JsonToken.Written.append (.nil (blank_lineStart level)) written

theorem written_member {value : Json} {text : List Char} (key : String)
    (written : JsonToken.Written value.tokens text) :
    JsonToken.Written (.string (.ofText key) :: .colon :: value.tokens)
      ((JsonString.ofText key).print ++ ([':', ' '] ++ text)) := by
  have spaced : JsonToken.Written value.tokens ([' '] ++ text) :=
    JsonToken.Written.append (.nil (List.forall_mem_singleton.mpr (.inl rfl))) written
  exact (spelling_print key).written.append (Spelling.colon.written.append spaced)

mutual

theorem written_print (level : Nat) :
    (value : Json) → value.Textual → JsonToken.Written value.tokens (value.print level)
  | .null, _ => Spelling.nullWord.written
  | .bool true, _ => Spelling.trueWord.written
  | .bool false, _ => Spelling.falseWord.written
  | .number _, textual => textual.elim
  | .string units, textual => by
    obtain ⟨text, rfl⟩ := textual
    exact (spelling_print text).written
  | .array [], _ => Spelling.openBracket.written.append Spelling.closeBracket.written
  | .array (first :: rest), textual => by
    have begun := written_line (level + 1) (written_print (level + 1) first textual.1)
    have inside := begun.append (written_printElements (level + 1) rest textual.2)
    have closed := written_line level Spelling.closeBracket.written
    have written := Spelling.openBracket.written.append (inside.append closed)
    simpa only [tokens, print, List.cons_append, List.nil_append, List.append_assoc] using written
  | .object [], _ => Spelling.openBrace.written.append Spelling.closeBrace.written
  | .object ((key, first) :: rest), textual => by
    obtain ⟨⟨name, rfl⟩, valueTextual, restTextual⟩ := textual
    have begun := written_line (level + 1)
      (written_member name (written_print (level + 1) first valueTextual))
    have inside := begun.append (written_printMembers (level + 1) rest restTextual)
    have closed := written_line level Spelling.closeBrace.written
    have written := Spelling.openBrace.written.append (inside.append closed)
    simpa only [tokens, print, List.cons_append, List.nil_append, List.append_assoc] using written

theorem written_printElements (level : Nat) :
    (elements : List Json) → ListTextual elements →
      JsonToken.Written (elementTokens elements) (printElements level elements)
  | [], _ => .nil blank_nil
  | element :: rest, textual => by
    have next := written_line level (written_print level element textual.1)
    have others := next.append (written_printElements level rest textual.2)
    have written := Spelling.comma.written.append others
    simpa only [elementTokens, printElements, List.cons_append, List.nil_append,
      List.append_assoc] using written

theorem written_printMembers (level : Nat) :
    (members : List (JsonString × Json)) → MembersTextual members →
      JsonToken.Written (memberTokens members) (printMembers level members)
  | [], _ => .nil blank_nil
  | (key, value) :: rest, textual => by
    obtain ⟨⟨name, rfl⟩, valueTextual, restTextual⟩ := textual
    have next := written_line level (written_member name (written_print level value valueTextual))
    have others := next.append (written_printMembers level rest restTextual)
    have written := Spelling.comma.written.append others
    simpa only [memberTokens, printMembers, List.cons_append, List.nil_append,
      List.append_assoc] using written

end

theorem written_pretty {value : Json} (textual : value.Textual) : value.Written value.pretty := by
  rw [Json.Written, pretty, String.toList_ofList]
  exact written_print 0 value textual

end Json

end SentenceGrammar
