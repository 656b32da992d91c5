import SentenceGrammar.Json.Reader
import SentenceGrammar.Proofs.Json.Tokens

/-! A printed value is read back as itself. Printing a value writes its tokens, and the reader makes
the value again from them, whatever frames are open around it. -/

namespace SentenceGrammar

namespace Json

mutual

/-- A value without numbers in which every string is a text. -/
def Textual : Json → Prop
  | .null | .bool _ => True
  | .number _ => False
  | .string units => ∃ text, units = .ofText text
  | .array elements => ListTextual elements
  | .object members => MembersTextual members

def ListTextual : List Json → Prop
  | [] => True
  | element :: rest => element.Textual ∧ ListTextual rest

def MembersTextual : List (JsonString × Json) → Prop
  | [] => True
  | (key, value) :: rest => (∃ text, key = .ofText text) ∧ value.Textual ∧ MembersTextual rest

end

@[simp] theorem textual_ofText (text : String) : (ofText text).Textual :=
  ⟨text, rfl⟩

@[simp] theorem textual_array (elements : List Json) :
    (array elements).Textual ↔ ∀ element ∈ elements, element.Textual := by
  rw [Textual]
  induction elements with
  | nil => simp [ListTextual]
  | cons element rest ih => simp [ListTextual, ih]

@[simp] theorem textual_ofMembers (members : List (String × Json)) :
    (ofMembers members).Textual ↔ ∀ member ∈ members, member.2.Textual := by
  rw [ofMembers, Textual]
  induction members with
  | nil => simp [MembersTextual]
  | cons member rest ih =>
    rw [List.map_cons, MembersTextual, ih, List.forall_mem_cons]
    exact and_iff_right ⟨member.1, rfl⟩

mutual

def tokens : Json → List JsonToken
  | .null => [.null]
  | .bool value => [.bool value]
  | .number literal => [.number literal]
  | .string units => [.string units]
  | .array [] => [.openBracket, .closeBracket]
  | .array (first :: rest) =>
    .openBracket :: first.tokens ++ elementTokens rest ++ [.closeBracket]
  | .object [] => [.openBrace, .closeBrace]
  | .object ((key, first) :: rest) =>
    .openBrace :: .string key :: .colon :: first.tokens ++ memberTokens rest ++ [.closeBrace]

def elementTokens : List Json → List JsonToken
  | [] => []
  | element :: rest => .comma :: element.tokens ++ elementTokens rest

def memberTokens : List (JsonString × Json) → List JsonToken
  | [] => []
  | (key, value) :: rest => .comma :: .string key :: .colon :: value.tokens ++ memberTokens rest

end

theorem spells_keyword {c : Char} {others : List Char} {token : JsonToken}
    (visible : JsonToken.isSpace c = false) (notQuote : c ≠ '\"')
    (notNumber : ¬(c = '-' ∨ c.isDigit)) (notMark : JsonToken.punctuation c = none)
    (word : ∀ rest, JsonToken.keyword (c :: (others ++ rest)) = some (token, others.length + 1)) :
    JsonToken.Spells (c :: others) [token] := by
  refine JsonToken.spells_of_front visible fun rest => ?_
  simpa only [JsonToken.front, if_neg notQuote, if_neg notNumber, notMark] using word rest

theorem spells_comma : JsonToken.Spells [','] [.comma] :=
  JsonToken.spells_punctuation rfl (by decide) (by decide) rfl

theorem spells_colon : JsonToken.Spells [':', ' '] [.colon] :=
  (JsonToken.spells_punctuation (c := ':') rfl (by decide) (by decide) rfl).append
    (JsonToken.spells_space (c := ' ') rfl)

theorem spells_openBracket : JsonToken.Spells ['['] [.openBracket] :=
  JsonToken.spells_punctuation rfl (by decide) (by decide) rfl

theorem spells_closeBracket : JsonToken.Spells [']'] [.closeBracket] :=
  JsonToken.spells_punctuation rfl (by decide) (by decide) rfl

theorem spells_openBrace : JsonToken.Spells ['\x7b'] [.openBrace] :=
  JsonToken.spells_punctuation rfl (by decide) (by decide) rfl

theorem spells_closeBrace : JsonToken.Spells ['\x7d'] [.closeBrace] :=
  JsonToken.spells_punctuation rfl (by decide) (by decide) rfl

mutual

theorem spells_print (level : Nat) :
    (value : Json) → value.Textual → JsonToken.Spells (value.print level) value.tokens
  | .null, _ => spells_keyword rfl (by decide) (by decide) rfl fun _ => rfl
  | .bool true, _ => spells_keyword rfl (by decide) (by decide) rfl fun _ => rfl
  | .bool false, _ => spells_keyword rfl (by decide) (by decide) rfl fun _ => rfl
  | .number _, textual => textual.elim
  | .string units, textual => by
    obtain ⟨text, rfl⟩ := textual
    exact JsonToken.spells_string text
  | .array [], _ => spells_openBracket.append spells_closeBracket
  | .array (first :: rest), textual => by
    have opened := spells_openBracket.gap (JsonToken.spells_lineStart (level + 1))
    have begun := opened.append (spells_print (level + 1) first textual.1)
    have written := begun.append (spells_printElements (level + 1) rest textual.2)
    exact (written.gap (JsonToken.spells_lineStart level)).append spells_closeBracket
  | .object [], _ => spells_openBrace.append spells_closeBrace
  | .object ((key, first) :: rest), textual => by
    obtain ⟨⟨text, rfl⟩, valueTextual, restTextual⟩ := textual
    have opened := spells_openBrace.gap (JsonToken.spells_lineStart (level + 1))
    have named := (opened.append (JsonToken.spells_string text)).append spells_colon
    have begun := named.append (spells_print (level + 1) first valueTextual)
    have written := begun.append (spells_printMembers (level + 1) rest restTextual)
    exact (written.gap (JsonToken.spells_lineStart level)).append spells_closeBrace

theorem spells_printElements (level : Nat) :
    (elements : List Json) → ListTextual elements →
      JsonToken.Spells (printElements level elements) (elementTokens elements)
  | [], _ => JsonToken.spells_nil
  | element :: rest, textual => by
    have separated := spells_comma.append (JsonToken.spells_lineStart level)
    have written := separated.append (spells_print level element textual.1)
    exact written.append (spells_printElements level rest textual.2)

theorem spells_printMembers (level : Nat) :
    (members : List (JsonString × Json)) → MembersTextual members →
      JsonToken.Spells (printMembers level members) (memberTokens members)
  | [], _ => JsonToken.spells_nil
  | (key, value) :: rest, textual => by
    obtain ⟨⟨text, rfl⟩, valueTextual, restTextual⟩ := textual
    have separated := spells_comma.append (JsonToken.spells_lineStart level)
    have named := (separated.append (JsonToken.spells_string text)).append spells_colon
    have written := named.append (spells_print level value valueTextual)
    exact written.append (spells_printMembers level rest restTextual)

end

theorem tokens_eq_cons (value : Json) :
    ∃ token later, value.tokens = token :: later ∧ token ≠ .closeBracket := by
  rcases value with _ | _ | _ | _ | (_ | ⟨first, rest⟩) | (_ | ⟨⟨key, first⟩, rest⟩)
  all_goals exact ⟨_, _, rfl, by simp⟩

theorem foldlM_awaitFirstElement (frames : List Frame) (value : Json) (later : List JsonToken) :
    (value.tokens ++ later).foldlM Stage.step (.awaitFirstElement frames) =
      (value.tokens ++ later).foldlM Stage.step (.awaitValue (.inArray [] :: frames)) := by
  obtain ⟨token, others, written, opening⟩ := value.tokens_eq_cons
  rw [written, List.cons_append, List.foldlM_cons, List.foldlM_cons]
  congr 1
  cases token <;> first | rfl | exact absurd rfl opening

mutual

/-- Reading the tokens of a value completes it, whatever frames are open around it. -/
theorem foldlM_tokens (frames : List Frame) (later : List JsonToken) :
    (value : Json) → (value.tokens ++ later).foldlM Stage.step (.awaitValue frames) =
      later.foldlM Stage.step (.complete value frames)
  | .null | .bool _ | .number _ | .string _ | .array [] | .object [] => rfl
  | .array (first :: rest) => by
    have elements := foldlM_elementTokens first [] frames later rest
    simp only [tokens, List.cons_append, List.append_assoc, List.foldlM_cons, Stage.step,
      Stage.startValue, Option.bind_eq_bind, Option.bind_some]
    rw [foldlM_awaitFirstElement, foldlM_tokens (.inArray [] :: frames) _ first]
    simpa using elements
  | .object ((key, first) :: rest) => by
    have members := foldlM_memberTokens key first [] frames later rest
    simp only [tokens, List.cons_append, List.append_assoc, List.foldlM_cons, Stage.step,
      Stage.startValue, Option.bind_eq_bind, Option.bind_some]
    rw [foldlM_tokens (.inObject [] key :: frames) _ first]
    simpa using members

theorem foldlM_elementTokens (value : Json) (earlier : List Json) (frames : List Frame)
    (later : List JsonToken) : (rest : List Json) →
      (elementTokens rest ++ .closeBracket :: later).foldlM Stage.step
          (.complete value (.inArray earlier :: frames)) =
        later.foldlM Stage.step (.complete (.array (earlier.reverse ++ value :: rest)) frames)
  | [] => by
    simp [elementTokens, Stage.step, Stage.afterValue]
  | next :: rest => by
    have others := foldlM_elementTokens next (value :: earlier) frames later rest
    simp only [elementTokens, List.cons_append, List.append_assoc, List.foldlM_cons, Stage.step,
      Stage.afterValue, Option.bind_eq_bind, Option.bind_some]
    rw [foldlM_tokens (.inArray (value :: earlier) :: frames) _ next, others]
    simp

theorem foldlM_memberTokens (key : JsonString) (value : Json)
    (earlier : List (JsonString × Json)) (frames : List Frame) (later : List JsonToken) :
    (rest : List (JsonString × Json)) →
      (memberTokens rest ++ .closeBrace :: later).foldlM Stage.step
          (.complete value (.inObject earlier key :: frames)) =
        later.foldlM Stage.step
          (.complete (.object (earlier.reverse ++ (key, value) :: rest)) frames)
  | [] => by
    simp [memberTokens, Stage.step, Stage.afterValue]
  | (name, next) :: rest => by
    have others := foldlM_memberTokens name next ((key, value) :: earlier) frames later rest
    simp only [memberTokens, List.cons_append, List.append_assoc, List.foldlM_cons, Stage.step,
      Stage.afterValue, Option.bind_eq_bind, Option.bind_some]
    rw [foldlM_tokens (.inObject ((key, value) :: earlier) name :: frames) _ next, others]
    simp

end

theorem ofTokens_tokens (value : Json) : ofTokens value.tokens = some value := by
  have completed := foldlM_tokens [] [] value
  rw [List.append_nil] at completed
  simp only [ofTokens, completed, List.foldlM_nil, Option.pure_def]

theorem read_pretty {value : Json} (textual : value.Textual) : read value.pretty = some value := by
  have cut := spells_print 0 value textual []
  simp only [List.append_nil, JsonToken.scan, Option.map_some] at cut
  simp only [read, pretty, String.toList_ofList, cut, Option.bind_eq_bind, Option.bind_some,
    ofTokens_tokens]

end Json

end SentenceGrammar
