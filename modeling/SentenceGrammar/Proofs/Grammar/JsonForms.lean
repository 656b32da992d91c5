import Mathlib.Data.List.Forall2
import SentenceGrammar.Proofs.Grammar.JsonDepth
import SentenceGrammar.Proofs.Json.Spelling

/-! All forms of a grammar as records. The members of a record may stand in any order and have
others between them that no field is named after, and a field with its usual value may be written
out or left out. What is decoded does not depend on any of this, nor on how the JSON value is
spelled. -/

namespace SentenceGrammar

namespace Json

/-- A field as it is usually written, or written out with a value that is usually left out. -/
inductive Spelled (name : String) (usual : Json) (written : List (String × Json)) :
    List (String × Json) → Prop where
  | kept : Spelled name usual written written
  | added (missing : written = []) : Spelled name usual written [(name, usual)]

/-- A record with certain fields in any order, among members with names that are not known. -/
inductive Arranged (known : List String) (fields : List (String × Json)) : Json → Prop where
  | mk {members others : List (String × Json)} (reordered : members.Perm (fields ++ others))
    (unknown : ∀ other ∈ others, other.1 ∉ known) : Arranged known fields (.ofMembers members)

section Records

variable {known : List String} {fields : List (String × Json)} {json : Json}

theorem Arranged.tidy (known : List String) (fields : List (String × Json)) :
    Arranged known fields (.ofMembers fields) :=
  .mk (.of_eq (List.append_nil fields).symm) nofun

def valuesNamed (name : String) (members : List (String × Json)) : List Json :=
  (members.filter fun member => member.1 = name).map Prod.snd

theorem valuesNamed_cons (name key : String) (value : Json) (rest : List (String × Json)) :
    valuesNamed name ((key, value) :: rest) =
      if key = name then value :: valuesNamed name rest else valuesNamed name rest := by
  by_cases same : key = name <;> simp [valuesNamed, same]

theorem member_ofMembers (name : String) (members : List (String × Json)) :
    member name (members.map fun (key, value) => (.ofText key, value)) =
      match valuesNamed name members with
      | [] => some none
      | [value] => some (some value)
      | _ :: _ :: _ => none := by
  induction members with
  | nil => rfl
  | cons first rest ih =>
    obtain ⟨key, value⟩ := first
    rw [List.map_cons, member, ih, JsonString.text_ofText, valuesNamed_cons]
    by_cases same : key = name <;>
      rcases valuesNamed name rest with _ | ⟨second, _ | _⟩ <;> simp [same]

theorem member_eq_of_arranged {members others : List (String × Json)}
    (reordered : members.Perm (fields ++ others)) {name : String}
    (unknown : ∀ other ∈ others, other.1 ≠ name) :
    member name (members.map fun (key, value) => (.ofText key, value)) =
      member name (fields.map fun (key, value) => (.ofText key, value)) := by
  have none : others.filter (fun member => member.1 = name) = [] := by
    simpa [List.filter_eq_nil_iff] using unknown
  have same : (valuesNamed name members).Perm (valuesNamed name fields) := by
    have filtered := (reordered.filter fun member => member.1 = name).map Prod.snd
    rwa [List.filter_append, none, List.append_nil] at filtered
  rw [member_ofMembers, member_ofMembers]
  -- The order of members with one name matters only if there are several, which is refused.
  generalize valuesNamed name members = found at same
  generalize valuesNamed name fields = sought at same
  rcases sought with _ | ⟨value, _ | ⟨second, rest⟩⟩
  · rw [same.eq_nil]
  · rw [same.eq_singleton]
  · rcases found with _ | ⟨value', _ | ⟨second', rest'⟩⟩
    · exact absurd same.length_eq nofun
    · exact absurd same.length_eq nofun
    · rfl

theorem membersNamed_congr {members others : List (JsonString × Json)} {names : List String}
    (same : ∀ name ∈ names, member name members = member name others) :
    membersNamed members names = membersNamed others names := by
  induction names with
  | nil => rfl
  | cons name rest ih =>
    obtain ⟨first, later⟩ := List.forall_mem_cons.mp same
    rw [membersNamed, membersNamed, first, ih later]

theorem Arranged.fields_eq (arranged : Arranged known fields json) :
    json.fields known = (ofMembers fields).fields known := by
  cases arranged with
  | mk reordered unknown =>
    refine membersNamed_congr fun name asked => member_eq_of_arranged reordered ?_
    exact fun other listed same => unknown other listed (same ▸ asked)

theorem Arranged.nesting_lt (arranged : Arranged known fields json) {name : String} {value : Json}
    (listed : (name, value) ∈ fields) : value.nesting < json.nesting := by
  cases arranged with
  | mk reordered _ =>
    have inside := reordered.mem_iff.mpr (List.mem_append_left _ listed)
    have written := List.mem_map_of_mem (f := fun (key, value) => (JsonString.ofText key, value))
      inside
    exact Nat.lt_succ_of_le (nesting_le_memberNesting written)

end Records

theorem mapM_of_forms {α : Type} {form : α → Json → Prop} {decode : Json → Option α} {room : Nat}
    {values : List α} (each : ∀ value ∈ values, ∀ json, form value json → json.nesting ≤ room →
      decode json = some value) {elements : List Json} (forms : List.Forall₂ form values elements)
    (fits : listNesting elements ≤ room) : elements.mapM decode = some values := by
  induction forms with
  | nil => rfl
  | cons here _ ih =>
    obtain ⟨first, later⟩ := List.forall_mem_cons.mp each
    obtain ⟨fit, fitting⟩ := Nat.max_le.mp fits
    rw [List.mapM_cons, first _ here fit, ih later fitting]
    rfl

end Json

open Json

mutual

inductive Atom.Form : Atom → Json → Prop where
  | terminal {text : String} : Atom.Form (.terminal text) (.ofMembers [("terminal", .ofText text)])
  | reference {symbol : Symbol} {chain : Chain} {selection : List (String × Json)} {record : Json}
    (spelled : Spelled "selection" (.array []) chain.toFields selection)
    (arranged : Arranged ["symbol", "selection"] (("symbol", .ofText symbol.name) :: selection)
      record) : Atom.Form (.reference symbol chain) (.ofMembers [("reference", record)])
  | group {alternatives : List Alternative} {chain : Chain} {elements : List Json}
    {selection : List (String × Json)} {record : Json}
    (each : List.Forall₂ Alternative.Form alternatives elements)
    (spelled : Spelled "selection" (.array []) chain.toFields selection)
    (arranged : Arranged ["alternatives", "selection"]
      (("alternatives", .array elements) :: selection) record) :
    Atom.Form (.group alternatives chain) (.ofMembers [("group", record)])
  | positional {choices : List Atom} {elements : List Json}
    (each : List.Forall₂ Atom.Form choices elements) :
    Atom.Form (.positional choices) (.ofMembers [("positional", .array elements)])
  | epsilon : Atom.Form .epsilon (.ofText "epsilon")

inductive Part.Form : Part → Json → Prop where
  | mk {junction : Junction} {atom : Atom} {content : Json} {join : List (String × Json)}
    {record : Json} (inside : Atom.Form atom content)
    (spelled : Spelled "join" (.ofText "space") junction.toFields join)
    (arranged : Arranged ["atom", "join"] (("atom", content) :: join) record) :
    Part.Form ⟨junction, atom⟩ record

inductive Alternative.Form : Alternative → Json → Prop where
  | mk {label : Option Label} {parts : List Part} {elements : List Json}
    {labelled : List (String × Json)} {record : Json} (each : List.Forall₂ Part.Form parts elements)
    (spelled : Spelled "label" .null (Label.toFields label) labelled)
    (arranged : Arranged ["label", "items"] (labelled ++ [("items", .array elements)]) record) :
    Alternative.Form ⟨label, parts⟩ record

end

inductive Rule.Form (rule : Rule) : String × Json → Prop where
  | mk {elements : List Json} (each : List.Forall₂ Alternative.Form rule.alternatives elements) :
    Rule.Form rule (rule.symbol.name, .array elements)

inductive Rules.Form (rules : Rules) : Json → Prop where
  | mk {listing : List Rule} {members : List (String × Json)} (reordered : listing.Perm rules.list)
    (each : List.Forall₂ Rule.Form listing members) : Rules.Form rules (.ofMembers members)

inductive Grammar.Form (grammar : Grammar) : Json → Prop where
  | mk {rules record : Json} (inside : Rules.Form grammar.rules rules)
    (arranged : Arranged ["rules", "start_symbol"]
      [("rules", rules), ("start_symbol", .ofText grammar.start.name)] record) :
    Grammar.Form grammar record

theorem Chain.ofJson_of_spelled {name : String} {value record : Json} {chain : Chain}
    {selection : List (String × Json)} {room : Nat} (other : name ≠ "selection")
    (spelled : Spelled "selection" (.array []) chain.toFields selection)
    (arranged : Arranged [name, "selection"] ((name, value) :: selection) record)
    (fits : record.nesting ≤ room + 1) :
    ∃ field, record.fields [name, "selection"] = some [some value, field] ∧
      Chain.ofJson room field = some chain := by
  rw [arranged.fields_eq]
  cases spelled with
  | kept =>
    refine ⟨chain.field, Chain.fields_record other value chain, ?_⟩
    have inside : fieldNesting chain.field ≤ room := by
      cases chain with
      | nil => exact Nat.zero_le room
      | cons selector later =>
        have deeper := arranged.nesting_lt (List.mem_cons_of_mem _ List.mem_cons_self)
        exact Nat.le_of_lt_succ (Nat.lt_of_lt_of_le deeper fits)
    rw [Chain.ofJson_field, ifFits, if_pos inside]
  | added missing =>
    have empty : chain = [] := by
      cases chain with
      | nil => rfl
      | cons => cases missing
    have deeper := arranged.nesting_lt (List.mem_cons_of_mem _ List.mem_cons_self)
    refine ⟨some (.array []), ?_, ?_⟩
    · simp [ofMembers, fields, membersNamed, member, other, other.symm]
    · cases room with
      | zero =>
        simp only [nesting] at deeper
        omega
      | succ room => rw [empty]; rfl

theorem Junction.ofJson_of_spelled {content record : Json} {junction : Junction}
    {join : List (String × Json)}
    (spelled : Spelled "join" (.ofText "space") junction.toFields join)
    (arranged : Arranged ["atom", "join"] (("atom", content) :: join) record) (room : Nat) :
    ∃ field, record.fields ["atom", "join"] = some [some content, field] ∧
      Junction.ofJson room field = some junction := by
  rw [arranged.fields_eq]
  cases spelled with
  | kept =>
    cases junction with
    | space => exact ⟨none, by simp [ofMembers, fields, membersNamed, member, toFields], rfl⟩
    | glue => exact ⟨_, by simp [ofMembers, fields, membersNamed, member, toFields]; rfl, by simp⟩
  | added missing =>
    cases junction with
    | space =>
      refine ⟨_, by simp [ofMembers, fields, membersNamed, member]; rfl, ?_⟩
      simp [Json.ofText, Junction.ofJson, Junction.ofName]
    | glue => cases missing

theorem Label.ofField_of_spelled {content record : Json} {label : Option Label}
    {labelled : List (String × Json)} (spelled : Spelled "label" .null (toFields label) labelled)
    (arranged : Arranged ["label", "items"] (labelled ++ [("items", content)]) record) :
    ∃ field, record.fields ["label", "items"] = some [field, some content] ∧
      Label.ofField field = some label := by
  rw [arranged.fields_eq]
  cases spelled with
  | kept =>
    cases label with
    | none => exact ⟨none, by simp [ofMembers, fields, membersNamed, member, toFields], rfl⟩
    | some label =>
      exact ⟨_, by simp [ofMembers, fields, membersNamed, member, toFields]; rfl, by simp⟩
  | added missing =>
    cases label with
    | none => exact ⟨_, by simp [ofMembers, fields, membersNamed, member]; rfl, rfl⟩
    | some => cases missing

def Atom.Decoded (atom : Atom) : Prop :=
  ∀ room json, atom.Form json → json.nesting ≤ room → Atom.ofJson room json = some atom

theorem Part.ofJson_of_form {part : Part} (atom : part.atom.Decoded) {json : Json}
    (form : part.Form json) {room : Nat} (fits : json.nesting ≤ room) :
    Part.ofJson room json = some part := by
  cases form with
  | mk inside spelled arranged =>
    have deeper := arranged.nesting_lt List.mem_cons_self
    obtain _ | room := room
    · omega
    obtain ⟨field, fields, joined⟩ := Junction.ofJson_of_spelled spelled arranged room
    have decoded := atom room _ inside (by omega)
    simp [Part.ofJson, fields, joined, decoded]

theorem Part.listOfJson_of_forms {parts : List Part} (atoms : ∀ part ∈ parts, part.atom.Decoded)
    {elements : List Json} (forms : List.Forall₂ Part.Form parts elements) {room : Nat}
    (fits : (array elements).nesting ≤ room) :
    Part.listOfJson room (.array elements) = some parts := by
  obtain _ | room := room
  · cases fits
  · exact mapM_of_forms (fun part listed _ form => Part.ofJson_of_form (atoms part listed) form)
      forms (Nat.le_of_succ_le_succ fits)

theorem Alternative.ofJson_of_form {alternative : Alternative}
    (atoms : ∀ part ∈ alternative.parts, part.atom.Decoded) {json : Json}
    (form : alternative.Form json) {room : Nat} (fits : json.nesting ≤ room) :
    Alternative.ofJson room json = some alternative := by
  cases form with
  | mk each spelled arranged =>
    have deeper := arranged.nesting_lt (List.mem_append_right _ List.mem_cons_self)
    obtain _ | room := room
    · omega
    obtain ⟨field, fields, labelled⟩ := Label.ofField_of_spelled spelled arranged
    have decoded : Part.listOfJson room _ = _ := Part.listOfJson_of_forms atoms each (by omega)
    simp [Alternative.ofJson, fields, labelled, decoded]

theorem Alternative.listOfJson_of_forms {alternatives : List Alternative}
    (atoms : ∀ alternative ∈ alternatives, ∀ part ∈ alternative.parts, part.atom.Decoded)
    {elements : List Json} (forms : List.Forall₂ Alternative.Form alternatives elements)
    {room : Nat} (fits : (array elements).nesting ≤ room) :
    Alternative.listOfJson room (.array elements) = some alternatives := by
  obtain _ | room := room
  · cases fits
  · exact mapM_of_forms
      (fun alternative listed _ form => Alternative.ofJson_of_form (atoms alternative listed) form)
      forms (Nat.le_of_succ_le_succ fits)

theorem Atom.decoded (atom : Atom) : atom.Decoded := by
  induction atom using Atom.induction with
  | terminal text =>
    rintro room _ ⟨⟩ fits
    rw [nesting_named] at fits
    obtain _ | room := room
    · omega
    simp [Atom.ofJson, ofMembers]
  | reference symbol chain =>
    rintro room _ (_ | ⟨spelled, arranged⟩) fits
    rw [nesting_named] at fits
    have deeper := arranged.nesting_lt List.mem_cons_self
    -- Two containers are entered, the choice and the record in it.
    obtain _ | _ | room := room
    · omega
    · omega
    obtain ⟨field, fields, chosen⟩ := Chain.ofJson_of_spelled (by decide) spelled arranged
      (Nat.le_of_succ_le_succ fits)
    simp [Atom.ofJson, ofMembers, Atom.referenceOfJson, fields, chosen]
  | group alternatives chain atoms =>
    rintro room _ (_ | _ | ⟨each, spelled, arranged⟩) fits
    rw [nesting_named] at fits
    have deeper := arranged.nesting_lt List.mem_cons_self
    obtain _ | _ | room := room
    · omega
    · omega
    obtain ⟨field, fields, chosen⟩ := Chain.ofJson_of_spelled (by decide) spelled arranged
      (Nat.le_of_succ_le_succ fits)
    have decoded : Alternative.listOfJson room _ = _ :=
      Alternative.listOfJson_of_forms atoms each (by omega)
    simp [Atom.ofJson, ofMembers, Atom.groupOfJson, fields, chosen, decoded]
  | positional choices atoms =>
    rintro room _ (_ | _ | _ | ⟨each⟩) fits
    rw [nesting_named] at fits
    obtain _ | _ | room := room
    · omega
    · simp [nesting] at fits
    have decoded := mapM_of_forms (fun choice listed json => atoms choice listed room json) each
      (Nat.le_of_succ_le_succ (Nat.le_of_succ_le_succ fits))
    simp [Atom.ofJson, ofMembers, Atom.listOfJson, decoded]
  | epsilon =>
    rintro room _ ⟨⟩ _
    cases room <;> simp [Json.ofText, Atom.ofJson]

theorem Rules.ofMembers_of_forms {listing : List Rule} {members : List (String × Json)}
    (forms : List.Forall₂ Rule.Form listing members) {room : Nat}
    (fits : ∀ member ∈ members, member.2.nesting ≤ room) (rules : Rules) :
    Rules.ofMembers room rules (members.map fun (key, value) => (.ofText key, value)) =
      some (rules.insertAll listing) := by
  induction forms generalizing rules with
  | nil => rfl
  | @cons rule member _ _ here _ ih =>
    obtain ⟨fit, fitting⟩ := List.forall_mem_cons.mp fits
    cases here with
    | mk each =>
      have decoded := Alternative.listOfJson_of_forms (fun _ _ part _ => part.atom.decoded) each fit
      rw [List.map_cons, Rules.ofMembers]
      simp only [JsonString.text_ofText, decoded, Option.bind_eq_bind, Option.bind_some]
      exact ih fitting _

theorem Rules.ofJson_of_form {rules : Rules} {json : Json} (form : rules.Form json) {room : Nat}
    (fits : json.nesting ≤ room) : Rules.ofJson room json = some rules := by
  cases form with
  | @mk listing members reordered each =>
    obtain _ | room := room
    · cases fits
    have inside := memberNesting_le_iff.mp (Nat.le_of_succ_le_succ fits)
    have decoded := Rules.ofMembers_of_forms each
      (fun member listed => inside _ (List.mem_map_of_mem listed)) .empty
    rwa [Rules.insertAll_perm reordered] at decoded

namespace Grammar

theorem ofJson_of_form {grammar : Grammar} {json : Json} (form : grammar.Form json) {room : Nat}
    (fits : json.nesting ≤ room) :
    ofJson room json = some (grammar.rules, grammar.start) := by
  cases form with
  | mk inside arranged =>
    have deeper := arranged.nesting_lt List.mem_cons_self
    obtain _ | room := room
    · omega
    have decoded : Rules.ofJson room _ = _ := Rules.ofJson_of_form inside (by omega)
    rw [ofJson, arranged.fields_eq]
    simp [ofMembers, fields, membersNamed, member, decoded]

end Grammar

theorem Part.form_toJson {part : Part} (atom : part.atom.Form part.atom.toJson) :
    part.Form part.toJson := by
  cases part
  exact .mk atom .kept (.tidy _ _)

theorem Alternative.form_toJson {alternative : Alternative}
    (atoms : ∀ part ∈ alternative.parts, part.atom.Form part.atom.toJson) :
    alternative.Form alternative.toJson := by
  cases alternative
  refine .mk ?_ .kept (.tidy _ _)
  rw [Part.listToJson_eq_map, List.forall₂_map_right_iff, List.forall₂_same]
  exact fun part listed => Part.form_toJson (atoms part listed)

theorem Alternative.forms_listToJson {alternatives : List Alternative}
    (atoms : ∀ alternative ∈ alternatives, ∀ part ∈ alternative.parts,
      part.atom.Form part.atom.toJson) :
    List.Forall₂ Alternative.Form alternatives (Alternative.listToJson alternatives) := by
  rw [Alternative.listToJson_eq_map, List.forall₂_map_right_iff, List.forall₂_same]
  exact fun alternative listed => Alternative.form_toJson (atoms alternative listed)

theorem Atom.form_toJson (atom : Atom) : atom.Form atom.toJson := by
  induction atom using Atom.induction with
  | terminal => exact .terminal
  | reference => exact .reference .kept (.tidy _ _)
  | group _ _ atoms => exact .group (Alternative.forms_listToJson atoms) .kept (.tidy _ _)
  | positional choices atoms =>
    refine .positional ?_
    rw [Atom.listToJson_eq_map, List.forall₂_map_right_iff, List.forall₂_same]
    exact atoms
  | epsilon => exact .epsilon

theorem Rules.form_toJson (rules : Rules) : rules.Form rules.toJson := by
  refine .mk (.refl _) ?_
  rw [List.forall₂_map_right_iff, List.forall₂_same]
  exact fun rule _ => .mk (Alternative.forms_listToJson fun _ _ part _ => part.atom.form_toJson)

namespace Grammar

theorem form_toJson (grammar : Grammar) : grammar.Form grammar.toJson :=
  .mk grammar.rules.form_toJson (.tidy _ _)

theorem written_toJsonText (grammar : Grammar) : grammar.toJson.Written grammar.toJsonText := by
  have textual := grammar.textual_jsonInOrder grammar.rules.list
  rw [jsonInOrder_list] at textual
  exact written_pretty textual

/-- A grammar is read from every text of every one of its forms, not only from the text in which it
is kept, unless containers are nested too deep. -/
theorem ofJsonText_of_form (grammar : Grammar) :
    (grammar.Form grammar.toJson ∧ grammar.toJson.Written grammar.toJsonText) ∧
      ∀ json text, grammar.Form json → json.Written text → json.nesting ≤ 127 →
        ofJsonText text = .ok grammar := by
  refine ⟨⟨grammar.form_toJson, grammar.written_toJsonText⟩, fun json text form written fits => ?_⟩
  have decoded : ofJson containerLimit json = _ := ofJson_of_form form fits
  rw [ofJsonText, written.read_eq, Option.bind_some, decoded]
  exact mapError_ofRules_eq_ok.mpr ⟨grammar.startDefined, rfl, rfl⟩

/-- Rules with the members of records in another order, and usual values written out. -/
def untidyRules : Json :=
  .ofMembers [
    ("S", .array [.ofMembers [
      ("items", .array [
        .ofMembers [("join", .ofText "space"), ("atom", .ofMembers [("terminal", .ofText "l'")])],
        .ofMembers [("join", .ofText "glue"), ("atom", .ofMembers [("reference", .ofMembers [
          ("selection", .array [.ofMembers [("labels", .array [.ofText "f"])]]),
          ("symbol", .ofText "N")])])]]),
      ("label", .null)]]),
    ("N", .array (Alternative.listToJson [⟨some ⟨"m"⟩, [.spaced (.terminal "uomo")]⟩,
      ⟨some ⟨"f"⟩, [.spaced (.terminal "isola")]⟩]))]

/-- A record with a member that is passed over. -/
def untidy : Json :=
  .ofMembers [("start_symbol", .ofText "S"), ("note", .array [.null]), ("rules", untidyRules)]

/-- A text of this record with a blank and an escape, up to the rules. -/
def untidyFront : String :=
  "\x7b\"start_symbol\":\"\\u0053\",\n\"note\":[null],\"rules\":"

def untidyText : String :=
  untidyFront ++ untidyRules.pretty ++ "\x7d"

theorem form_untidy : elided.Form untidy := by
  have article : Part.Form (.spaced (.terminal "l'")) _ :=
    .mk .terminal (.added rfl) (.mk (.swap _ _ []) nofun)
  have noun : Part.Form ⟨.glue, .reference ⟨"N"⟩ [.anyOf [⟨"f"⟩]]⟩ _ :=
    .mk (.reference .kept (.mk (.swap _ _ []) nofun)) .kept (.mk (.swap _ _ []) nofun)
  have phrase : Alternative.Form ⟨none, [_, _]⟩ _ :=
    .mk (.cons article (.cons noun .nil)) (.added rfl) (.mk (.swap _ _ []) nofun)
  have rules : elided.rules.Form untidyRules :=
    .mk (.swap _ _ _) (.cons (.mk (.cons phrase .nil)) (.cons (.mk (Alternative.forms_listToJson
      fun _ _ part _ => part.atom.form_toJson)) .nil))
  have unknown : ∀ other ∈ [("note", Json.array [.null])], other.1 ∉ ["rules", "start_symbol"] :=
    List.forall_mem_singleton.mpr (by decide)
  exact .mk rules (.mk (.trans (.cons _ (.swap _ _ [])) (.swap _ _ _)) unknown)

open JsonToken in
theorem written_untidy : untidy.Written untidyText := by
  have word := spelling_print
  have escaped : Spelling (.string (.ofText "S")) _ :=
    .string (.char (.code (codeEscape_codeEscape (by decide))) .nil)
  have blank : Blank ['\n'] := List.forall_mem_singleton.mpr (.inr (.inl rfl))
  have ahead : JsonToken.Written
      [.openBrace, .string (.ofText "start_symbol"), .colon, .string (.ofText "S"), .comma,
        .string (.ofText "note"), .colon, .openBracket, .null, .closeBracket, .comma,
        .string (.ofText "rules"), .colon] untidyFront.toList := by
    have written : JsonToken.Written _ _ :=
      .cons blank_nil .openBrace <| .cons blank_nil (word "start_symbol") <|
      .cons blank_nil .colon <| .cons blank_nil escaped <| .cons blank_nil .comma <|
      .cons blank (word "note") <| .cons blank_nil .colon <| .cons blank_nil .openBracket <|
      .cons blank_nil .nullWord <| .cons blank_nil .closeBracket <| .cons blank_nil .comma <|
      .cons blank_nil (word "rules") <| .cons blank_nil .colon <| .nil blank_nil
    convert written using 1
    rfl
  have textual : untidyRules.Textual := by
    have usual : Json.null.Textual := trivial
    simp [untidyRules, usual, Alternative.listToJson_eq_map, Alternative.textual_toJson,
      Atom.textual_toJson]
  have written := ahead.append ((written_pretty textual).append Spelling.closeBrace.written)
  rw [Json.Written, untidyText, String.toList_append, String.toList_append, List.append_assoc]
  exact written

theorem ofJsonText_untidy : elided.Form untidy ∧ untidy.Written untidyText ∧ untidy.nesting ≤ 127 ∧
    ofJsonText untidyText = .ok elided := by
  have fits : untidy.nesting ≤ 127 := by decide
  exact ⟨form_untidy, written_untidy, fits,
    (ofJsonText_of_form elided).2 untidy untidyText form_untidy written_untidy fits⟩

end Grammar

end SentenceGrammar
