import SentenceGrammar.Grammar.Decoding
import SentenceGrammar.Grammar.Encoding
import SentenceGrammar.Proofs.Grammar.Lookup
import SentenceGrammar.Proofs.Json.RoundTrip

/-! A grammar is read back from its JSON form exactly if that form is not nested too deep. Every
decoder spends its room on the containers that the corresponding encoder writes, so it succeeds
exactly if the nesting of the written value fits. -/

namespace SentenceGrammar

/-- What decoding in some room makes of a value with a certain nesting. -/
def Json.ifFits {α : Type} (nesting room : Nat) (value : α) : Option α :=
  if nesting ≤ room then some value else none

namespace Json

variable {α β : Type}

@[simp] theorem ifFits_zero_left (room : Nat) (value : α) : ifFits 0 room value = some value :=
  if_pos (Nat.zero_le room)

@[simp] theorem ifFits_succ_zero (nesting : Nat) (value : α) :
    ifFits (nesting + 1) 0 value = none :=
  if_neg (Nat.not_succ_le_zero nesting)

@[simp] theorem ifFits_succ_succ (nesting room : Nat) (value : α) :
    ifFits (nesting + 1) (room + 1) value = ifFits nesting room value := by
  simp [ifFits]

@[simp] theorem map_ifFits (change : α → β) (nesting room : Nat) (value : α) :
    (ifFits nesting room value).map change = ifFits nesting room (change value) := by
  unfold ifFits
  split <;> rfl

@[simp] theorem bind_some_ifFits (change : α → β) (nesting room : Nat) (value : α) :
    ((ifFits nesting room value).bind fun value => some (change value)) =
      ifFits nesting room (change value) := by
  unfold ifFits
  split <;> rfl

theorem bind_ifFits (first second room : Nat) (value : α) (combine : α → β) :
    ((ifFits first room value).bind fun value => ifFits second room (combine value)) =
      ifFits (max first second) room (combine value) := by
  simp only [ifFits, Nat.max_le]
  by_cases firstFits : first ≤ room <;> by_cases secondFits : second ≤ room <;>
    simp [firstFits, secondFits]

theorem mapM_map_ifFits {encode : α → Json} {decode : Json → Option α} {room : Nat}
    {values : List α}
    (each : ∀ value ∈ values, decode (encode value) = ifFits (encode value).nesting room value) :
    (values.map encode).mapM decode =
      ifFits (listNesting (values.map encode)) room values := by
  induction values with
  | nil => simp [listNesting]
  | cons value rest ih =>
    have first := each value List.mem_cons_self
    have others := ih fun other member => each other (List.mem_cons_of_mem _ member)
    simp only [List.map_cons, List.mapM_cons, first, others, listNesting, Option.bind_eq_bind,
      Option.pure_def, bind_some_ifFits, bind_ifFits]

@[simp] theorem nesting_ofText (text : String) : (ofText text).nesting = 0 := by
  simp [ofText, nesting]

theorem listNesting_map_ofText (texts : List α) (spelling : α → String) :
    listNesting (texts.map fun text => .ofText (spelling text)) = 0 := by
  induction texts with
  | nil => rfl
  | cons text rest ih => simp [listNesting, ih]

@[simp] theorem text_ofText (text : String) : (ofText text).text = some text :=
  JsonString.text_ofText text

@[simp] theorem choice_named (name : String) (content : Json) :
    (object [(.ofText name, content)]).choice = some (name, content) := by
  simp [choice]

@[simp] theorem elements_array (elements : List Json) : (array elements).elements = some elements :=
  rfl

end Json

open Json

theorem Label.mapM_ofJson (labels : List Label) :
    (labels.map fun label => Json.ofText label.name).mapM Label.ofJson = some labels := by
  induction labels with
  | nil => rfl
  | cons label rest ih => simp [List.mapM_cons, Label.ofJson, ih]

theorem Selector.ofJson_toJson (room : Nat) (selector : Selector) :
    Selector.ofJson room selector.toJson =
      ifFits selector.toJson.nesting room selector := by
  cases selector with
  | reset =>
    cases room <;> simp [Selector.toJson, Json.ofText, Selector.ofJson, nesting]
  | anyOf labels =>
    have depth : (Selector.anyOf labels).toJson.nesting = 2 := by
      simp [Selector.toJson, ofMembers, nesting, memberNesting, listNesting_map_ofText]
    rw [depth]
    rcases room with _ | _ | room
    · rfl
    · simp [Selector.toJson, Selector.ofJson, ofMembers]
    · simp [Selector.toJson, Selector.ofJson, ofMembers, Label.mapM_ofJson, ifFits, -List.mapM_map]

def Json.fieldNesting : Option Json → Nat
  | none => 0
  | some json => json.nesting

def Chain.field (chain : Chain) : Option Json :=
  if chain.isEmpty then none else some (.array (chain.map Selector.toJson))

theorem Chain.ofJson_field (room : Nat) (chain : Chain) :
    Chain.ofJson room chain.field = ifFits (fieldNesting chain.field) room chain := by
  cases chain with
  | nil => simp [Chain.field, Chain.ofJson, fieldNesting]
  | cons selector later =>
    cases room with
    | zero => simp [Chain.field, Chain.ofJson, fieldNesting, nesting]
    | succ room =>
      have decoded : ((selector :: later).map Selector.toJson).mapM (Selector.ofJson room) = _ :=
        mapM_map_ifFits fun other _ => Selector.ofJson_toJson room other
      simpa [Chain.field, Chain.ofJson, fieldNesting, nesting, -List.mapM_map] using decoded

theorem Chain.nesting_record (name : String) (value : Json) (chain : Chain) :
    (ofMembers ((name, value) :: chain.toFields)).nesting =
      max value.nesting (fieldNesting chain.field) + 1 := by
  cases chain <;>
    simp [ofMembers, nesting, memberNesting, Chain.toFields, Chain.field, fieldNesting]

theorem Chain.fields_record {name : String} (other : name ≠ "selection") (value : Json)
    (chain : Chain) :
    (ofMembers ((name, value) :: chain.toFields)).fields [name, "selection"] =
      some [some value, chain.field] := by
  cases chain <;>
    simp [ofMembers, fields, membersNamed, member, Chain.toFields, Chain.field, other, other.symm]

@[simp] theorem Junction.ofJson_glue (room : Nat) :
    Junction.ofJson room (some (.ofText "glue")) = some .glue := by
  simp [Json.ofText, Junction.ofJson, Junction.ofName]

@[simp] theorem Label.ofField_ofText (label : Label) :
    Label.ofField (some (.ofText label.name)) = some (some label) := by
  simp [Json.ofText, Label.ofField, Label.ofJson, Json.text]

def Part.toJson (part : Part) : Json :=
  .ofMembers (("atom", part.atom.toJson) :: part.junction.toFields)

def Alternative.toJson (alternative : Alternative) : Json :=
  .ofMembers (Label.toFields alternative.label ++
    [("items", .array (Part.listToJson alternative.parts))])

theorem Atom.listToJson_eq_map (atoms : List Atom) :
    Atom.listToJson atoms = atoms.map Atom.toJson := by
  induction atoms with
  | nil => rfl
  | cons atom rest ih => simp [Atom.listToJson, ih]

theorem Part.listToJson_eq_map (parts : List Part) :
    Part.listToJson parts = parts.map Part.toJson := by
  induction parts with
  | nil => rfl
  | cons part rest ih =>
    cases part
    simp [Part.listToJson, Part.toJson, ih]

theorem Alternative.listToJson_eq_map (alternatives : List Alternative) :
    Alternative.listToJson alternatives = alternatives.map Alternative.toJson := by
  induction alternatives with
  | nil => rfl
  | cons alternative rest ih =>
    cases alternative
    simp [Alternative.listToJson, Alternative.toJson, ih]

/-- An atom is decoded in exactly the room that its form takes up. -/
def Atom.Reloads (atom : Atom) : Prop :=
  ∀ room, Atom.ofJson room atom.toJson = ifFits atom.toJson.nesting room atom

theorem Part.ofJson_toJson {part : Part} (atom : part.atom.Reloads) (room : Nat) :
    Part.ofJson room part.toJson = ifFits part.toJson.nesting room part := by
  rcases part with ⟨junction, atom'⟩
  have depth : (Part.toJson ⟨junction, atom'⟩).nesting = atom'.toJson.nesting + 1 := by
    cases junction <;>
      simp [Part.toJson, ofMembers, nesting, memberNesting, Junction.toFields]
  rw [depth]
  cases room with
  | zero => simp [Part.ofJson]
  | succ room =>
    have decoded := atom room
    cases junction with
    | space =>
      simp [Part.ofJson, Part.toJson, ofMembers, fields, membersNamed, member, Junction.toFields,
        Junction.ofJson, decoded]
    | glue =>
      simp [Part.ofJson, Part.toJson, ofMembers, fields, membersNamed, member, Junction.toFields,
        decoded]

theorem Part.listOfJson_listToJson {parts : List Part}
    (atoms : ∀ part ∈ parts, part.atom.Reloads) (room : Nat) :
    Part.listOfJson room (.array (Part.listToJson parts)) =
      ifFits (listNesting (Part.listToJson parts) + 1) room parts := by
  cases room with
  | zero => simp [Part.listOfJson]
  | succ room =>
    simp only [Part.listOfJson, elements_array, Option.bind_eq_bind, Option.bind_some,
      ifFits_succ_succ, Part.listToJson_eq_map]
    exact mapM_map_ifFits fun part member => Part.ofJson_toJson (atoms part member) room

theorem Alternative.ofJson_toJson {alternative : Alternative}
    (atoms : ∀ part ∈ alternative.parts, part.atom.Reloads) (room : Nat) :
    Alternative.ofJson room alternative.toJson =
      ifFits alternative.toJson.nesting room alternative := by
  rcases alternative with ⟨label, parts⟩
  have depth : (Alternative.toJson ⟨label, parts⟩).nesting =
      listNesting (Part.listToJson parts) + 1 + 1 := by
    cases label <;>
      simp [Alternative.toJson, ofMembers, nesting, memberNesting, Label.toFields]
  rw [depth]
  cases room with
  | zero => simp [Alternative.ofJson]
  | succ room =>
    have decoded := Part.listOfJson_listToJson atoms room
    cases label with
    | none =>
      simp [Alternative.ofJson, Alternative.toJson, ofMembers, fields, membersNamed, member,
        Label.toFields, Label.ofField, decoded]
    | some label =>
      simp [Alternative.ofJson, Alternative.toJson, ofMembers, fields, membersNamed, member,
        Label.toFields, decoded]

theorem Alternative.listOfJson_listToJson {alternatives : List Alternative}
    (atoms : ∀ alternative ∈ alternatives, ∀ part ∈ alternative.parts, part.atom.Reloads)
    (room : Nat) :
    Alternative.listOfJson room (.array (Alternative.listToJson alternatives)) =
      ifFits (listNesting (Alternative.listToJson alternatives) + 1) room alternatives := by
  cases room with
  | zero => simp [Alternative.listOfJson]
  | succ room =>
    simp only [Alternative.listOfJson, elements_array, Option.bind_eq_bind, Option.bind_some,
      ifFits_succ_succ, Alternative.listToJson_eq_map]
    exact mapM_map_ifFits fun alternative member =>
      Alternative.ofJson_toJson (atoms alternative member) room

theorem Atom.referenceOfJson_record (room : Nat) (symbol : Symbol) (chain : Chain) :
    Atom.referenceOfJson room (ofMembers (("symbol", .ofText symbol.name) :: chain.toFields)) =
      ifFits (ofMembers (("symbol", .ofText symbol.name) :: chain.toFields)).nesting room
        (.reference symbol chain) := by
  rw [Chain.nesting_record]
  cases room with
  | zero => simp [Atom.referenceOfJson]
  | succ room => simp [Atom.referenceOfJson, Chain.fields_record, Chain.ofJson_field]

theorem Atom.groupOfJson_record {alternatives : List Alternative}
    (atoms : ∀ alternative ∈ alternatives, ∀ part ∈ alternative.parts, part.atom.Reloads)
    (room : Nat) (chain : Chain) :
    Atom.groupOfJson room (ofMembers
        (("alternatives", .array (Alternative.listToJson alternatives)) :: chain.toFields)) =
      ifFits (ofMembers (("alternatives", .array (Alternative.listToJson alternatives)) ::
        chain.toFields)).nesting room (.group alternatives chain) := by
  rw [Chain.nesting_record]
  cases room with
  | zero => simp [Atom.groupOfJson]
  | succ room =>
    simp [Atom.groupOfJson, Chain.fields_record, Chain.ofJson_field, nesting, bind_ifFits,
      Alternative.listOfJson_listToJson atoms]

theorem Atom.listOfJson_listToJson {choices : List Atom}
    (atoms : ∀ choice ∈ choices, choice.Reloads) (room : Nat) :
    Atom.listOfJson room (.array (Atom.listToJson choices)) =
      ifFits (listNesting (Atom.listToJson choices) + 1) room choices := by
  cases room with
  | zero => simp [Atom.listOfJson]
  | succ room =>
    simp only [Atom.listOfJson, elements_array, Option.bind_eq_bind, Option.bind_some,
      ifFits_succ_succ, Atom.listToJson_eq_map]
    exact mapM_map_ifFits fun choice member => atoms choice member room

theorem Atom.reloads_named {atom : Atom} {name : String} {content : Json}
    (written : atom.toJson = ofMembers [(name, content)])
    (decoded : ∀ room, Atom.ofJson (room + 1) (ofMembers [(name, content)]) =
      ifFits content.nesting room atom) : atom.Reloads := by
  have depth : (ofMembers [(name, content)]).nesting = content.nesting + 1 := by
    simp [ofMembers, nesting, memberNesting]
  intro room
  rcases room with _ | room
  · rw [written, depth]
    simp [Atom.ofJson, ofMembers]
  · rw [written, depth, decoded, ifFits_succ_succ]

theorem Atom.reloads (atom : Atom) : atom.Reloads := by
  induction atom using Atom.induction with
  | terminal text =>
    refine Atom.reloads_named rfl fun room => ?_
    simp [Atom.ofJson, ofMembers]
  | reference symbol chain =>
    refine Atom.reloads_named rfl fun room => ?_
    rw [← Atom.referenceOfJson_record]
    simp [Atom.ofJson, ofMembers]
  | group alternatives chain atoms =>
    refine Atom.reloads_named rfl fun room => ?_
    rw [← Atom.groupOfJson_record atoms]
    simp [Atom.ofJson, ofMembers]
  | positional choices atoms =>
    refine Atom.reloads_named rfl fun room => ?_
    simp [Atom.ofJson, ofMembers, Atom.listOfJson_listToJson atoms, nesting]
  | epsilon =>
    intro room
    cases room <;> simp [Atom.toJson, Json.ofText, Atom.ofJson, nesting]

def Rules.members (listing : List Rule) : List (JsonString × Json) :=
  listing.map fun rule =>
    (.ofText rule.symbol.name, .array (Alternative.listToJson rule.alternatives))

theorem Rules.ofMembers_members (room : Nat) (rules : Rules) (listing : List Rule) :
    Rules.ofMembers room rules (Rules.members listing) =
      ifFits (memberNesting (Rules.members listing)) room (rules.insertAll listing) := by
  induction listing generalizing rules with
  | nil => simp [Rules.members, Rules.ofMembers, memberNesting, Rules.insertAll]
  | cons rule rest ih =>
    have reloads : ∀ alternative ∈ rule.alternatives, ∀ part ∈ alternative.parts,
        part.atom.Reloads := fun _ _ part _ => part.atom.reloads
    have first := Alternative.listOfJson_listToJson reloads room
    rw [Rules.members, List.map_cons, Rules.ofMembers, ← Rules.members]
    simp only [JsonString.text_ofText, first, ih, memberNesting, nesting, Option.bind_eq_bind,
      Option.bind_some, bind_ifFits, Rules.insertAll, List.foldl_cons]

theorem Rules.ofJson_members (room : Nat) (listing : List Rule) :
    Rules.ofJson room (.object (Rules.members listing)) =
      ifFits (object (Rules.members listing)).nesting room (Rules.empty.insertAll listing) := by
  cases room with
  | zero => simp [Rules.ofJson, nesting]
  | succ room => simp [Rules.ofJson, nesting, Rules.ofMembers_members]

theorem Rules.object_members (listing : List Rule) :
    object (Rules.members listing) = .ofMembers (listing.map fun rule =>
      (rule.symbol.name, .array (Alternative.listToJson rule.alternatives))) := by
  simp [Rules.members, Json.ofMembers]

theorem Rules.memberNesting_perm {first second : List Rule} (reordered : first.Perm second) :
    memberNesting (Rules.members first) = memberNesting (Rules.members second) := by
  induction reordered with
  | nil => rfl
  | cons rule _ ih => simpa [Rules.members, memberNesting] using congrArg _ ih
  | swap rule other rest => simp [Rules.members, memberNesting, Nat.max_left_comm]
  | trans _ _ earlier later => exact earlier.trans later

theorem Chain.textual_fields (chain : Chain) (name : String) (json : Json)
    (member : (name, json) ∈ chain.toFields) : json.Textual := by
  unfold Chain.toFields at member
  split at member
  · cases member
  · cases List.mem_singleton.mp member
    simp only [textual_array, List.forall_mem_map]
    intro selector _
    cases selector <;> simp [Selector.toJson]

theorem Part.textual_toJson {part : Part} (atom : part.atom.toJson.Textual) :
    part.toJson.Textual := by
  rcases part with ⟨_ | _, _⟩ <;> simpa [Part.toJson, Junction.toFields] using atom

theorem Alternative.textual_toJson {alternative : Alternative}
    (atoms : ∀ part ∈ alternative.parts, part.atom.toJson.Textual) :
    alternative.toJson.Textual := by
  have parts : (Json.array (Part.listToJson alternative.parts)).Textual := by
    simp only [Part.listToJson_eq_map, textual_array, List.forall_mem_map]
    exact fun part member => Part.textual_toJson (atoms part member)
  rcases alternative with ⟨_ | _, _⟩ <;> simpa [Alternative.toJson, Label.toFields] using parts

theorem Alternative.textual_listToJson {alternatives : List Alternative}
    (atoms : ∀ alternative ∈ alternatives, ∀ part ∈ alternative.parts, part.atom.toJson.Textual) :
    (Json.array (Alternative.listToJson alternatives)).Textual := by
  simp only [Alternative.listToJson_eq_map, textual_array, List.forall_mem_map]
  exact fun alternative member => Alternative.textual_toJson (atoms alternative member)

theorem Atom.textual_toJson (atom : Atom) : atom.toJson.Textual := by
  induction atom using Atom.induction with
  | terminal text => simp [Atom.toJson]
  | reference symbol chain =>
    simpa [Atom.toJson] using chain.textual_fields
  | group alternatives chain atoms =>
    have written := Alternative.textual_listToJson atoms
    simpa [Atom.toJson, -textual_array] using
      ⟨written, chain.textual_fields⟩
  | positional choices atoms => simpa [Atom.toJson, Atom.listToJson_eq_map] using atoms
  | epsilon => simp [Atom.toJson]

theorem Rules.textual_members (listing : List Rule) :
    (object (Rules.members listing)).Textual := by
  simp only [Rules.object_members, textual_ofMembers, List.forall_mem_map]
  exact fun rule _ => Alternative.textual_listToJson fun _ _ part _ => part.atom.textual_toJson

namespace Grammar

def jsonInOrder (grammar : Grammar) (listing : List Rule) : Json :=
  .ofMembers [("rules", .object (Rules.members listing)),
    ("start_symbol", .ofText grammar.start.name)]

theorem jsonInOrder_list (grammar : Grammar) :
    grammar.jsonInOrder grammar.rules.list = grammar.toJson := by
  rw [jsonInOrder, Rules.object_members, toJson, Rules.toJson]

theorem ofJson_jsonInOrder (room : Nat) (grammar : Grammar) {listing : List Rule}
    (reordered : listing.Perm grammar.rules.list) :
    ofJson room (grammar.jsonInOrder listing) =
      ifFits (grammar.jsonInOrder listing).nesting room (grammar.rules, grammar.start) := by
  have depth : (grammar.jsonInOrder listing).nesting =
      (object (Rules.members listing)).nesting + 1 := by
    simp [jsonInOrder, ofMembers, nesting, memberNesting]
  rw [depth]
  cases room with
  | zero => simp [ofJson]
  | succ room =>
    have decoded := Rules.ofJson_members room listing
    rw [Rules.insertAll_perm reordered] at decoded
    simp [ofJson, jsonInOrder, ofMembers, fields, membersNamed, member, decoded]

theorem nesting_jsonInOrder (grammar : Grammar) {listing : List Rule}
    (reordered : listing.Perm grammar.rules.list) :
    (grammar.jsonInOrder listing).nesting = grammar.toJson.nesting := by
  rw [← jsonInOrder_list]
  simp [jsonInOrder, ofMembers, nesting, memberNesting, Rules.memberNesting_perm reordered]

theorem textual_jsonInOrder (grammar : Grammar) (listing : List Rule) :
    (grammar.jsonInOrder listing).Textual := by
  simp [jsonInOrder, Rules.textual_members]

theorem ofJsonText_jsonInOrder (grammar : Grammar) {listing : List Rule}
    (reordered : listing.Perm grammar.rules.list) :
    ofJsonText (grammar.jsonInOrder listing).pretty =
      if grammar.toJson.nesting ≤ containerLimit then .ok grammar else .error .unreadable := by
  have decoded := ofJson_jsonInOrder containerLimit grammar reordered
  rw [nesting_jsonInOrder grammar reordered] at decoded
  rw [ofJsonText, read_pretty (grammar.textual_jsonInOrder listing), Option.bind_some, decoded]
  by_cases fits : grammar.toJson.nesting ≤ containerLimit
  · simp only [ifFits, if_pos fits]
    exact mapError_ofRules_eq_ok.mpr ⟨grammar.startDefined, rfl, rfl⟩
  · simp only [ifFits, if_neg fits]

/-- A grammar is read back from its JSON text as it was, unless the text nests containers deeper
than a reader enters them; then the text is rejected. The order in which the rules are written makes
no difference. -/
theorem ofJsonText_toJsonText (grammar : Grammar) :
    ofJsonText grammar.toJsonText =
        (if grammar.toJson.nesting ≤ 127 then .ok grammar else .error .unreadable) ∧
      ∀ listing : List Rule, listing.Perm grammar.rules.list →
        ofJsonText (grammar.jsonInOrder listing).pretty = ofJsonText grammar.toJsonText := by
  have kept := ofJsonText_jsonInOrder grammar (List.Perm.refl _)
  rw [jsonInOrder_list] at kept
  refine ⟨kept, fun listing reordered => ?_⟩
  exact (ofJsonText_jsonInOrder grammar reordered).trans kept.symm

/-- An article that is glued to a feminine noun, and nouns of both genders. -/
def elidedRules : List Rule :=
  [⟨⟨"S"⟩, [⟨none, [.spaced (.terminal "l'"), ⟨.glue, .reference ⟨"N"⟩ [.anyOf [⟨"f"⟩]]⟩]⟩]⟩,
    ⟨⟨"N"⟩, [⟨some ⟨"m"⟩, [.spaced (.terminal "uomo")]⟩,
      ⟨some ⟨"f"⟩, [.spaced (.terminal "isola")]⟩]⟩]

def elided : Grammar :=
  ⟨Rules.empty.insertAll elidedRules, ⟨"S"⟩, by decide⟩

theorem ofJsonText_elided :
    ofJsonText elided.toJsonText = .ok elided ∧ elidedRules.Perm elided.rules.list ∧
      ofJsonText (elided.jsonInOrder elidedRules).pretty = .ok elided := by
  have reordered : elidedRules.Perm elided.rules.list := .swap _ _ []
  obtain ⟨kept, anyOrder⟩ := ofJsonText_toJsonText elided
  rw [if_pos (by decide)] at kept
  exact ⟨kept, reordered, (anyOrder _ reordered).trans kept⟩

end Grammar

end SentenceGrammar
