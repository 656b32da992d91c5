import SentenceGrammar.Proofs.Grammar.JsonRoundTrip

/-! The JSON form in which a grammar is kept is the shallowest of its forms. Whatever a decoder
accepts, what it makes of it is written with no more containers inside each other than were read,
and with no more than the decoder had room for. So a grammar that was read from some JSON text can
be kept and read again. -/

namespace SentenceGrammar

namespace Json

section Nesting

variable {bound : Nat}

theorem listNesting_le_iff {elements : List Json} :
    listNesting elements ≤ bound ↔ ∀ element ∈ elements, element.nesting ≤ bound := by
  induction elements with
  | nil => simp [listNesting]
  | cons element rest ih => rw [listNesting, Nat.max_le, ih, List.forall_mem_cons]

theorem memberNesting_le_iff {members : List (JsonString × Json)} :
    memberNesting members ≤ bound ↔ ∀ member ∈ members, member.2.nesting ≤ bound := by
  induction members with
  | nil => simp [memberNesting]
  | cons member rest ih =>
    rw [memberNesting, Nat.max_le, ih, List.forall_mem_cons]

theorem nesting_le_listNesting {elements : List Json} {element : Json}
    (member : element ∈ elements) : element.nesting ≤ listNesting elements :=
  listNesting_le_iff.mp (Nat.le_refl _) element member

theorem nesting_le_memberNesting {members : List (JsonString × Json)} {member : JsonString × Json}
    (inside : member ∈ members) : member.2.nesting ≤ memberNesting members :=
  memberNesting_le_iff.mp (Nat.le_refl _) member inside

end Nesting

theorem nesting_of_elements {json : Json} {elements : List Json}
    (array : json.elements = some elements) : listNesting elements + 1 = json.nesting := by
  cases json with
  | array inside =>
    cases array
    rw [nesting]
  | null | bool | number | string | object => cases array

theorem nesting_of_choice {json content : Json} {name : String}
    (named : json.choice = some (name, content)) : content.nesting + 1 = json.nesting := by
  cases json with
  | object members =>
    rcases members with _ | ⟨⟨key, value⟩, _ | _⟩
    · cases named
    · obtain ⟨text, _, same⟩ := Option.map_eq_some_iff.mp named
      cases same
      simp [nesting, memberNesting]
    · cases named
  | null | bool | number | string | array => cases named

theorem nesting_named (name : String) (content : Json) :
    (ofMembers [(name, content)]).nesting = content.nesting + 1 := by
  simp [ofMembers, nesting, memberNesting]

theorem mem_of_member {name : String} {members : List (JsonString × Json)} {value : Json}
    (found : member name members = some (some value)) : ∃ key, (key, value) ∈ members := by
  induction members with
  | nil => cases found
  | cons first rest ih =>
    obtain ⟨key, other⟩ := first
    obtain ⟨text, _, found⟩ := Option.bind_eq_some_iff.mp found
    obtain ⟨later, searched, found⟩ := Option.bind_eq_some_iff.mp found
    split at found
    · cases later with
      | none =>
        cases found
        exact ⟨key, List.mem_cons_self⟩
      | some _ => cases found
    · cases found
      obtain ⟨name, inside⟩ := ih searched
      exact ⟨name, List.mem_cons_of_mem _ inside⟩

theorem mem_of_membersNamed {members : List (JsonString × Json)} {names : List String}
    {values : List (Option Json)} (named : membersNamed members names = some values) {value : Json}
    (listed : some value ∈ values) : ∃ key, (key, value) ∈ members := by
  induction names generalizing values with
  | nil =>
    cases named
    cases listed
  | cons name names ih =>
    obtain ⟨first, found, named⟩ := Option.bind_eq_some_iff.mp named
    obtain ⟨later, others, same⟩ := Option.bind_eq_some_iff.mp named
    cases same
    rcases List.mem_cons.mp listed with rfl | listed
    · exact mem_of_member found
    · exact ih others listed

theorem mem_of_fieldsInOrder {elements : List Json} {names : List String}
    {values : List (Option Json)} (ordered : fieldsInOrder elements names = some values)
    {value : Json} (listed : some value ∈ values) : value ∈ elements := by
  induction elements generalizing names values with
  | nil =>
    cases ordered
    simp at listed
  | cons element rest ih =>
    cases names with
    | nil => cases ordered
    | cons name names =>
      obtain ⟨later, others, rfl⟩ := Option.map_eq_some_iff.mp ordered
      rcases List.mem_cons.mp listed with same | listed
      · cases same
        exact List.mem_cons_self
      · exact List.mem_cons_of_mem _ (ih others listed)

theorem nesting_of_fields {json : Json} {names : List String} {values : List (Option Json)}
    (record : json.fields names = some values) {field : Option Json} (listed : field ∈ values) :
    fieldNesting field + 1 ≤ json.nesting := by
  cases json with
  | object members =>
    cases field with
    | none => exact Nat.succ_le_succ (Nat.zero_le _)
    | some value =>
      obtain ⟨key, inside⟩ := mem_of_membersNamed record listed
      exact Nat.succ_le_succ (nesting_le_memberNesting inside)
  | array elements =>
    cases field with
    | none => exact Nat.succ_le_succ (Nat.zero_le _)
    | some value =>
      exact Nat.succ_le_succ (nesting_le_listNesting (mem_of_fieldsInOrder record listed))
  | null | bool | number | string => cases record

theorem listNesting_of_mapM {α : Type} {decode : Json → Option α} {encode : α → Json} {room : Nat}
    (each : ∀ element value, decode element = some value →
      (encode value).nesting ≤ min room element.nesting) {elements : List Json} {values : List α}
    (decoded : elements.mapM decode = some values) :
    listNesting (values.map encode) ≤ min room (listNesting elements) := by
  induction elements generalizing values with
  | nil =>
    cases decoded
    simp [listNesting]
  | cons element rest ih =>
    rw [List.mapM_cons] at decoded
    obtain ⟨value, here, decoded⟩ := Option.bind_eq_some_iff.mp decoded
    obtain ⟨later, others, same⟩ := Option.bind_eq_some_iff.mp decoded
    cases same
    have first := each element value here
    have following := ih others
    simp only [List.map_cons, listNesting]
    omega

theorem nesting_array_of_mapM {α : Type} {decode : Json → Option α} {encode : α → Json}
    {room : Nat} (each : ∀ element value, decode element = some value →
      (encode value).nesting ≤ min room element.nesting) {json : Json} {values : List α}
    (decoded : json.elements.bind (fun elements => elements.mapM decode) = some values) :
    (array (values.map encode)).nesting ≤ min (room + 1) json.nesting := by
  obtain ⟨elements, listed, decoded⟩ := Option.bind_eq_some_iff.mp decoded
  have inside := listNesting_of_mapM each decoded
  have outside := nesting_of_elements listed
  rw [nesting]
  omega

end Json

open Json

theorem Selector.nesting_anyOf (labels : List Label) :
    (Selector.anyOf labels).toJson.nesting = 2 := by
  simp [Selector.toJson, ofMembers, nesting, memberNesting, listNesting_map_ofText]

theorem Selector.nesting_of_ofJson {room : Nat} {json : Json} {selector : Selector}
    (decoded : Selector.ofJson room json = some selector) :
    selector.toJson.nesting ≤ min room json.nesting := by
  cases selector with
  | reset => simp [Selector.toJson]
  | anyOf labels =>
    rw [Selector.nesting_anyOf]
    unfold Selector.ofJson at decoded
    split at decoded
    · split at decoded <;> cases decoded
    · cases decoded
    · obtain ⟨⟨name, content⟩, named, decoded⟩ := Option.bind_eq_some_iff.mp decoded
      have outside := nesting_of_choice named
      dsimp only at decoded
      split at decoded
      · split at decoded <;> cases decoded
      · obtain ⟨elements, listed, _⟩ := Option.bind_eq_some_iff.mp decoded
        have inside := nesting_of_elements listed
        omega
      · cases decoded

theorem Chain.nesting_of_ofJson {room : Nat} {field : Option Json} {chain : Chain}
    (decoded : Chain.ofJson room field = some chain) :
    fieldNesting chain.field ≤ min room (fieldNesting field) := by
  cases field with
  | none =>
    cases decoded
    simp [Chain.field, fieldNesting]
  | some json =>
    cases room with
    | zero => cases decoded
    | succ room =>
      have written := nesting_array_of_mapM (fun _ _ => Selector.nesting_of_ofJson) decoded
      cases chain with
      | nil => simp [Chain.field, fieldNesting]
      | cons selector later => exact written

theorem Part.nesting_toJson (junction : Junction) (atom : Atom) :
    (Part.toJson ⟨junction, atom⟩).nesting = atom.toJson.nesting + 1 := by
  cases junction <;> simp [Part.toJson, ofMembers, nesting, memberNesting, Junction.toFields]

theorem Alternative.nesting_toJson (label : Option Label) (parts : List Part) :
    (Alternative.toJson ⟨label, parts⟩).nesting =
      (array (parts.map Part.toJson)).nesting + 1 := by
  cases label <;>
    simp [Alternative.toJson, Part.listToJson_eq_map, ofMembers, nesting, memberNesting,
      Label.toFields]

/-- What an atom may be decoded from: the name of a case alone, or a choice with what belongs to the
case, for which one container less may be entered. -/
theorem Atom.ofJson_cases {room : Nat} {json : Json} {atom : Atom}
    (decoded : Atom.ofJson room json = some atom) :
    atom = .epsilon ∨ ∃ inner content, room = inner + 1 ∧ content.nesting + 1 = json.nesting ∧
      ((∃ text, atom = .terminal text) ∨
        (∃ choices, Atom.listOfJson inner content = some choices ∧ atom = .positional choices) ∨
        Atom.referenceOfJson inner content = some atom ∨
        Atom.groupOfJson inner content = some atom) := by
  unfold Atom.ofJson at decoded
  split at decoded
  · split at decoded
    · cases decoded
      exact .inl rfl
    · cases decoded
  · cases decoded
  · rename_i inner _
    obtain ⟨⟨name, content⟩, named, decoded⟩ := Option.bind_eq_some_iff.mp decoded
    have outside := nesting_of_choice named
    dsimp only at decoded
    split at decoded
    · split at decoded
      · cases decoded
        exact .inl rfl
      · cases decoded
    · obtain ⟨text, _, rfl⟩ := Option.map_eq_some_iff.mp decoded
      exact .inr ⟨inner, content, rfl, outside, .inl ⟨text, rfl⟩⟩
    · obtain ⟨choices, listed, rfl⟩ := Option.map_eq_some_iff.mp decoded
      exact .inr ⟨inner, content, rfl, outside, .inr (.inl ⟨choices, listed, rfl⟩)⟩
    · exact .inr ⟨inner, content, rfl, outside, .inr (.inr (.inl decoded))⟩
    · exact .inr ⟨inner, content, rfl, outside, .inr (.inr (.inr decoded))⟩
    · cases decoded

/-- In a certain room atoms are decoded only from what is nested at least as deep as they are
written. -/
def Atom.Shallow (room : Nat) : Prop :=
  ∀ json atom, Atom.ofJson room json = some atom → atom.toJson.nesting ≤ min room json.nesting

section Levels

variable {room : Nat} (atoms : ∀ smaller < room, Atom.Shallow smaller)

include atoms

theorem Part.nesting_of_ofJson {json : Json} {part : Part}
    (decoded : Part.ofJson room json = some part) :
    part.toJson.nesting ≤ min room json.nesting := by
  cases room with
  | zero => cases decoded
  | succ room =>
    obtain ⟨values, record, decoded⟩ := Option.bind_eq_some_iff.mp decoded
    split at decoded
    · obtain ⟨junction, _, decoded⟩ := Option.bind_eq_some_iff.mp decoded
      obtain ⟨atom, inside, same⟩ := Option.bind_eq_some_iff.mp decoded
      cases same
      have written := atoms room (Nat.lt_succ_self room) _ _ inside
      have outside := nesting_of_fields record List.mem_cons_self
      simp only [fieldNesting] at outside
      rw [Part.nesting_toJson]
      omega
    · cases decoded

theorem Part.nesting_of_listOfJson {json : Json} {parts : List Part}
    (decoded : Part.listOfJson room json = some parts) :
    (array (parts.map Part.toJson)).nesting ≤ min room json.nesting := by
  cases room with
  | zero => cases decoded
  | succ room =>
    refine nesting_array_of_mapM (fun json part decoded => ?_) decoded
    exact Part.nesting_of_ofJson (fun smaller below => atoms smaller (by omega)) decoded

theorem Alternative.nesting_of_ofJson {json : Json} {alternative : Alternative}
    (decoded : Alternative.ofJson room json = some alternative) :
    alternative.toJson.nesting ≤ min room json.nesting := by
  cases room with
  | zero => cases decoded
  | succ room =>
    obtain ⟨values, record, decoded⟩ := Option.bind_eq_some_iff.mp decoded
    split at decoded
    · obtain ⟨label, _, decoded⟩ := Option.bind_eq_some_iff.mp decoded
      obtain ⟨parts, inside, same⟩ := Option.bind_eq_some_iff.mp decoded
      cases same
      have written := Part.nesting_of_listOfJson (fun smaller below => atoms smaller (by omega))
        inside
      have outside := nesting_of_fields record (List.mem_cons_of_mem _ List.mem_cons_self)
      simp only [fieldNesting] at outside
      rw [Alternative.nesting_toJson]
      omega
    · cases decoded

theorem Alternative.nesting_of_listOfJson {json : Json} {alternatives : List Alternative}
    (decoded : Alternative.listOfJson room json = some alternatives) :
    (array (Alternative.listToJson alternatives)).nesting ≤ min room json.nesting := by
  rw [Alternative.listToJson_eq_map]
  cases room with
  | zero => cases decoded
  | succ room =>
    refine nesting_array_of_mapM (fun json alternative decoded => ?_) decoded
    exact Alternative.nesting_of_ofJson (fun smaller below => atoms smaller (by omega)) decoded

theorem Atom.nesting_of_groupOfJson {json : Json} {atom : Atom}
    (decoded : Atom.groupOfJson room json = some atom) :
    atom.toJson.nesting ≤ min room json.nesting + 1 := by
  cases room with
  | zero => cases decoded
  | succ room =>
    obtain ⟨values, record, decoded⟩ := Option.bind_eq_some_iff.mp decoded
    split at decoded
    · obtain ⟨alternatives, inside, decoded⟩ := Option.bind_eq_some_iff.mp decoded
      obtain ⟨chain, chained, same⟩ := Option.bind_eq_some_iff.mp decoded
      cases same
      have first := Alternative.nesting_of_listOfJson
        (fun smaller below => atoms smaller (by omega)) inside
      have second := Chain.nesting_of_ofJson chained
      have outside := nesting_of_fields record List.mem_cons_self
      have beside := nesting_of_fields record (List.mem_cons_of_mem _ List.mem_cons_self)
      have written := Chain.nesting_record "alternatives"
        (array (Alternative.listToJson alternatives)) chain
      rw [Atom.toJson, nesting_named, written]
      simp only [fieldNesting] at outside
      omega
    · cases decoded

omit atoms in
theorem Atom.nesting_of_referenceOfJson {json : Json} {atom : Atom}
    (decoded : Atom.referenceOfJson room json = some atom) :
    atom.toJson.nesting ≤ min room json.nesting + 1 := by
  cases room with
  | zero => cases decoded
  | succ room =>
    obtain ⟨values, record, decoded⟩ := Option.bind_eq_some_iff.mp decoded
    split at decoded
    · obtain ⟨symbol, _, decoded⟩ := Option.bind_eq_some_iff.mp decoded
      obtain ⟨chain, chained, same⟩ := Option.bind_eq_some_iff.mp decoded
      cases same
      have inside := Chain.nesting_of_ofJson chained
      have beside := nesting_of_fields record (List.mem_cons_of_mem _ List.mem_cons_self)
      rw [Atom.toJson, nesting_named, Chain.nesting_record, nesting_ofText]
      omega
    · cases decoded

theorem Atom.nesting_of_listOfJson {json : Json} {choices : List Atom}
    (decoded : Atom.listOfJson room json = some choices) :
    (array (Atom.listToJson choices)).nesting ≤ min room json.nesting := by
  rw [Atom.listToJson_eq_map]
  cases room with
  | zero => cases decoded
  | succ room =>
    exact nesting_array_of_mapM (atoms room (Nat.lt_succ_self room)) decoded

end Levels

theorem Atom.shallow (room : Nat) : Atom.Shallow room := by
  -- On the room and not on the atom: a decoder enters every container with less room.
  induction room using Nat.strongRecOn with
  | ind room atoms =>
    intro json atom decoded
    rcases Atom.ofJson_cases decoded with
      rfl | ⟨inner, content, rfl, outside, ⟨text, rfl⟩ | ⟨choices, listed, rfl⟩ | record | record⟩
    · simp [Atom.toJson]
    · rw [Atom.toJson, nesting_named, nesting_ofText]
      omega
    · have inside := Atom.nesting_of_listOfJson (fun smaller below => atoms smaller (by omega))
        listed
      rw [Atom.toJson, nesting_named]
      omega
    · have inside := Atom.nesting_of_referenceOfJson record
      omega
    · have inside := Atom.nesting_of_groupOfJson (fun smaller below => atoms smaller (by omega))
        record
      omega

theorem Alternative.shallow_list {room : Nat} {json : Json} {alternatives : List Alternative}
    (decoded : Alternative.listOfJson room json = some alternatives) :
    (array (Alternative.listToJson alternatives)).nesting ≤ min room json.nesting :=
  Alternative.nesting_of_listOfJson (fun smaller _ => Atom.shallow smaller) decoded

namespace Rules

theorem mem_of_ofMembers {room : Nat} {earlier rules : Rules} {members : List (JsonString × Json)}
    (decoded : Rules.ofMembers room earlier members = some rules) {rule : Rule}
    (listed : rule ∈ rules.list) :
    rule ∈ earlier.list ∨
      ∃ member ∈ members, Alternative.listOfJson room member.2 = some rule.alternatives := by
  induction members generalizing earlier with
  | nil =>
    cases decoded
    exact .inl listed
  | cons member rest ih =>
    obtain ⟨key, value⟩ := member
    obtain ⟨name, _, decoded⟩ := Option.bind_eq_some_iff.mp decoded
    obtain ⟨alternatives, here, decoded⟩ := Option.bind_eq_some_iff.mp decoded
    rcases ih decoded with placed | ⟨member, later, found⟩
    · rcases mem_place placed with rfl | before
      · exact .inr ⟨(key, value), List.mem_cons_self, here⟩
      · exact .inl before
    · exact .inr ⟨member, List.mem_cons_of_mem _ later, found⟩

theorem nesting_of_ofJson {room : Nat} {json : Json} {rules : Rules}
    (decoded : Rules.ofJson room json = some rules) :
    rules.toJson.nesting ≤ min room json.nesting := by
  unfold Rules.ofJson at decoded
  split at decoded
  · rename_i room members
    have each : memberNesting (Rules.members rules.list) ≤ min room (memberNesting members) := by
      refine memberNesting_le_iff.mpr (List.forall_mem_map.mpr fun rule listed => ?_)
      rcases mem_of_ofMembers decoded listed with none | ⟨member, inside, found⟩
      · cases none
      · have written := Alternative.shallow_list found
        have outside := nesting_le_memberNesting inside
        change (array (Alternative.listToJson rule.alternatives)).nesting ≤ _
        omega
    rw [Rules.toJson, ← Rules.object_members, nesting, nesting]
    omega
  · cases decoded

end Rules

namespace Grammar

theorem nesting_toJson (grammar : Grammar) :
    grammar.toJson.nesting = grammar.rules.toJson.nesting + 1 := by
  simp [toJson, ofMembers, nesting, memberNesting]

theorem nesting_of_ofJson {room : Nat} {json : Json} {grammar : Grammar}
    (decoded : ofJson room json = some (grammar.rules, grammar.start)) :
    grammar.toJson.nesting ≤ min room json.nesting := by
  cases room with
  | zero => cases decoded
  | succ room =>
    obtain ⟨values, record, decoded⟩ := Option.bind_eq_some_iff.mp decoded
    split at decoded
    · obtain ⟨rules, inside, decoded⟩ := Option.bind_eq_some_iff.mp decoded
      obtain ⟨start, _, same⟩ := Option.bind_eq_some_iff.mp decoded
      obtain rfl : rules = grammar.rules := congrArg Prod.fst (Option.some.inj same)
      have written := Rules.nesting_of_ofJson inside
      have outside := nesting_of_fields record List.mem_cons_self
      simp only [fieldNesting] at outside
      rw [nesting_toJson]
      omega
    · cases decoded

theorem exists_of_ofJsonText {text : String} {grammar : Grammar}
    (accepted : ofJsonText text = .ok grammar) :
    ∃ json, Json.read text = some json ∧
      ofJson containerLimit json = some (grammar.rules, grammar.start) := by
  unfold ofJsonText at accepted
  split at accepted
  · cases accepted
  · rename_i rules start decoded
    obtain ⟨json, found, decoded⟩ := Option.bind_eq_some_iff.mp decoded
    obtain ⟨_, rfl, rfl⟩ := mapError_ofRules_eq_ok.mp accepted
    exact ⟨json, found, decoded⟩

/-- A grammar that was read from a JSON text, however that text spells it, is kept in a text that
nests no more containers than the one it was read from, and is read back from there as it was. The
order in which the rules are written makes no difference. -/
theorem ofJsonText_kept {text : String} {grammar : Grammar}
    (accepted : ofJsonText text = .ok grammar) :
    (∃ json, Json.read text = some json ∧ grammar.toJson.nesting ≤ json.nesting) ∧
      ofJsonText grammar.toJsonText = .ok grammar ∧
      ∀ listing : List Rule, listing.Perm grammar.rules.list →
        ofJsonText (grammar.jsonInOrder listing).pretty = .ok grammar := by
  obtain ⟨json, found, decoded⟩ := exists_of_ofJsonText accepted
  have written := nesting_of_ofJson decoded
  have fits : grammar.toJson.nesting ≤ containerLimit := by omega
  have kept := ofJsonText_jsonInOrder grammar (List.Perm.refl _)
  rw [jsonInOrder_list, if_pos fits] at kept
  refine ⟨⟨json, found, by omega⟩, kept, fun listing reordered => ?_⟩
  rw [ofJsonText_jsonInOrder grammar reordered, if_pos fits]

/-- A text with records as arrays, nulls that belong to cases, a usual value that is written out, an
unknown name, an escape and a symbol that is given two rules. -/
def loosely : String :=
  "[\x7b\"S\":[], \"\\u0053\":[[null,[[\x7b\"epsilon\":null\x7d,\x7b\"glue\":null\x7d]," ++
    "\x7b\"x\":1,\"join\":\"space\",\"atom\":\"epsilon\"\x7d]]]\x7d, \"S\"]"

def looseJson : Json :=
  .array [.object [(.ofText "S", .array []),
      (.ofText "S", .array [.array [.null, .array
        [.array [.object [(.ofText "epsilon", .null)], .object [(.ofText "glue", .null)]],
          .object [(.ofText "x", .number ['1']), (.ofText "join", .ofText "space"),
            (.ofText "atom", .ofText "epsilon")]]]])],
    .ofText "S"]

def loosened : Grammar :=
  ⟨.insert .empty ⟨"S"⟩ [⟨none, [⟨.glue, .epsilon⟩, .spaced .epsilon]⟩], ⟨"S"⟩, by decide⟩

theorem read_loosely : Json.read loosely = some looseJson := by
  have scanned : JsonToken.scan 0 loosely.toList = some looseJson.tokens := by decide +kernel
  rw [Json.read, scanned]
  exact ofTokens_tokens looseJson

theorem ofJsonText_loosely : ofJsonText loosely = .ok loosened ∧
    (∃ json, Json.read loosely = some json ∧ loosened.toJson.nesting ≤ json.nesting) ∧
    ofJsonText loosened.toJsonText = .ok loosened ∧
    ∀ listing : List Rule, listing.Perm loosened.rules.list →
      ofJsonText (loosened.jsonInOrder listing).pretty = .ok loosened := by
  have decoded : ofJson containerLimit looseJson = some (loosened.rules, loosened.start) := rfl
  have accepted : ofJsonText loosely = .ok loosened := by
    rw [ofJsonText, read_loosely, Option.bind_some, decoded]
    rfl
  exact ⟨accepted, ofJsonText_kept accepted⟩

end Grammar

end SentenceGrammar
