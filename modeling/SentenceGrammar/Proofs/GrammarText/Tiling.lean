import SentenceGrammar.Proofs.GrammarText.Tiles

/-! A text that is cut into tokens is tiled by the spans of the tokens, and by blanks and comments.
Every token is placed where its span begins. A text that is not cut into tokens is tiled up to a
place where no tile fits, and that is the place that is reported. -/

namespace SentenceGrammar

open Character

namespace Token

section Scan

variable {before behind : List Char} {tile : Tile} {tiles : List Tile}

theorem scan_tile (fits : tile.Fits behind) (before : List Char) :
    scan (.behind before) 0 (tile.text ++ behind) =
      (scan (.behind (before ++ tile.text)) 0 behind).map
        ((tile.token?.map (⟨·, .behind before⟩)).toList ++ ·) := by
  obtain ⟨c, others, same, recognised⟩ := fits.front_eq
  have passed : others.foldl Position.after ((Position.behind before).after c) =
      .behind (before ++ tile.text) := by
    rw [same, Position.behind_append, List.foldl_cons]
  rw [same, List.length_cons] at recognised
  rw [same, List.cons_append, scan, recognised, ← same, ← passed]
  -- A blank or a comment adds nothing to the tokens behind it, a token itself.
  cases tile.token? with
  | none =>
    simp only [Nat.add_sub_cancel, scan_length_append]
    cases scan (others.foldl Position.after ((Position.behind before).after c)) 0 behind <;> rfl
  | some token =>
    simp only [Nat.add_sub_cancel, scan_length_append]
    rfl

theorem scan_listFits (fits : Tile.ListFits behind tiles) (before : List Char) :
    scan (.behind before) 0 (tiles.flatMap Tile.text ++ behind) =
      (scan (.behind (before ++ tiles.flatMap Tile.text)) 0 behind).map
        (Tile.placed before tiles ++ ·) := by
  induction tiles generalizing before with
  | nil =>
    rw [List.flatMap_nil, List.nil_append, List.append_nil]
    cases scan (.behind before) 0 behind <;> rfl
  | cons tile later ih =>
    obtain ⟨here, others⟩ := fits
    rw [List.flatMap_cons, List.append_assoc, scan_tile here, ih others, ← List.append_assoc before]
    cases scan _ 0 behind with
    | error fault => rfl
    | ok tokens => exact congrArg Except.ok (List.append_assoc _ _ _).symm

theorem exists_tiling (text : List Char) :
    ∃ tiles stuck, text = tiles.flatMap Tile.text ++ stuck ∧ Tile.ListFits stuck tiles ∧
      (stuck = [] ∨ ∃ why, Halts stuck why) := by
  induction h : text.length using Nat.strongRecOn generalizing text with
  | ind length ih =>
    subst h
    cases text with
    | nil => exact ⟨[], [], rfl, trivial, .inl rfl⟩
    | cons c rest =>
      rcases begins_or_stops c rest with ⟨tile, behind, same, fits⟩ | ⟨why, halts, _⟩
      · obtain ⟨d, others, begins, _⟩ := fits.front_eq
        -- A tile takes up at least one character, so less of the text is left behind it.
        have shorter : behind.length < (c :: rest).length := by
          rw [same, begins, List.cons_append, List.length_cons, List.length_append]
          omega
        obtain ⟨tiles, stuck, rfl, each, ends⟩ := ih _ shorter behind rfl
        refine ⟨tile :: tiles, stuck, ?_, ⟨fits, each⟩, ends⟩
        rw [same, List.flatMap_cons, List.append_assoc]
      · exact ⟨[], c :: rest, rfl, trivial, .inr ⟨why, halts⟩⟩

end Scan

section Locality

variable {first second : List Char}

/-- Where a link ends is seen from the next character, if there is one. -/
theorem Link.EndsBefore.of_head {link : Link} (ends : link.EndsBefore first)
    (sees : ∀ c ∈ second.head?, c ∈ first.head?) : link.EndsBefore second := by
  cases link with
  | dot => exact fun c begins => ends c (sees c begins)
  | label name => exact ⟨ends.1, ends.2.1, fun c begins => ends.2.2 c (sees c begins)⟩
  | closed body => exact ends
  | unclosed body =>
    obtain ⟨inside, rfl⟩ := ends
    refine ⟨inside, List.head?_eq_none_iff.mp (Option.eq_none_iff_forall_not_mem.mpr ?_)⟩
    exact fun c begins => nomatch sees c begins

theorem head?_append_of_sees (front : List Char) (sees : ∀ c ∈ second.head?, c ∈ first.head?) :
    ∀ c ∈ (front ++ second).head?, c ∈ (front ++ first).head? := by
  cases front with
  | nil => exact sees
  | cons => exact fun _ begins => begins

theorem Link.ListEndsBefore.of_head {links : List Link} (ends : ListEndsBefore first links)
    (sees : ∀ c ∈ second.head?, c ∈ first.head?) : ListEndsBefore second links := by
  induction links with
  | nil => exact fun c begins => ends c (sees c begins)
  | cons link later ih => exact ⟨ends.1.of_head (head?_append_of_sees _ sees), ih ends.2⟩

/-- Where a token ends is seen from the next character, but a colon may begin a definition mark. -/
theorem Spans.of_head {token : Token} {span : List Char} (spans : Spans token span first)
    (sees : ∀ c ∈ second.head?, c ∈ first.head?)
    (notDefine : token = .colon → second.take 2 ≠ [':', '=']) : Spans token span second := by
  cases spans with
  | word nonempty each ends => exact .word nonempty each fun c begins => ends c (sees c begins)
  | quoted quotes => exact .quoted quotes
  | chain nonempty ends => exact .chain nonempty (ends.of_head sees)
  | mark fixed _ notComment =>
    exact .mark fixed notDefine fun same star => notComment same (sees _ star)

theorem Spans.notDefine {span : List Char} (spans : Spans .colon span first) :
    first.take 2 ≠ [':', '='] := by
  cases spans with
  | mark _ notDefine => exact notDefine rfl

end Locality

section Truncation

variable {behind cut : List Char}

theorem Spans.truncated {token : Token} {span : List Char}
    (spans : Spans token span (behind ++ cut)) : Spans token span behind := by
  refine spans.of_head (fun c begins => List.mem_head?_append_of_mem_head? begins) ?_
  rintro rfl taken
  have enough : 2 ≤ behind.length := by
    have length := congrArg List.length taken
    simp only [List.length_take, List.length_cons, List.length_nil] at length
    omega
  exact spans.notDefine (by rw [List.take_append_of_le_length enough, taken])

theorem Tile.ListFits.truncated {tiles : List Tile} (fits : Tile.ListFits (behind ++ cut) tiles) :
    Tile.ListFits behind tiles := by
  induction tiles with
  | nil => trivial
  | cons tile later ih =>
    rw [ListFits, ← List.append_assoc] at fits
    refine ⟨?_, ih fits.2⟩
    cases tile with
    | blank | comment => exact fits.1
    | token found span => exact Spans.truncated fits.1

end Truncation

section Neighbours

variable {behind : List Char} {c next : Char}

theorem CommentBody.exists_concat {body : List Char} (whole : CommentBody body) :
    ∃ inner, body = inner ++ [')'] := by
  induction whole with
  | closing => exact ⟨['*'], rfl⟩
  | @comment inner rest _ _ _ ih =>
    obtain ⟨others, rfl⟩ := ih
    exact ⟨'(' :: '*' :: (inner ++ others), by simp⟩
  | @plain c rest _ _ _ ih =>
    obtain ⟨others, rfl⟩ := ih
    exact ⟨c :: others, rfl⟩

theorem Tile.Fits.text_ne_nil {tile : Tile} (fits : tile.Fits behind) : tile.text ≠ [] := by
  obtain ⟨c, others, same, _⟩ := fits.front_eq
  rw [same]
  exact List.cons_ne_nil _ _

/-- No tile but a chain ends in the middle of a run of characters of words. -/
theorem Tile.Fits.exists_chain {tile : Tile} (fits : tile.Fits behind)
    (last : c ∈ tile.text.getLast?) (letter : isWordChar c = true) (begins : next ∈ behind.head?)
    (goesOn : isWordChar next = true) : ∃ chain span, tile = .token (.chain chain) span := by
  cases tile with
  | blank blank =>
    cases last
    exact absurd (letter.symm.trans (isWordChar_eq_false_of_isBlank fits)) nofun
  | comment body =>
    obtain ⟨inner, rfl⟩ := CommentBody.exists_concat fits
    rw [text, ← List.cons_append, ← List.cons_append, List.getLast?_concat] at last
    cases last
    exact absurd letter (by decide)
  | token found span =>
    cases fits with
    | word nonempty each ends => exact absurd (goesOn.symm.trans (ends next begins)) nofun
    | @quoted body _ _ quotes =>
      rw [text, ← List.cons_append, List.getLast?_concat] at last
      cases last
      exact absurd letter (by decide)
    | chain nonempty ends => exact ⟨_, _, rfl⟩
    | mark fixed notDefine notComment =>
      cases found with
      | word | quoted | chain => cases fixed
      | define | colon | semicolon | bar | openParen | closeParen | openBracket | closeBracket
      | caret | comma | unfold =>
        cases last
        exact absurd letter (by decide)

theorem Tile.listFits_append {ahead later : List Tile} :
    ListFits behind (ahead ++ later) ↔
      ListFits (later.flatMap text ++ behind) ahead ∧ ListFits behind later := by
  induction ahead with
  | nil => simp [ListFits]
  | cons tile ahead ih =>
    rw [List.cons_append, ListFits, ListFits, ih, List.flatMap_append, List.append_assoc, and_assoc]

theorem Spans.of_word {word : String} {span : List Char} (spans : Spans (.word word) span behind) :
    span ≠ [] ∧ ∀ c ∈ span, isWordChar c = true := by
  cases spans with
  | word nonempty each ends => exact ⟨nonempty, each⟩
  | mark fixed => cases fixed

/-- No character of words stands directly ahead of a word, unless it is the last of a chain. -/
theorem Tile.ListFits.exists_chain_ahead {ahead later : List Tile} {word : String}
    {span : List Char} (fits : ListFits behind (ahead ++ .token (.word word) span :: later))
    (last : c ∈ (ahead.flatMap text).getLast?) (letter : isWordChar c = true) :
    ∃ chain stretch, ahead.getLast? = some (.token (.chain chain) stretch) := by
  rcases List.eq_nil_or_concat ahead with rfl | ⟨init, tile, rfl⟩
  · cases last
  rw [List.concat_eq_append, List.append_assoc, List.singleton_append] at fits
  obtain ⟨here, there, _⟩ := (listFits_append.mp fits).2
  obtain ⟨nonempty, each⟩ := Spans.of_word there
  obtain ⟨next, others, rfl⟩ := List.exists_cons_of_ne_nil nonempty
  rw [List.concat_eq_append, List.flatMap_append, List.flatMap_singleton,
    List.getLast?_append_of_ne_nil _ here.text_ne_nil] at last
  obtain ⟨chain, stretch, rfl⟩ := here.exists_chain last letter rfl (each next List.mem_cons_self)
  exact ⟨chain, stretch, by rw [List.concat_eq_append, List.getLast?_concat]⟩

theorem Tile.ListFits.text_ne_nil {tiles : List Tile} (fits : ListFits behind tiles) :
    ∀ tile ∈ tiles, tile.text ≠ [] := by
  induction tiles with
  | nil => exact List.forall_mem_nil _
  | cons tile later ih => exact List.forall_mem_cons.mpr ⟨fits.1.text_ne_nil, ih fits.2⟩

theorem Tile.ListFits.eq_nil {tiles : List Tile} (fits : ListFits behind tiles)
    (nothing : tiles.flatMap text = []) : tiles = [] := by
  cases tiles with
  | nil => rfl
  | cons tile later =>
    exact absurd (List.append_eq_nil_iff.mp nothing).1 (fits.text_ne_nil tile List.mem_cons_self)

theorem Spans.exists_links {chain : String} {span : List Char}
    (spans : Spans (.chain chain) span behind) :
    span = chain.toList ∧
      ∃ links, span = links.flatMap Link.text ∧ Link.ListEndsBefore behind links := by
  cases spans with
  | chain nonempty ends => exact ⟨by rw [String.toList_ofList], _, rfl, ends⟩
  | mark fixed => cases fixed

theorem Tile.exists_of_placed {before : List Char} {tiles : List Tile}
    {ahead later : List PlacedToken} {found : PlacedToken}
    (same : placed before tiles = ahead ++ found :: later) :
    ∃ earlier span rest, tiles = earlier ++ .token found.token span :: rest ∧
      found.position = .behind (before ++ earlier.flatMap text) ∧
        later = placed (before ++ earlier.flatMap text ++ span) rest := by
  induction tiles generalizing before ahead with
  | nil => simp [placed] at same
  | cons tile tiles ih =>
    -- Unless it is the token of this tile, it is the token of a tile behind it.
    have goesOn : ∀ ahead, placed (before ++ tile.text) tiles = ahead ++ found :: later →
        ∃ earlier span rest, tile :: tiles = earlier ++ .token found.token span :: rest ∧
          found.position = .behind (before ++ earlier.flatMap text) ∧
            later = placed (before ++ earlier.flatMap text ++ span) rest := by
      intro ahead same
      obtain ⟨earlier, span, rest, rfl, position, others⟩ := ih same
      refine ⟨tile :: earlier, span, rest, rfl, ?_, ?_⟩
      · rw [position, List.flatMap_cons, List.append_assoc]
      · rw [others, List.flatMap_cons, List.append_assoc before]
    cases tile with
    | blank | comment => exact goesOn ahead same
    | token token span =>
      cases ahead with
      | nil =>
        obtain ⟨rfl, rfl⟩ := List.cons.inj same
        exact ⟨[], span, tiles, rfl, by simp, by simp [text]⟩
      | cons first ahead => exact goesOn ahead (List.cons.inj same).2

end Neighbours

/-- A text is taken up by tiles, in front of the text behind it. No tile is empty, and a word is a
maximal run of those characters of words that no chain has taken up. -/
structure Tiles (text : List Char) (tiles : List Tile) (behind : List Char) : Prop where
  covers : text = tiles.flatMap Tile.text
  fits : Tile.ListFits behind tiles
  nonempty : ∀ tile ∈ tiles, tile.text ≠ []
  wholeWords : ∀ ahead word span later, tiles = ahead ++ .token (.word word) span :: later →
    ∀ c ∈ (ahead.flatMap Tile.text).getLast?, isWordChar c = true →
      ∃ chain stretch, ahead.getLast? = some (.token (.chain chain) stretch)

theorem Tile.ListFits.covering {tiles : List Tile} {behind : List Char}
    (fits : ListFits behind tiles) : Tiles (tiles.flatMap text) tiles behind where
  covers := rfl
  fits := fits
  nonempty := fits.text_ne_nil
  wholeWords := by
    rintro ahead word span later rfl c last letter
    exact fits.exists_chain_ahead last letter

section Tokenize

variable {text : String} {covered stuck : List Char} {tiles : List Tile}

theorem Tiles.tokenize_eq (covering : Tiles covered tiles stuck)
    (same : text.toList = covered ++ stuck) :
    tokenize text = (scan (.behind covered) 0 stuck).map (Tile.placed [] tiles ++ ·) := by
  rw [tokenize, same, covering.covers, ← Position.behind_nil]
  exact scan_listFits covering.fits []

theorem Tiles.tokenize_eq_ok (covering : Tiles text.toList tiles []) :
    tokenize text = .ok (Tile.placed [] tiles) := by
  rw [covering.tokenize_eq (List.append_nil _).symm]
  exact congrArg Except.ok (List.append_nil _)

theorem Tiles.tokenize_eq_error {why : SyntaxFault} (covering : Tiles covered tiles stuck)
    (same : text.toList = covered ++ stuck) (halts : Halts stuck why) :
    tokenize text = .error (.syntaxAt (.behind covered) why) := by
  obtain _ | ⟨c, rest⟩ := stuck
  · cases halts
  rw [covering.tokenize_eq same, scan, front_of_halts halts]
  rfl

theorem Tiles.tokenize_covered (covering : Tiles covered tiles stuck) :
    tokenize (String.ofList covered) = .ok (Tile.placed [] tiles) := by
  have fits : Tile.ListFits ([] ++ stuck) tiles := covering.fits
  have alone : Tiles covered tiles [] := covering.covers ▸ fits.truncated.covering
  rw [← String.toList_ofList (l := covered)] at alone
  exact alone.tokenize_eq_ok

theorem tiles_or_halts (text : List Char) :
    (∃ tiles, Tiles text tiles []) ∨
      ∃ covered stuck tiles why, text = covered ++ stuck ∧ Tiles covered tiles stuck ∧
        Halts stuck why := by
  obtain ⟨tiles, stuck, rfl, fits, rfl | ⟨why, halts⟩⟩ := exists_tiling text
  · refine .inl ⟨tiles, ?_⟩
    rw [List.append_nil]
    exact fits.covering
  · exact .inr ⟨_, stuck, tiles, why, rfl, fits.covering, halts⟩

theorem exists_tiles {tokens : List PlacedToken} (cut : tokenize text = .ok tokens) :
    ∃ tiles, Tiles text.toList tiles [] ∧ tokens = Tile.placed [] tiles := by
  rcases tiles_or_halts text.toList with ⟨tiles, covering⟩ |
    ⟨covered, stuck, tiles, why, same, covering, halts⟩
  · exact ⟨tiles, covering, Except.ok.inj (cut.symm.trans covering.tokenize_eq_ok)⟩
  · exact nomatch cut.symm.trans (covering.tokenize_eq_error same halts)

end Tokenize

theorem front_eq_countComments (rest : List Char) :
    countComments 0 ('(' :: '*' :: rest) ≠ .error .belowZero ∧
      front '(' ('*' :: rest) = match countComments 0 ('(' :: '*' :: rest) with
        | .ok length => .ok ⟨none, length⟩
        | .error _ => .error .unterminatedComment := by
  rw [countComments_comment, front_comment]
  cases commentLength 0 rest with
  | none => exact ⟨nofun, rfl⟩
  | some length => exact ⟨nofun, rfl⟩

/-- A text is cut into tokens exactly if it is tiled, and then by its tiles. Otherwise it is tiled
up to a place where it halts, which is the place that is reported, and what stands ahead of it is
cut into tokens by itself. The count of open comments never falls below zero. -/
theorem tokenize_tiled (text : String) :
    (∀ tokens, tokenize text = .ok tokens ↔
      ∃ tiles, Tiles text.toList tiles [] ∧ tokens = Tile.placed [] tiles) ∧
    (∀ fault, tokenize text = .error fault ↔
      ∃ covered stuck tiles why, text.toList = covered ++ stuck ∧ Tiles covered tiles stuck ∧
        Halts stuck why ∧ fault = .syntaxAt (.behind covered) why ∧
        tokenize (String.ofList covered) = .ok (Tile.placed [] tiles)) ∧
    ∀ rest, countComments 0 ('(' :: '*' :: rest) ≠ .error .belowZero ∧
      front '(' ('*' :: rest) = match countComments 0 ('(' :: '*' :: rest) with
        | .ok length => .ok ⟨none, length⟩
        | .error _ => .error .unterminatedComment := by
  refine ⟨fun tokens => ⟨fun cut => ?_, ?_⟩, fun fault => ⟨fun failed => ?_, ?_⟩,
    front_eq_countComments⟩
  · rcases tiles_or_halts text.toList with ⟨tiles, covering⟩ |
      ⟨covered, stuck, tiles, why, same, covering, halts⟩
    · exact ⟨tiles, covering, Except.ok.inj (cut.symm.trans covering.tokenize_eq_ok)⟩
    · exact nomatch cut.symm.trans (covering.tokenize_eq_error same halts)
  · rintro ⟨tiles, covering, rfl⟩
    exact covering.tokenize_eq_ok
  · rcases tiles_or_halts text.toList with ⟨tiles, covering⟩ |
      ⟨covered, stuck, tiles, why, same, covering, halts⟩
    · exact nomatch failed.symm.trans covering.tokenize_eq_ok
    · exact ⟨covered, stuck, tiles, why, same, covering, halts,
        Except.error.inj (failed.symm.trans (covering.tokenize_eq_error same halts)),
        covering.tokenize_covered⟩
  · rintro ⟨covered, stuck, tiles, why, same, covering, halts, rfl, _⟩
    exact covering.tokenize_eq_error same halts

example : tokenize "a (* b\n(* c *) *) .d 'e" = .ok
    [⟨.word "a", ⟨1, 1⟩⟩, ⟨.chain ".d", ⟨2, 12⟩⟩, ⟨.word "'e", ⟨2, 15⟩⟩] := by
  cbv

/-- A label takes no apostrophe, so a word that begins with one may stand directly behind a chain.
It is not a maximal run of characters of words then, wherever in the text it is looked for. -/
theorem word_behind_chain_not_maximal :
    tokenize ".d'e" = .ok [⟨.chain ".d", ⟨1, 1⟩⟩, ⟨.word "'e", ⟨1, 3⟩⟩] ∧
      ¬ ∃ ahead behind, ".d'e".toList = ahead ++ "'e".toList ++ behind ∧
        (∀ c ∈ ahead.getLast?, isWordChar c = false) ∧
        ∀ c ∈ behind.head?, isWordChar c = false := by
  refine ⟨rfl, ?_⟩
  rintro ⟨ahead, behind, whole, apart, _⟩
  change ['.', 'd', '\'', 'e'] = ahead ++ ['\'', 'e'] ++ behind at whole
  have lengths := congrArg List.length whole
  simp only [List.length_append, List.length_cons, List.length_nil] at lengths
  rcases ahead with _ | ⟨first, _ | ⟨second, _ | ⟨third, others⟩⟩⟩
  · simp at whole
  · simp at whole
  · obtain ⟨_, rfl, _⟩ : '.' = first ∧ 'd' = second ∧ [] = behind := by simpa using whole
    exact absurd (apart 'd' rfl) (by decide)
  · simp only [List.length_cons] at lengths
    omega

end Token

end SentenceGrammar
