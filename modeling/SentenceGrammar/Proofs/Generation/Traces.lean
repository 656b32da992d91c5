import Mathlib.Control.Monad.Basic
import SentenceGrammar.Proofs.Generation.Evaluation
import SentenceGrammar.Proofs.Generation.Faults
import SentenceGrammar.Proofs.Generation.Sessions
import SentenceGrammar.Proofs.Generation.Soundness
import SentenceGrammar.Proofs.GrammarText.RoundTrip

/-! What the log gives away. Every choice of an alternative and every choice of labels is logged,
and its record tells which one it was. So two generations that are logged alike come to the same
end, as long as no positional choice is made: those are not logged. -/

namespace SentenceGrammar

open Character Text

inductive Atom.Choiceless : Atom → Prop where
  | terminal (text : String) : Choiceless (.terminal text)
  | reference (symbol : Symbol) (chain : Chain) : Choiceless (.reference symbol chain)
  | group {alternatives : List Alternative} {chain : Chain}
    (inside : ∀ alternative ∈ alternatives, ∀ part ∈ alternative.parts, Choiceless part.atom) :
    Choiceless (.group alternatives chain)
  | epsilon : Choiceless .epsilon

def Grammar.Choiceless (grammar : Grammar) : Prop :=
  ∀ rule ∈ grammar.rules.list, Alternative.EachAtom Atom.Choiceless rule.alternatives

def Event.namesSeed : Event → Bool
  | seeded _ | started _ _ | generated _ => true
  | _ => false

/-- What the log shows of some events, without the records that name the seed. -/
def Event.records (events : List Event) : List LogRecord :=
  (events.filter fun event => !event.namesSeed).map Event.record

theorem Event.records_append (first second : List Event) :
    records (first ++ second) = records first ++ records second := by
  simp [records]

theorem Event.records_singleton {event : Event} (shown : event.namesSeed = false) :
    records [event] = [event.record] := by
  simp [records, shown]

def ActiveLabels.Selectable (active : ActiveLabels) : Prop :=
  ∀ label ∈ active.labels, label.Selectable

namespace ActiveLabels

variable {first second : ActiveLabels}

theorem splitAt_dotted {names : List (List Char)} (absent : ∀ name ∈ names, '.' ∉ name) :
    splitAt '.' (names.flatMap fun name => '.' :: name) = [] :: names := by
  induction names with
  | nil => rfl
  | cons name others ih =>
    obtain ⟨here, later⟩ := List.forall_mem_cons.mp absent
    have found := ih later
    rw [List.flatMap_cons, List.cons_append, splitAt, if_pos rfl]
    cases others with
    | nil => rw [List.flatMap_nil, List.append_nil, splitAt_of_notMem here]
    | cons second others =>
      rw [List.flatMap_cons, List.cons_append, splitAt, if_pos rfl] at found
      rw [List.flatMap_cons, List.cons_append, splitAt_append_cons here, (List.cons.inj found).2]

theorem toList_text_of_ne_nil {active : ActiveLabels} (some : active.labels ≠ []) :
    active.text.toList =
      (active.labels.map fun label => label.name.toList).flatMap fun name => '.' :: name := by
  simp [text, isNone, some, String.toList_join, List.flatMap_map]

/-- Labels that a chain can name are known from their written form. -/
theorem splitAt_text {active : ActiveLabels} (selectable : active.Selectable) :
    splitAt '.' active.text.toList =
      if active.labels = [] then ["none".toList]
      else [] :: active.labels.map fun label => label.name.toList := by
  split
  · rename_i none
    simp [text, isNone, none, splitAt]
  · rename_i some
    rw [toList_text_of_ne_nil some,
      splitAt_dotted (Chain.absent_of_selectable selectable (by decide))]

theorem eq_of_text_eq (selectable : first.Selectable) (selectableToo : second.Selectable)
    (same : first.text = second.text) : first = second := by
  have found := splitAt_text selectable
  rw [same, splitAt_text selectableToo] at found
  apply ActiveLabels.ext
  split at found <;> split at found
  · rename_i noneToo none
    rw [none, noneToo]
  · exact absurd (congrArg List.head? found) nofun
  · exact absurd (congrArg List.head? found) nofun
  · refine (List.map_inj_right fun label other named => ?_).mp (List.cons.inj found).2.symm
    exact congrArg Label.mk (String.toList_injective named)

theorem Selectable.leaves {chain : Chain} {active inner : ActiveLabels}
    (selectable : active.Selectable) (wellFormed : chain.WellFormed)
    (leaves : Chain.MayLeave chain active inner) : inner.Selectable := by
  induction leaves with
  | nil => exact selectable
  | reset => exact nofun
  | noLabel _ ih => exact ih selectable (Chain.wellFormed_cons.mp wellFormed).2
  | label _ chosen ih =>
    obtain ⟨here, later⟩ := Chain.wellFormed_cons.mp wellFormed
    intro label member
    rcases mem_insert.mp member with earlier | rfl
    · exact ih selectable later label earlier
    · exact here.2 label chosen

end ActiveLabels

variable {σ α β : Type}

namespace Expansion

/-- The events that an action adds to the log, oldest first. -/
def emitted (action : Expansion σ α) (run : Run σ) : List Event :=
  (finalRun (action run)).log.drop run.log.length

def Appends (action : Expansion σ α) : Prop :=
  ∀ run, (finalRun (action run)).log = run.log ++ action.emitted run

/-- An action whose outcome is known from what it adds to the log, even if more is added later. -/
def Tells (action : Expansion σ α) : Prop :=
  ∀ first second : Run σ, first.active = second.active → first.active.Selectable →
    ∀ later others : List LogRecord,
      Event.records (action.emitted first) ++ later =
          Event.records (action.emitted second) ++ others →
        (action.effect first).1 = (action.effect second).1 ∧ later = others

section Logged

variable {action : Expansion σ α} {next : α → Expansion σ β} {run : Run σ}

theorem emitted_eq {added : List Event}
    (logged : (finalRun (action run)).log = run.log ++ added) : action.emitted run = added := by
  rw [emitted, logged, List.drop_left]

theorem appends_of_log (added : Run σ → List Event)
    (logged : ∀ run, (finalRun (action run)).log = run.log ++ added run) : Appends action := by
  intro run
  rw [emitted_eq (logged run), logged run]

theorem log_note (run : Run σ) (event : Event) : (run.note event).log = run.log ++ [event] := by
  simp [Run.log, Run.note]

theorem log_bind (appends : Appends action)
    (following : ∀ result, Returns action result → Appends (next result)) (run : Run σ) :
    (finalRun ((action >>= next) run)).log = run.log ++ (action.emitted run ++
      match action run with
      | .ok result middle => (next result).emitted middle
      | .error _ _ => []) := by
  have before := appends run
  rw [bind_apply]
  cases outcome : action run with
  | ok result middle =>
    rw [outcome] at before
    have after := following result ⟨run, middle, outcome⟩ middle
    rw [finalRun] at before
    rw [← List.append_assoc, ← before, ← after]
  | error fault middle =>
    rw [outcome] at before
    simpa [finalRun] using before

theorem Appends.bind (appends : Appends action)
    (following : ∀ result, Returns action result → Appends (next result)) :
    Appends (action >>= next) :=
  appends_of_log _ (log_bind appends following)

theorem emitted_bind (appends : Appends action)
    (following : ∀ result, Returns action result → Appends (next result)) (run : Run σ) :
    (action >>= next).emitted run = action.emitted run ++
      match action run with
      | .ok result middle => (next result).emitted middle
      | .error _ _ => [] :=
  emitted_eq (log_bind appends following run)

theorem Tells.bind (tells : Tells action) (keeps : KeepsScopes action) (appends : Appends action)
    (following : ∀ result, Returns action result → Appends (next result))
    (tellsNext : ∀ run result middle, run.active.Selectable → action run = .ok result middle →
      Tells (next result)) : Tells (action >>= next) := by
  intro first second active selectable later others same
  rw [emitted_bind appends following, emitted_bind appends following, Event.records_append,
    Event.records_append, List.append_assoc, List.append_assoc] at same
  -- What comes first has had the same outcome in both runs, so what comes next is the same, too.
  obtain ⟨outcome, rest⟩ := tells first second active selectable _ _ same
  unfold effect at outcome ⊢
  rw [bind_apply, bind_apply]
  cases here : action first with
  | ok result middle =>
    cases there : action second with
    | ok result' middle' =>
      simp only [here, there, Except.ok.injEq] at outcome rest
      subst outcome
      have activeHere := keeps.active_eq here
      have activeThere := keeps.active_eq there
      have again : middle.active = middle'.active := by rw [activeHere, activeThere, active]
      exact tellsNext first result middle selectable here middle middle' again
        (activeHere ▸ selectable) later others rest
    | error fault middle' => simp [here, there] at outcome
  | error fault middle =>
    cases there : action second with
    | ok result' middle' => simp [here, there] at outcome
    | error fault' middle' =>
      simp only [here, there, Except.error.injEq] at outcome rest
      exact ⟨congrArg Except.error outcome, rest⟩

end Logged

/-- An action that keeps the scopes, only adds to the log, and is told by what it adds. -/
structure Traced (action : Expansion σ α) : Prop where
  keeps : KeepsScopes action
  appends : Appends action
  tells : Tells action

theorem Traced.bind {action : Expansion σ α} {next : α → Expansion σ β} (first : Traced action)
    (second : ∀ result, Returns action result → Traced (next result)) :
    Traced (action >>= next) where
  keeps := first.keeps.bind fun result returned => (second result returned).keeps
  appends := first.appends.bind fun result returned => (second result returned).appends
  tells := first.tells.bind first.keeps first.appends
    (fun result returned => (second result returned).appends)
    fun run result middle _ success => (second result ⟨run, middle, success⟩).tells

section Actions

/-- An action is told by what it adds to the log if runs with the same labels active get equally
many records, and its outcome is the same wherever the records are. -/
theorem traced_of_log {action : Expansion σ α} (keeps : KeepsScopes action)
    (added : Run σ → List Event)
    (logged : ∀ run, (finalRun (action run)).log = run.log ++ added run)
    (length : ∀ first second : Run σ, first.active = second.active →
      (Event.records (added first)).length = (Event.records (added second)).length)
    (told : ∀ first second : Run σ, first.active = second.active → first.active.Selectable →
      Event.records (added first) = Event.records (added second) →
        (action.effect first).1 = (action.effect second).1) : Traced action where
  keeps := keeps
  appends := appends_of_log added logged
  tells first second active selectable later others same := by
    rw [emitted_eq (logged first), emitted_eq (logged second)] at same
    obtain ⟨shown, rest⟩ := List.append_inj same (length first second active)
    exact ⟨told first second active selectable shown, rest⟩

theorem traced_pure (result : α) : Traced (pure result : Expansion σ α) :=
  traced_of_log (keepsScopes_pure result) (fun _ => []) (fun run => (List.append_nil run.log).symm)
    (fun _ _ _ => rfl) fun _ _ _ _ _ => rfl

theorem traced_throw (fault : ExpansionFault) : Traced (throw fault : Expansion σ α) :=
  traced_of_log (keepsScopes_throw fault) (fun _ => []) (fun run => (List.append_nil run.log).symm)
    (fun _ _ _ => rfl) fun _ _ _ _ _ => rfl

theorem traced_get_active {next : ActiveLabels → Expansion σ β}
    (continues : ∀ active, Traced (next active)) : Traced (get >>= fun run => next run.active) where
  keeps := keepsScopes_get.bind fun run _ => (continues run.active).keeps
  appends run := (continues run.active).appends run
  tells first second active := by
    change ∀ _, ∀ later others, Event.records ((next first.active).emitted first) ++ later =
      Event.records ((next second.active).emitted second) ++ others →
        ((next first.active).effect first).1 = ((next second.active).effect second).1 ∧ _
    rw [← active]
    exact (continues first.active).tells first second active

theorem emitted_within (active : ActiveLabels) (action : Expansion σ α) (run : Run σ) :
    emitted (Run.within active action) run = action.emitted (run.enter active) := by
  simp only [emitted, Run.within]
  cases action (run.enter active) <;> rfl

theorem appends_within {action : Expansion σ α} (appends : Appends action) (active : ActiveLabels) :
    Appends (Run.within active action) := by
  intro run
  have inside := appends (run.enter active)
  rw [emitted_within]
  unfold Run.within
  cases outcome : action (run.enter active) <;> (rw [outcome] at inside; exact inside)

theorem tells_within {action : Expansion σ α} (tells : Tells action) {active : ActiveLabels}
    (selectable : active.Selectable) : Tells (Run.within active action) := by
  intro first second _ _ later others same
  rw [emitted_within, emitted_within] at same
  rw [effect_within, effect_within]
  exact tells (first.enter active) (second.enter active) rfl selectable later others same

end Actions

variable [RandomSource σ]

def openChain (symbol : Symbol) (chain : Chain) : Expansion σ ActiveLabels := do
  let active ← modifyGet chain.resolve
  modify fun run => run.note (.opened symbol chain active)
  return active

theorem under_eq_openChain
    (openAlternatives : Symbol → List Alternative → Expansion σ (List Signal)) (symbol : Symbol)
    (alternatives : List Alternative) {chain : Chain} (some : chain.isEmpty = false) :
    Expansion.under openAlternatives symbol alternatives chain =
      openChain symbol chain >>= fun active =>
        Run.within active (openAlternatives symbol alternatives) := by
  simp [Expansion.under, openChain, some]

theorem log_openChain (symbol : Symbol) (chain : Chain) (run : Run σ) :
    (finalRun (openChain symbol chain run)).log =
      run.log ++ [.opened symbol chain (chain.resolve run).1] := by
  change ((chain.resolve run).2.note _).log = _
  rw [log_note, Chain.resolve, Chain.applyTo_run]
  rfl

theorem selectable_resolve {chain : Chain} (wellFormed : chain.WellFormed) {run : Run σ}
    (selectable : run.active.Selectable) : (chain.resolve run).1.Selectable :=
  selectable.leaves wellFormed (chain.mayLeave_applyTo run.active run)

theorem traced_openChain (symbol : Symbol) {chain : Chain} (wellFormed : chain.WellFormed) :
    Traced (openChain symbol chain : Expansion σ ActiveLabels) := by
  refine traced_of_log ?_ _ (log_openChain symbol chain) (fun _ _ _ => rfl) ?_
  · refine (keepsScopes_resolve chain).bind fun active _ => ?_
    exact (keepsScopes_note _).bind fun _ _ => keepsScopes_pure _
  intro first second active selectable same
  rw [Event.records_singleton rfl, Event.records_singleton rfl] at same
  have message := congrArg LogRecord.message (List.cons.inj same).1
  have written : (chain.resolve first).1.text = (chain.resolve second).1.text :=
    (String.append_right_inj _).mp message
  have resolved := ActiveLabels.eq_of_text_eq (selectable_resolve wellFormed selectable)
    (selectable_resolve wellFormed (active ▸ selectable)) written
  exact congrArg Except.ok resolved

theorem traced_under {openAlternatives : Symbol → List Alternative → Expansion σ (List Signal)}
    {symbol : Symbol} {alternatives : List Alternative} {chain : Chain}
    (wellFormed : chain.WellFormed) (opens : Traced (openAlternatives symbol alternatives)) :
    Traced (Expansion.under openAlternatives symbol alternatives chain) := by
  cases empty : chain.isEmpty with
  | true => rwa [Expansion.under, if_pos empty]
  | false =>
    have opening := traced_openChain (σ := σ) symbol wellFormed
    have appends : ∀ active, Appends (Run.within active (openAlternatives symbol alternatives)) :=
      appends_within opens.appends
    rw [under_eq_openChain _ _ _ empty]
    refine ⟨?_, opening.appends.bind fun active _ => appends active, ?_⟩
    · exact opening.keeps.bind fun active _ => opens.keeps.within active
    -- Only labels that a chain can name are told apart, so the run matters from which they come.
    refine opening.tells.bind opening.keeps opening.appends (fun active _ => appends active) ?_
    intro run active middle selectable opened
    cases opened
    exact tells_within opens.tells (selectable_resolve wellFormed selectable)

def pickEvent : (eligible : List Alternative) → Run σ → Event
  | [], run => .nothingEligible run.active
  | first :: others, run =>
    let chosen := (run.index others.length).1
    .picked ((first :: others).get chosen).label chosen (first :: others).length run.active

theorem log_pick (eligible : List Alternative) (run : Run σ) :
    (Run.pick eligible run).2.log = run.log ++ [pickEvent eligible run] := by
  cases eligible <;> exact log_note _ _

theorem namesSeed_pickEvent (eligible : List Alternative) (run : Run σ) :
    (pickEvent eligible run).namesSeed = false := by
  cases eligible <;> rfl

theorem eq_of_toString_eq {first second : Nat} (same : toString first = toString second) :
    first = second := by
  have digits : Nat.toDigits 10 first = Nat.toDigits 10 second := String.ofList_injective same
  have read := congrArg (Nat.ofDigitChars 10 · 0) digits
  have readBack : ∀ n : Nat, Nat.ofDigitChars 10 (Nat.toDigits 10 n) 0 = n :=
    fun _ => Nat.ofDigitChars_toDigits (by decide) (Nat.le_refl 10)
  rwa [readBack, readBack] at read

theorem pick_eq_of_record_eq (eligible : List Alternative) {first second : Run σ}
    (active : first.active = second.active)
    (same : (pickEvent eligible first).record = (pickEvent eligible second).record) :
    (Run.pick eligible first).1 = (Run.pick eligible second).1 := by
  cases eligible with
  | nil => rfl
  | cons option others =>
    have message : ∀ run : Run σ, (pickEvent (option :: others) run).record.message =
        "picked alternative " ++ toString (run.index others.length).1.val ++ " of " ++
          toString (option :: others).length ++ " under " ++ run.active.text := fun _ => rfl
    have told := congrArg LogRecord.message same
    rw [message, message, active, String.append_left_inj, String.append_left_inj,
      String.append_left_inj, String.append_left_inj, String.append_right_inj] at told
    exact congrArg some (Fin.ext (eq_of_toString_eq told))

theorem traced_chooseEligible (symbol : Symbol) (alternatives : List Alternative)
    (active : ActiveLabels) :
    Traced (Alternative.chooseEligible symbol alternatives active : Expansion σ Alternative) := by
  let eligible := Alternative.eligible active alternatives
  let offer : Event := .eligible symbol eligible.length alternatives.length
  have logged : ∀ run : Run σ, (Run.pick eligible (run.note offer)).2.log =
      run.log ++ [offer, pickEvent eligible (run.note offer)] := by
    intro run
    rw [log_pick, log_note, List.append_assoc, List.singleton_append]
  have shown : ∀ run : Run σ, Event.records [offer, pickEvent eligible (run.note offer)] =
      [offer.record, (pickEvent eligible (run.note offer)).record] := by
    intro run
    have appended := Event.records_append [offer] [pickEvent eligible (run.note offer)]
    rwa [Event.records_singleton rfl, Event.records_singleton (namesSeed_pickEvent _ _)] at appended
  refine traced_of_log ?_ _ logged (fun first second _ => by rw [shown, shown]; rfl) ?_
  · refine (keepsScopes_note fun _ => offer).bind fun _ _ => ?_
    exact (keepsScopes_modifyGet (Run.pick_keeps _)).bind fun _ _ => keepsScopes_pure _
  intro first second same _ records
  rw [shown, shown] at records
  have picked : (Run.pick eligible (first.note offer)).1 =
      (Run.pick eligible (second.note offer)).1 :=
    pick_eq_of_record_eq eligible same (List.cons.inj (List.cons.inj records).2).1
  exact congrArg (fun picked : Option (Fin eligible.length) =>
    Except.ok (picked.elim Alternative.nothing eligible.get)) picked

end Expansion

section Atoms

variable {grammar : Grammar} {atom : Atom} {alternatives : List Alternative} {chain : Chain}

theorem Atom.WellFormed.chained (wellFormed : atom.WellFormed)
    (opening : atom.opening grammar = some (alternatives, chain)) : chain.WellFormed := by
  cases wellFormed with
  | reference _ chained =>
    obtain ⟨_, _, same⟩ := Option.map_eq_some_iff.mp opening
    cases same
    exact chained
  | group _ _ _ _ chained =>
    cases opening
    exact chained
  | terminal | positional | epsilon => cases opening

theorem Grammar.eachAtom_choiceless (wellFormed : grammar.WellFormed)
    (choiceless : grammar.Choiceless) {symbol : Symbol}
    (defined : grammar.lookup symbol = some alternatives) :
    Alternative.EachAtom (fun atom => atom.WellFormed ∧ atom.Choiceless) alternatives := by
  have listed := Rules.mem_of_find defined
  intro alternative member part placed
  exact ⟨((wellFormed.ruled _ listed).each alternative member).inside part placed,
    choiceless _ listed alternative member part placed⟩

theorem Atom.hereditary_choiceless (wellFormed : grammar.WellFormed)
    (choiceless : grammar.Choiceless) :
    Atom.Hereditary grammar fun atom => atom.WellFormed ∧ atom.Choiceless where
  epsilon := ⟨.epsilon, .epsilon⟩
  choice holds := by cases holds.2
  opening {atom alternatives chain} holds opening := by
    cases atom with
    | reference symbol other =>
      obtain ⟨found, defined, same⟩ := Option.map_eq_some_iff.mp opening
      cases same
      exact grammar.eachAtom_choiceless wellFormed choiceless defined
    | group inner other =>
      cases opening
      obtain ⟨written, _⟩ := Atom.wellFormed_group.mp holds.1
      cases holds.2 with
      | group inside =>
        intro alternative member part placed
        exact ⟨(written.each alternative member).inside part placed,
          inside alternative member part placed⟩
    | terminal | positional | epsilon => cases opening

end Atoms

open Expansion

variable [RandomSource σ]

/-- Every step of an expansion is told by the log, if no positional choice is come to and all chains
can be written. -/
theorem Expansion.compatible_traced (grammar : Grammar) :
    Compatible grammar (fun atom => atom.WellFormed ∧ atom.Choiceless)
      fun _ (action : Expansion σ _) _ => Traced action where
  pure := traced_pure
  bind first second := first.bind second
  started := traced_of_log (keepsScopes_note _) (fun run => [.started grammar.start run.seed])
    (fun run => log_note _ _) (fun _ _ _ => rfl) fun _ _ _ _ _ => rfl
  index holds := by cases holds.2
  choose symbol alternatives := traced_get_active (traced_chooseEligible symbol alternatives)
  undefined _ _ := traced_get_active fun _ => traced_throw _
  under holds opening opens := traced_under (holds.1.chained opening) opens

/-- Let a grammar that was read from a text have no positional choices. Two generations under no
labels whose logs show the same, whatever seeds they name, have the same outcome: the same text or
the same fault. -/
theorem Grammar.generate_determined_by_log {text : String} {start : Symbol} {grammar : Grammar}
    (made : ofText text start = .ok grammar) (choiceless : grammar.Choiceless)
    (settings : Settings) :
    (∀ run : Run σ, (finalRun (grammar.generate settings run)).log =
      run.log ++ (grammar.generate settings).emitted run) ∧
    ∀ first second : Run σ, first.active = .none → second.active = .none →
      Event.records ((grammar.generate settings).emitted first) =
        Event.records ((grammar.generate settings).emitted second) →
      ((grammar.generate settings).effect first).1 =
        ((grammar.generate settings).effect second).1 := by
  have wellFormed := wellFormed_of_ofText made
  have traced : Traced (grammar.generate settings : Expansion σ String) := by
    refine (compatible_traced grammar).generate
      (Atom.hereditary_choiceless wellFormed choiceless) (fun _ _ => traced_throw _)
      (Nat.le_refl _) rfl ?_
    exact grammar.eachAtom_choiceless wellFormed choiceless grammar.lookup_start
  refine ⟨traced.appends, fun first second fresh freshToo same => ?_⟩
  have active : first.active = second.active := fresh.trans freshToo.symm
  have selectable : first.active.Selectable := by
    rw [fresh]
    exact nofun
  exact (traced.tells first second active selectable [] []
    (by rw [same])).1

def Grammar.chosenLabel : Grammar :=
  ⟨Rules.empty.insertAll [⟨⟨"A"⟩, [⟨some ⟨"x"⟩, [.spaced (.terminal "a")]⟩,
      ⟨some ⟨"y"⟩, [.spaced (.terminal "b")]⟩]⟩,
    ⟨⟨"S"⟩, [⟨none, [.spaced (.reference ⟨"A"⟩ [.anyOf [⟨"x"⟩, ⟨"y"⟩]])]⟩]⟩], ⟨"S"⟩, by decide⟩

def Run.onOnes : Run (Nat → UInt64) :=
  .onSource 7 fun _ => 1

/-- What both runs log behind the seed: the first label is activated, and the alternative with it is
picked. -/
def Grammar.chosenEvents : List Event :=
  [.eligible ⟨"S"⟩ 1 1, .picked none 0 1 .none,
    .opened ⟨"A"⟩ [.anyOf [⟨"x"⟩, ⟨"y"⟩]] (.ofList [⟨"x"⟩]), .eligible ⟨"A"⟩ 1 2,
    .picked (some ⟨"x"⟩) 0 1 (.ofList [⟨"x"⟩])]

theorem Grammar.choiceless_chosenLabel : chosenLabel.Choiceless := by
  have terminal : ∀ text, ∀ part ∈ [Part.spaced (.terminal text)], part.atom.Choiceless :=
    fun text => List.forall_mem_singleton.mpr (.terminal text)
  have reference : ∀ symbol chain, ∀ part ∈ [Part.spaced (.reference symbol chain)],
      part.atom.Choiceless :=
    fun symbol chain => List.forall_mem_singleton.mpr (.reference symbol chain)
  refine List.forall_mem_cons.mpr ⟨?_, List.forall_mem_singleton.mpr ?_⟩
  · exact List.forall_mem_cons.mpr ⟨terminal _, List.forall_mem_singleton.mpr (terminal _)⟩
  · exact List.forall_mem_singleton.mpr (reference _ _)

theorem Grammar.generate_determined_by_log_chosenLabel :
    ofText "S::=A.(x|y);A::=x:a|y:b;" ⟨"S"⟩ = .ok chosenLabel ∧ chosenLabel.Choiceless ∧
      Run.onZeros.active = .none ∧ Run.onOnes.active = .none ∧
      Event.records ((chosenLabel.generate .standard).emitted Run.onZeros) =
        Event.records ((chosenLabel.generate .standard).emitted Run.onOnes) ∧
      ((chosenLabel.generate .standard).effect Run.onZeros).1 =
        ((chosenLabel.generate .standard).effect Run.onOnes).1 := by
  have made : ofText "S::=A.(x|y);A::=x:a|y:b;" ⟨"S"⟩ = .ok chosenLabel := by
    decide +kernel
  have same : Event.records ((chosenLabel.generate .standard).emitted Run.onZeros) =
      Event.records ((chosenLabel.generate .standard).emitted Run.onOnes) := by
    have zeros : (chosenLabel.generate .standard).emitted Run.onZeros =
        .started ⟨"S"⟩ 0 :: chosenEvents := by
      rw [generate_eq_expandAdmitted]
      rfl
    have ones : (chosenLabel.generate .standard).emitted Run.onOnes =
        .started ⟨"S"⟩ 7 :: chosenEvents := by
      rw [generate_eq_expandAdmitted]
      rfl
    rw [zeros, ones]
    rfl
  exact ⟨made, choiceless_chosenLabel, rfl, rfl, same,
    (generate_determined_by_log made choiceless_chosenLabel .standard).2 Run.onZeros Run.onOnes rfl
      rfl same⟩

end SentenceGrammar
