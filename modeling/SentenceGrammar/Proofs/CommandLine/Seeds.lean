import SentenceGrammar.CommandLine.Transcript

/-! Runs with a given seed. A run loads its files and then generates once for each of as many
consecutive seeds as it is asked for; no generation leaves anything behind for the next one. So a
run is the same as a shorter one that is followed by a run from the seed at which the shorter one
ends. -/

namespace SentenceGrammar.CommandLine

namespace Report

def nothing : Report :=
  ⟨[], [], none⟩

/-- One course after another one, which does not begin if the first one fails. -/
def followedBy (first second : Report) : Report :=
  match first.fault with
  | none => ⟨first.printed ++ second.printed, first.logged ++ second.logged, second.fault⟩
  | some _ => first

/-- Several courses one after the other, up to the first one that fails. -/
def inTurn (reports : List Report) : Report :=
  reports.foldr followedBy nothing

theorem exitCode_eq_zero_iff {report : Report} : report.exitCode = 0 ↔ report.fault = none := by
  rw [exitCode]
  cases report.fault with
  | none => exact ⟨fun _ => rfl, fun _ => rfl⟩
  | some fault => exact ⟨nofun, nofun⟩

theorem output_append (first second : Report) {logged : List LogRecord} {fault : Option Fault} :
    output ⟨first.printed ++ second.printed, logged, fault⟩ = first.output ++ second.output := by
  rw [output, List.map_append, String.join_append, output, output]

theorem followedBy_of_done {first : Report} (done : first.fault = none) (second : Report) :
    first.followedBy second =
      ⟨first.printed ++ second.printed, first.logged ++ second.logged, second.fault⟩ := by
  rw [followedBy, done]

theorem followedBy_of_failed {first : Report} (failed : first.fault ≠ none) (second : Report) :
    first.followedBy second = first := by
  obtain ⟨fault, failed⟩ := Option.ne_none_iff_exists'.mp failed
  rw [followedBy, failed]

theorem outcome_followedBy (first second : Report) :
    if first.exitCode = 0 then
      (first.followedBy second).output = first.output ++ second.output ∧
        (first.followedBy second).exitCode = second.exitCode ∧
        (first.followedBy second).fault = second.fault
    else first.followedBy second = first := by
  split
  case isTrue done =>
    rw [followedBy_of_done (exitCode_eq_zero_iff.mp done)]
    exact ⟨output_append first second, rfl, rfl⟩
  case isFalse failed =>
    exact followedBy_of_failed (mt exitCode_eq_zero_iff.mpr failed) second

theorem followedBy_assoc (first second third : Report) :
    (first.followedBy second).followedBy third = first.followedBy (second.followedBy third) := by
  by_cases begun : first.fault = none
  · rw [followedBy_of_done begun, followedBy_of_done begun]
    have same : (mk (first.printed ++ second.printed) (first.logged ++ second.logged)
        second.fault).fault = second.fault := rfl
    by_cases middle : second.fault = none
    · rw [followedBy_of_done middle, followedBy_of_done (same.trans middle)]
      simp only [List.append_assoc]
    · rw [followedBy_of_failed middle, followedBy_of_failed (same ▸ middle)]
  · simp only [followedBy_of_failed begun]

theorem inTurn_append (first second : List Report) :
    inTurn (first ++ second) = (inTurn first).followedBy (inTurn second) := by
  induction first with
  | nil => rfl
  | cons report rest ih =>
    calc inTurn (report :: rest ++ second)
      _ = report.followedBy (inTurn (rest ++ second)) := rfl
      _ = report.followedBy ((inTurn rest).followedBy (inTurn second)) := by rw [ih]
      _ = (inTurn (report :: rest)).followedBy (inTurn second) := (followedBy_assoc _ _ _).symm

/-- A report of a course that either does its work and prints one line, or fails and prints none. -/
def PrintsOne (report : Report) : Prop :=
  (∃ line, report.printed = [line] ∧ report.fault = none) ∨
    (report.printed = [] ∧ report.fault ≠ none)

theorem exists_of_printed_inTurn {reports : List Report}
    (single : ∀ report ∈ reports, report.PrintsOne) {place : Nat} {line : String}
    (printed : (inTurn reports).printed[place]? = some line) :
    ∃ report, reports[place]? = some report ∧ report.printed = [line] := by
  induction reports generalizing place with
  | nil => cases printed
  | cons report rest ih =>
    have later : ∀ other ∈ rest, other.PrintsOne :=
      fun other among => single other (List.mem_cons_of_mem _ among)
    change (report.followedBy (inTurn rest)).printed[place]? = some line at printed
    rcases single report List.mem_cons_self with ⟨own, prints, done⟩ | ⟨silent, failed⟩
    · rw [followedBy_of_done done, prints, List.singleton_append] at printed
      cases place with
      | zero => exact ⟨report, rfl, by rw [prints, ← Option.some.inj printed]⟩
      | succ place => exact ih later printed
    · rw [followedBy_of_failed failed, silent] at printed
      cases printed

/-- Either all such courses do their work, or those before the first failing one have printed all
the lines. -/
theorem inTurn_cases {reports : List Report} (single : ∀ report ∈ reports, report.PrintsOne) :
    ((inTurn reports).fault = none ∧ (inTurn reports).printed.length = reports.length) ∨
      ((inTurn reports).fault ≠ none ∧ ∃ made < reports.length,
        (inTurn (reports.take made)).fault = none ∧
        (inTurn (reports.take made)).printed = (inTurn reports).printed ∧
        (inTurn reports).printed.length = made) := by
  induction reports with
  | nil => exact .inl ⟨rfl, rfl⟩
  | cons report rest ih =>
    have later := ih fun other among => single other (List.mem_cons_of_mem _ among)
    have unfolds : ∀ others, inTurn (report :: others) = report.followedBy (inTurn others) :=
      fun others => rfl
    rcases single report List.mem_cons_self with ⟨own, prints, done⟩ | ⟨silent, failed⟩
    · simp only [unfolds, followedBy_of_done done, prints, List.singleton_append, List.length_cons]
      rcases later with ⟨done, all⟩ | ⟨failed, made, less, before, same, length⟩
      · exact .inl ⟨done, by rw [all]⟩
      · refine .inr ⟨failed, made + 1, Nat.succ_lt_succ less, ?_⟩
        rw [List.take_succ_cons, unfolds, followedBy_of_done done, prints]
        exact ⟨before, by rw [same]; rfl, by rw [length]⟩
    · rw [unfolds, followedBy_of_failed failed, silent]
      exact .inr ⟨failed, 0, Nat.succ_pos _, rfl, rfl, rfl⟩

def consecutive (logged : List LogRecord) (one : UInt64 → Report) (seed : UInt64) (count : Nat) :
    Report :=
  followedBy ⟨[], logged, none⟩
    (inTurn ((List.range count).map fun place => one (seed + UInt64.ofNat place)))

variable {logged : List LogRecord} {one : UInt64 → Report}

theorem consecutive_add (logged : List LogRecord) (one : UInt64 → Report) (seed : UInt64)
    (first later : Nat) :
    consecutive logged one seed (first + later) = (consecutive logged one seed first).followedBy
      (inTurn ((List.range later).map fun place =>
        one (seed + UInt64.ofNat first + UInt64.ofNat place))) := by
  rw [consecutive, List.range_add, List.map_append, inTurn_append, ← followedBy_assoc, consecutive,
    List.map_map]
  congr 3
  funext place
  rw [Function.comp_apply, UInt64.ofNat_add, UInt64.add_assoc]

section Single

variable (single : ∀ seed, (one seed).PrintsOne)
include single

theorem forall_printsOne (seed : UInt64) (count : Nat) :
    ∀ report ∈ (List.range count).map fun place => one (seed + UInt64.ofNat place),
      report.PrintsOne :=
  List.forall_mem_map.mpr fun place _ => single (seed + UInt64.ofNat place)

theorem printed_of_consecutive {seed : UInt64} {count place : Nat} {line : String}
    (printed : (consecutive logged one seed count).printed[place]? = some line) :
    (one (seed + UInt64.ofNat place)).printed = [line] := by
  obtain ⟨report, found, prints⟩ :=
    exists_of_printed_inTurn (forall_printsOne single seed count) printed
  obtain ⟨less, rfl⟩ := List.getElem?_eq_some_iff.mp found
  rwa [List.getElem_map, List.getElem_range] at prints

theorem consecutive_cases (logged : List LogRecord) (seed : UInt64) (count : Nat) :
    ((consecutive logged one seed count).fault = none ∧
      (consecutive logged one seed count).printed.length = count) ∨
    ((consecutive logged one seed count).fault ≠ none ∧ ∃ made < count,
      (consecutive logged one seed made).fault = none ∧
      (consecutive logged one seed made).printed = (consecutive logged one seed count).printed ∧
      (consecutive logged one seed count).printed.length = made) := by
  have all := inTurn_cases (forall_printsOne single seed count)
  rw [List.length_map, List.length_range] at all
  rcases all with done | ⟨failed, made, less, first⟩
  · exact .inl done
  · rw [← List.map_take, List.take_range, Nat.min_eq_left (Nat.le_of_lt less)] at first
    exact .inr ⟨failed, made, less, first⟩

theorem exists_text_consecutive (logged : List LogRecord) :
    ∃ text : UInt64 → String, ∀ (seed : UInt64) (count : Nat),
      let all := consecutive logged one seed count
      (∀ place line, all.printed[place]? = some line →
        line = text (seed + UInt64.ofNat place)) ∧
      (all.exitCode = 0 → all.printed.length = count) ∧
      (all.fault ≠ none → ∃ made < count,
        let before := consecutive logged one seed made
        before.exitCode = 0 ∧ before.printed = all.printed ∧ all.printed.length = made) := by
  refine ⟨fun seed => (one seed).printed.headD "", fun seed count => ?_⟩
  refine ⟨fun place line printed => ?_, fun done => ?_, fun failed => ?_⟩
  · have prints := printed_of_consecutive single printed
    simp only [prints, List.headD_cons]
  · rcases consecutive_cases single logged seed count with all | some
    · exact all.2
    · exact absurd (exitCode_eq_zero_iff.mp done) some.1
  · rcases consecutive_cases single logged seed count with all | some
    · exact absurd all.1 failed
    · obtain ⟨-, made, less, done, same, length⟩ := some
      exact ⟨made, less, exitCode_eq_zero_iff.mpr done, same, length⟩

end Single

end Report

namespace Options

def shown (options : Options) (events : List Event) : List LogRecord :=
  (events.filter fun event => options.shows event.level).map Event.record

theorem shown_cons (options : Options) (event : Event) (later : List Event) :
    options.shown (event :: later) =
      if options.shows event.level then event.record :: options.shown later
      else options.shown later := by
  rw [shown, List.filter_cons, shown]
  split <;> rfl

theorem report_logAll (options : Options) (events : List Event) (later : Transcript) :
    (options.logAll events later).report =
      Report.followedBy ⟨[], options.shown events, none⟩ later.report := by
  induction events with
  | nil => rfl
  | cons event rest ih =>
    rw [logAll, shown_cons]
    split
    · rw [Transcript.report, ih]
      rfl
    · exact ih

def generation (options : Options) (grammar : Grammar) (settings : Settings) (seed : UInt64) :
    Report :=
  match grammar.generate settings (Run.ofSeed seed) with
  | .ok text run =>
    ⟨[options.line seed text], options.shown run.log ++ options.shown [.generated seed], none⟩
  | .error fault run => ⟨[], options.shown run.log, some (.expansion fault)⟩

theorem report_generations (options : Options) (entropy : UInt64) (grammar : Grammar)
    (settings : Settings) (count index : Nat) :
    (options.generations entropy grammar settings count index).report =
      Report.inTurn ((List.range' index count).map fun place =>
        options.generation grammar settings (options.seedAt entropy place)) := by
  induction count generalizing index with
  | zero => rfl
  | succ count ih =>
    rw [List.range'_succ, List.map_cons, Report.inTurn, List.foldr_cons, ← Report.inTurn, ← ih,
      generations, generation]
    cases grammar.generate settings (Run.ofSeed (options.seedAt entropy index)) with
    | error fault run => simp only [report_logAll, Transcript.report, Report.followedBy,
        List.append_nil]
    | ok text run =>
      simp only [report_logAll, Transcript.report, Report.followedBy, List.append_assoc]
      rfl

def seeded (options : Options) (seed : UInt64) (count : Nat) : Options :=
  { options with seed := some seed, count := count, dumpJson := false }

def seededReport (options : Options) (files : String → Except FileFault String) (entropy : UInt64)
    (seed : UInt64) (count : Nat) : Report :=
  ((options.seeded seed count).transcript entropy files).report

/-- What a run does before it generates: it fails, or it has a grammar and settings to generate
with. Either way something may have been logged. -/
def load (options : Options) (files : String → Except FileFault String) :
    Except (List LogRecord × Fault) (List LogRecord × Grammar × Settings) :=
  match options.settings files, files options.grammarFile with
  | .error fault, _ => .error ([], fault)
  | .ok _, .error fault => .error ([], .file fault)
  | .ok settings, .ok text =>
    let reading := GrammarReading.ofText text ⟨options.start⟩
    match reading.result with
    | .error fault => .error (options.shown reading.events, .grammarText fault)
    | .ok grammar =>
      .ok (options.shown reading.events ++
        (options.shown [.loaded grammar.nonTerminals.length options.grammarFile] ++
          options.shown (grammar.undefinedSymbols.map .undefinedReference)), grammar, settings)

theorem settings_ne_expansion (options : Options) (files : String → Except FileFault String)
    (fault : ExpansionFault) : options.settings files ≠ .error (.expansion fault) := by
  intro failed
  unfold settings at failed
  cases configured : options.config with
  | none =>
    rw [configured] at failed
    cases failed
  | some name =>
    rw [configured] at failed
    cases opened : files name with
    | error unread =>
      have read : (files name).mapError Fault.file = .error (.file unread) := by
        rw [opened]
        rfl
      simp only [read, bind, Except.bind] at failed
      cases failed
    | ok text =>
      have read : (files name).mapError Fault.file = .ok text := by
        rw [opened]
        rfl
      simp only [read, bind, Except.bind] at failed
      cases understood : Settings.ofJsonText text <;>
        · rw [understood] at failed
          cases failed

theorem load_ne_expansion (options : Options) (files : String → Except FileFault String)
    (logged : List LogRecord) (fault : ExpansionFault) :
    options.load files ≠ .error (logged, .expansion fault) := by
  intro failed
  rw [load] at failed
  split at failed
  · rename_i fault' failing
    cases failed
    exact options.settings_ne_expansion files fault failing
  · cases failed
  · simp only at failed
    split at failed <;> cases failed

theorem seededReport_eq (options : Options) (files : String → Except FileFault String)
    (entropy : UInt64) (seed : UInt64) (count : Nat) :
    options.seededReport files entropy seed count =
      match options.load files with
      | .error (logged, fault) => ⟨[], logged, some fault⟩
      | .ok (logged, grammar, settings) =>
        .consecutive logged (options.generation grammar settings) seed count := by
  have same : (options.seeded seed count).settings files = options.settings files := rfl
  have file : (options.seeded seed count).grammarFile = options.grammarFile := rfl
  have start : (options.seeded seed count).start = options.start := rfl
  rw [seededReport, transcript, load, same, file, start]
  cases options.settings files with
  | error fault => rfl
  | ok settings =>
    cases files options.grammarFile with
    | error fault => rfl
    | ok text =>
      simp only [report_logAll]
      cases (GrammarReading.ofText text ⟨options.start⟩).result with
      | error fault =>
        simp only [Transcript.report, Report.followedBy, List.append_nil]
        rfl
      | ok grammar =>
        have plain : ¬ (options.seeded seed count).dumpJson = true := Bool.false_ne_true
        simp only [report_logAll, if_neg plain, report_generations, ← List.range_eq_range',
          Report.consecutive, Report.followedBy, List.nil_append, List.append_assoc]
        rfl

theorem generation_printsOne (options : Options) (grammar : Grammar) (settings : Settings)
    (seed : UInt64) : (options.generation grammar settings seed).PrintsOne := by
  rw [generation]
  cases grammar.generate settings (Run.ofSeed seed) with
  | ok text run => exact .inl ⟨_, rfl, rfl⟩
  | error fault run => exact .inr ⟨rfl, Option.some_ne_none _⟩

/-- A run for a number of consecutive seeds prints what a run for the first of them prints, and
then, if that one ends without a fault, what a run for the others prints; it ends as the last of
these runs does. Each line is a function of its seed. A run in which a generation fails has printed
the lines of the generations before. -/
theorem seededReport_add (options : Options) (files : String → Except FileFault String) :
    (∀ (seed : UInt64) (first later : Nat) (entropy entropy₁ entropy₂ : UInt64),
      let whole := options.seededReport files entropy seed (first + later)
      let begun := options.seededReport files entropy₁ seed first
      let rest := options.seededReport files entropy₂ (seed + UInt64.ofNat first) later
      if begun.exitCode = 0 then
        whole.output = begun.output ++ rest.output ∧ whole.exitCode = rest.exitCode ∧
          whole.fault = rest.fault
      else whole = begun) ∧
    ∃ text : UInt64 → String, ∀ (seed : UInt64) (count : Nat) (entropy : UInt64),
      let run := options.seededReport files entropy seed count
      (∀ place line, run.printed[place]? = some line →
        line = text (seed + UInt64.ofNat place)) ∧
      (run.exitCode = 0 → run.printed.length = count) ∧
      ∀ fault, run.fault = some (.expansion fault) → ∃ made < count, ∀ entropy₁,
        let before := options.seededReport files entropy₁ seed made
        before.exitCode = 0 ∧ before.printed = run.printed ∧ run.printed.length = made := by
  cases loading : options.load files with
  | error failure =>
    obtain ⟨logged, fault⟩ := failure
    have course : ∀ entropy seed count, options.seededReport files entropy seed count =
        ⟨[], logged, some fault⟩ := fun _ _ _ => by rw [seededReport_eq, loading]
    simp only [course]
    refine ⟨fun _ _ _ _ _ _ => ?_, fun _ => "",
      fun _ _ _ => ⟨nofun, nofun, fun expansion failed => ?_⟩⟩
    · have failing : Report.exitCode ⟨[], logged, some fault⟩ ≠ 0 := Nat.one_ne_zero
      rw [if_neg failing]
      trivial
    · cases failed
      exact (options.load_ne_expansion files logged expansion loading).elim
  | ok loaded =>
    obtain ⟨logged, grammar, settings⟩ := loaded
    have course : ∀ entropy seed count, options.seededReport files entropy seed count =
        .consecutive logged (options.generation grammar settings) seed count :=
      fun _ _ _ => by rw [seededReport_eq, loading]
    simp only [course]
    obtain ⟨text, texts⟩ :=
      Report.exists_text_consecutive (options.generation_printsOne grammar settings) logged
    refine ⟨fun seed first later _ _ _ => ?_, text, fun seed count _ => ?_⟩
    · rw [Report.consecutive_add]
      exact Report.outcome_followedBy _ _
    · obtain ⟨lines, all, part⟩ := texts seed count
      refine ⟨lines, all, fun fault failed => ?_⟩
      obtain ⟨made, less, before⟩ := part (failed ▸ Option.some_ne_none _)
      exact ⟨made, less, fun _ => before⟩

end Options

end SentenceGrammar.CommandLine
