import SentenceGrammar.Text.Joining

/-! The text that signals are joined to. Between one word and the next there may be glues and empty
words. All that such a pause does is to decide whether a space stands there, and ahead of the first
word and behind the last one it does nothing. -/

namespace SentenceGrammar

def Signal.change (signals : List Signal) (line : Line) : Line :=
  signals.foldl Line.receive line

@[simp] theorem Signal.change_nil : Signal.change [] = id := rfl

theorem Signal.change_append (first later : List Signal) :
    Signal.change (first ++ later) = Signal.change later ∘ Signal.change first := by
  funext line
  exact List.foldl_append

def Signal.IsSilent (signal : Signal) : Prop :=
  signal = .glue ∨ signal = .word ""

structure Pause where
  signals : List Signal
  silent : ∀ signal ∈ signals, signal.IsSilent

/-- What a pause puts between two words: nothing if there is a glue in it, and otherwise a space. -/
def Pause.separator (pause : Pause) : String :=
  if .glue ∈ pause.signals then "" else " "

/-- A word that is not empty, with the pause behind it. -/
structure Spoken where
  word : String
  nonempty : word ≠ ""
  pause : Pause

namespace Spoken

def signals (spoken : Spoken) : List Signal :=
  .word spoken.word :: spoken.pause.signals

def text : List Spoken → String
  | [] => ""
  | [last] => last.word
  | first :: second :: rest => first.word ++ first.pause.separator ++ text (second :: rest)

def textAfter (separator : String) : List Spoken → String
  | [] => ""
  | first :: rest => separator ++ text (first :: rest)

theorem text_cons (first : Spoken) (rest : List Spoken) :
    text (first :: rest) = first.word ++ textAfter first.pause.separator rest := by
  cases rest with
  | nil => exact (String.append_empty).symm
  | cons second rest => exact String.append_assoc

end Spoken

namespace Line

def separator (line : Line) : String :=
  if line.text = "" ∨ line.glued = true then "" else " "

theorem push_eq (line : Line) {word : String} (nonempty : word ≠ "") :
    line.push word = ⟨line.text ++ (line.separator ++ word), false⟩ := by
  unfold push separator
  by_cases first : line.text = ""
  · simp [nonempty, first]
  · cases line.glued <;> simp [nonempty, first, String.append_assoc]

end Line

namespace Signal

/-- The pending glue tells whether there has been one in the pause since the last word. -/
theorem change_pause (pause : Pause) (line : Line) :
    change pause.signals line = ⟨line.text, line.glued || decide (.glue ∈ pause.signals)⟩ := by
  obtain ⟨signals, silent⟩ := pause
  induction signals generalizing line with
  | nil => simp
  | cons signal rest ih =>
    obtain ⟨here, later⟩ := List.forall_mem_cons.mp silent
    have after : change (signal :: rest) line = change rest (line.receive signal) := rfl
    rw [after, ih (line.receive signal) later]
    rcases here with rfl | rfl
    · simp [Line.receive, Line.glue]
    · simp [Line.receive]

theorem change_spoken (spoken : Spoken) (line : Line) :
    (change spoken.signals line).text = line.text ++ (line.separator ++ spoken.word) ∧
      (change spoken.signals line).separator = spoken.pause.separator := by
  have after : change spoken.signals line =
      change spoken.pause.signals (line.push spoken.word) := rfl
  rw [after, change_pause, line.push_eq spoken.nonempty]
  refine ⟨rfl, ?_⟩
  simp [Line.separator, Pause.separator, spoken.nonempty]

theorem text_change_spoken (spoken : List Spoken) (line : Line) :
    (change (spoken.flatMap Spoken.signals) line).text =
      line.text ++ Spoken.textAfter line.separator spoken := by
  induction spoken generalizing line with
  | nil => exact String.append_empty.symm
  | cons first rest ih =>
    obtain ⟨said, separates⟩ := change_spoken first line
    rw [List.flatMap_cons, change_append, Function.comp_apply, ih, said, separates,
      Spoken.textAfter, Spoken.text_cons, String.append_assoc, String.append_assoc]

theorem join_append (first later : List Signal) :
    join (first ++ later) = (change later (change first .blank)).text := by
  exact congrArg Line.text (congrFun (change_append first later) .blank)

theorem join_spoken (lead : Pause) (spoken : List Spoken) :
    join (lead.signals ++ spoken.flatMap Spoken.signals) = Spoken.text spoken := by
  rw [join_append, text_change_spoken, change_pause]
  cases spoken with
  | nil => rfl
  | cons first rest => simp [Spoken.textAfter, Line.separator, Line.blank]

theorem join_empty_word (before after : List Signal) :
    join (before ++ .word "" :: after) = join (before ++ after) := by
  rw [join_append, join_append]
  rfl

theorem exists_spoken (signals : List Signal) :
    ∃ (lead : Pause) (spoken : List Spoken),
      signals = lead.signals ++ spoken.flatMap Spoken.signals := by
  induction signals with
  | nil => exact ⟨⟨[], List.forall_mem_nil _⟩, [], rfl⟩
  | cons signal rest ih =>
    obtain ⟨lead, spoken, rfl⟩ := ih
    by_cases silent : signal.IsSilent
    · exact ⟨⟨signal :: lead.signals, List.forall_mem_cons.mpr ⟨silent, lead.silent⟩⟩, spoken, rfl⟩
    · cases signal with
      | glue => exact absurd (.inl rfl) silent
      | word text =>
        have nonempty : text ≠ "" := by
          rintro rfl
          exact silent (.inr rfl)
        exact ⟨⟨[], List.forall_mem_nil _⟩, ⟨text, nonempty, lead⟩ :: spoken, rfl⟩

theorem join_between (lead trail : Pause) (signals : List Signal) :
    join (lead.signals ++ signals ++ trail.signals) = join signals := by
  obtain ⟨first, spoken, rfl⟩ := exists_spoken signals
  have longer := join_spoken ⟨lead.signals ++ first.signals,
    List.forall_mem_append.mpr ⟨lead.silent, first.silent⟩⟩ spoken
  rw [List.append_assoc] at longer
  rw [join_spoken, join_append, change_pause]
  exact longer

theorem join_glued (before : List Signal) (pause : Pause) (word : String) :
    join (before ++ .glue :: (pause.signals ++ [.word word])) = join before ++ word := by
  have glued : change (.glue :: (pause.signals ++ [.word word])) (change before .blank) =
      (change pause.signals (change before .blank).glue).push word := by
    exact congrFun (change_append pause.signals [.word word]) _
  rw [join_append, glued, change_pause, Line.text_glue, Line.glued_glue, Bool.true_or]
  by_cases empty : word = ""
  · rw [empty, Line.push_empty]
    exact String.append_empty.symm
  · rw [Line.push_eq _ empty, Line.separator, if_pos (.inr rfl), String.empty_append]
    rfl

end Signal

end SentenceGrammar
