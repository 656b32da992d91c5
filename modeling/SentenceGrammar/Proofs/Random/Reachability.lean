import SentenceGrammar.Random.Source

/-! Every number in range is drawn from some sequence of words, whatever words follow it. A single
draw suffices: the least draw that stands for the number is never rejected. -/

namespace SentenceGrammar.RandomSource

attribute [local instance (high)] instPowNat

def consWord (word : UInt64) (rest : Nat → UInt64) : Nat → UInt64
  | 0 => word
  | index + 1 => rest index

@[simp] theorem next_consWord (word : UInt64) (rest : Nat → UInt64) :
    next (consWord word rest) = (word, rest) := rfl

theorem exists_drawWords (count : Nat) {drawn : Nat} (small : drawn < 2 ^ (64 * count))
    (rest : Nat → UInt64) : ∃ words, drawWords count words = (drawn, rest) := by
  induction count generalizing drawn with
  | zero =>
    have zero : drawn = 0 := by simpa using small
    exact ⟨rest, by simp [drawWords, zero]⟩
  | succ count ih =>
    have higher : drawn / 2 ^ 64 < 2 ^ (64 * count) := by
      rw [Nat.div_lt_iff_lt_mul (Nat.two_pow_pos 64), ← Nat.pow_add]
      rwa [Nat.mul_succ] at small
    obtain ⟨words, drawsHigher⟩ := ih higher
    refine ⟨consWord (UInt64.ofNat (drawn % 2 ^ 64)) words, ?_⟩
    have lowest : (UInt64.ofNat (drawn % 2 ^ 64)).toNat = drawn % 2 ^ 64 :=
      UInt64.toNat_ofNat_of_lt' (Nat.mod_lt _ (Nat.two_pow_pos 64))
    simp only [drawWords, next_consWord, drawsHigher, lowest, Nat.mod_add_div]

theorem le_two_pow_drawBits (n : Nat) : n ≤ 2 ^ drawBits n := by
  have below : n - 1 < 2 ^ ((n - 1).log2 + 1) := Nat.lt_log2_self
  have wider : 2 ^ ((n - 1).log2 + 1) ≤ 2 ^ drawBits n := by
    apply Nat.pow_le_pow_right (by decide)
    unfold drawBits
    omega
  omega

/-- The least draw that stands for a number leaves a remainder below `n`. -/
theorem exists_draw_eq {n value : Nat} (below : value < n) :
    ∃ drawn < 2 ^ drawBits n, ∃ remainder < n, drawn * n = value * 2 ^ drawBits n + remainder := by
  have range := le_two_pow_drawBits n
  generalize 2 ^ drawBits n = bound at range
  refine ⟨(value * bound + (n - 1)) / n, ?_, ?_⟩
  · rw [Nat.div_lt_iff_lt_mul (by omega)]
    calc value * bound + (n - 1)
      _ < value * bound + bound := by omega
      _ = (value + 1) * bound := by rw [Nat.succ_mul]
      _ ≤ n * bound := Nat.mul_le_mul_right _ below
      _ = bound * n := Nat.mul_comm _ _
  · have split := Nat.div_add_mod (value * bound + (n - 1)) n
    have small := Nat.mod_lt (value * bound + (n - 1)) (by omega : 0 < n)
    refine ⟨n - 1 - (value * bound + (n - 1)) % n, by omega, ?_⟩
    rw [Nat.mul_comm n] at split
    omega

theorem exists_accepted {n value : Nat} (below : value < n) :
    ∃ drawn < 2 ^ drawBits n, accepts n drawn = true ∧ scale n drawn = value := by
  obtain ⟨drawn, small, remainder, smaller, product⟩ := exists_draw_eq below
  have fits : remainder < 2 ^ drawBits n := Nat.lt_of_lt_of_le smaller (le_two_pow_drawBits n)
  refine ⟨drawn, small, ?_, ?_⟩
  · have kept : remainder < n * 2 ^ (drawBits n - (n.log2 + 1)) :=
      Nat.lt_of_lt_of_le smaller (Nat.le_mul_of_pos_right n (Nat.two_pow_pos _))
    simp only [accepts, product, Nat.mul_add_mod_self_right, Nat.mod_eq_of_lt fits, kept,
      decide_true]
  · rw [scale, product, Nat.add_comm, Nat.add_mul_div_right _ _ (Nat.two_pow_pos _),
      Nat.div_eq_of_lt fits, Nat.zero_add]

theorem exists_below {n value : Nat} (below : value < n) (rejections : Nat)
    (rest : Nat → UInt64) :
    ∃ words, RandomSource.below n (rejections + 1) words = (value, rest) := by
  obtain ⟨drawn, small, accepted, scaled⟩ := exists_accepted below
  have whole : 64 * (drawBits n / 64) = drawBits n := by
    unfold drawBits
    omega
  obtain ⟨words, draws⟩ := exists_drawWords (drawBits n / 64) (whole.symm ▸ small) rest
  refine ⟨words, ?_⟩
  have drew : draw n words = (drawn, rest) := draws
  simp only [RandomSource.below, drew, accepted, scaled, if_true]

theorem exists_index (last : Nat) (chosen : Fin (last + 1)) (rest : Nat → UInt64) :
    ∃ words, index last words = (chosen, rest) := by
  by_cases single : last = 0
  · subst single
    refine ⟨rest, Prod.ext (Fin.ext ?_) ?_⟩
    · simp only [index, between, Nat.le_refl, if_true]
      omega
    · simp [index, between]
  · obtain ⟨before, patient⟩ : ∃ before, patience = before + 1 := ⟨2 ^ 67 - 1, by decide⟩
    obtain ⟨words, drawn⟩ := exists_below chosen.isLt before rest
    refine ⟨words, ?_⟩
    have outcome : between 0 last words = (chosen.val, rest) := by
      have several : ¬last ≤ 0 := by omega
      simp only [between, several, if_false, Nat.sub_zero, patient, drawn, Nat.zero_add]
    simp only [index, outcome]

end SentenceGrammar.RandomSource
