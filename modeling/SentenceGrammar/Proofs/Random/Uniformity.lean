import Mathlib.Algebra.Order.Floor.Div
import Mathlib.Data.Set.Card
import Mathlib.Order.Interval.Finset.Nat
import SentenceGrammar.Proofs.Random.Reachability
import SentenceGrammar.Run

/-! Every number of a range is drawn by equally many words. The products of the words with the size
of the range are spread evenly; of those that stand for one number, the same power of two is kept.
The steps of a draw are those of 64 bits here, in which the size of the whole range is zero. -/

namespace SentenceGrammar

namespace RandomSource

-- Powers of numbers are those of the core library, whatever other powers are in scope.
attribute [local instance (high)] instPowNat

/-- How many numbers there are from one to another, both included. -/
def extent (low high : UInt64) : Nat :=
  high.toNat - low.toNat + 1

/-- The extent in 64 bits. That of the whole range is zero. -/
def size (low high : UInt64) : UInt64 :=
  high - low + 1

def leadingZeros (word : UInt64) : UInt64 :=
  ⟨word.toBitVec.clz⟩

def offset (low high word : UInt64) : UInt64 :=
  .ofNat (word.toNat * (size low high).toNat / 2 ^ 64)

/-- What a range makes of a single word: one of its numbers, or nothing if the word is rejected. The
whole range takes every word as it is. -/
def trial (low high word : UInt64) : Option UInt64 :=
  if size low high = 0 then some word
  else if .ofNat (word.toNat * (size low high).toNat) ≤
      (size low high <<< leadingZeros (size low high)) - 1 then
    some (low + offset low high word)
  else none

def share (low high : UInt64) : Nat :=
  if size low high = 0 then 1 else 2 ^ (leadingZeros (size low high)).toNat

section Counting

/-- Of the multiples of `n`, as many lie in a stretch of numbers as `n` fits into it. -/
theorem multiples_iff {n : Nat} (positive : 0 < n) (count first factor : Nat) :
    (first ≤ factor * n ∧ factor * n < first + n * count) ↔
      factor ∈ Finset.Ico (first ⌈/⌉ n) (first ⌈/⌉ n + count) := by
  have reaches : ∀ number, first ⌈/⌉ n ≤ number ↔ first ≤ number * n := by
    intro number
    rw [ceilDiv_le_iff_le_mul positive, Nat.mul_comm]
  have before : factor * n < first + n * count ↔ factor < first ⌈/⌉ n + count := by
    rcases Nat.lt_or_ge factor count with early | late
    · have inside : factor * n < n * count := by
        rw [Nat.mul_comm]
        exact Nat.mul_lt_mul_of_pos_left early positive
      omega
    · obtain ⟨rest, rfl⟩ := Nat.exists_eq_add_of_le late
      have shifted := reaches rest
      rw [Nat.add_mul, Nat.mul_comm count]
      omega
  rw [Finset.mem_Ico, reaches, before]

variable {n : Nat}

theorem drawBits_eq (small : n ≤ 2 ^ 64) : drawBits n = 64 := by
  have one : (n - 1).log2 / 64 = 0 := by
    apply Nat.div_eq_of_lt
    rcases Nat.eq_zero_or_pos (n - 1) with zero | positive
    · rw [zero, Nat.log2_zero]
      decide
    · rw [Nat.log2_lt (Nat.ne_of_gt positive)]
      omega
  rw [drawBits, one]

def kept (n : Nat) : Nat :=
  2 ^ (64 - (n.log2 + 1))

theorem kept_pos (n : Nat) : 0 < kept n :=
  Nat.two_pow_pos _

theorem mul_kept_lt (positive : 0 < n) (below : n < 2 ^ 64) : n * kept n < 2 ^ 64 := by
  have bits : n.log2 < 64 := (Nat.log2_lt (Nat.ne_of_gt positive)).mpr below
  calc n * kept n
    _ < 2 ^ (n.log2 + 1) * kept n := Nat.mul_lt_mul_of_pos_right Nat.lt_log2_self (kept_pos n)
    _ = 2 ^ 64 := by
      rw [kept, ← Nat.pow_add]
      congr 1
      omega

theorem mul_kept_le (positive : 0 < n) (small : n ≤ 2 ^ 64) : n * kept n ≤ 2 ^ 64 := by
  rcases Nat.eq_or_lt_of_le small with whole | below
  · subst whole
    decide
  · exact Nat.le_of_lt (mul_kept_lt positive below)

theorem accepts_whole (drawn : Nat) : accepts (2 ^ 64) drawn = true := by
  rw [accepts, drawBits_eq (Nat.le_refl _), Nat.mul_mod_left, decide_eq_true_eq]
  exact Nat.mul_pos (Nat.two_pow_pos 64) (kept_pos (2 ^ 64))

theorem le_two_mul_kept (positive : 0 < n) (small : n ≤ 2 ^ 64) : 2 ^ 64 ≤ 2 * (n * kept n) := by
  rcases Nat.eq_or_lt_of_le small with whole | below
  · subst whole
    decide
  · have bits : n.log2 < 64 := (Nat.log2_lt (Nat.ne_of_gt positive)).mpr below
    calc 2 ^ 64
      _ = 2 * (2 ^ n.log2 * kept n) := by
        rw [kept, ← Nat.pow_add, Nat.mul_comm, ← Nat.pow_succ]
        congr 1
        omega
      _ ≤ 2 * (n * kept n) :=
        Nat.mul_le_mul_left _ (Nat.mul_le_mul_right _ (Nat.log2_self_le (Nat.ne_of_gt positive)))

/-- The kept words of a number are those whose product with `n` lies in its stretch. -/
theorem accepts_and_scale_iff (positive : 0 < n) (small : n ≤ 2 ^ 64) (value drawn : Nat) :
    (accepts n drawn = true ∧ scale n drawn = value) ↔
      value * 2 ^ 64 ≤ drawn * n ∧ drawn * n < value * 2 ^ 64 + n * kept n := by
  have fits := mul_kept_le positive small
  have halves := Nat.div_add_mod (drawn * n) (2 ^ 64)
  have lower := Nat.mod_lt (drawn * n) (Nat.two_pow_pos 64)
  rw [accepts, scale, drawBits_eq small, decide_eq_true_eq]
  change _ < n * kept n ∧ _ ↔ _
  generalize drawn * n = product at *
  generalize n * kept n = reserve at *
  omega

theorem ncard_words (property : Nat → Prop) [DecidablePred property] :
    {word : UInt64 | property word.toNat}.ncard =
      ((Finset.range (2 ^ 64)).filter property).card := by
  have image : UInt64.toNat '' {word | property word.toNat} =
      ↑((Finset.range (2 ^ 64)).filter property) := by
    ext drawn
    rw [Finset.mem_coe, Finset.mem_filter, Finset.mem_range]
    constructor
    · rintro ⟨word, holds, rfl⟩
      exact ⟨word.toNat_lt, holds⟩
    · rintro ⟨isWord, holds⟩
      have same : (UInt64.ofNat drawn).toNat = drawn := UInt64.toNat_ofNat_of_lt' isWord
      exact ⟨.ofNat drawn, by simpa only [Set.mem_ofPred_eq, same] using holds, same⟩
  rw [← Set.ncard_image_of_injective _ fun _ _ => UInt64.toNat_inj.mp, image,
    Set.ncard_coe_finset]

theorem card_kept (positive : 0 < n) (small : n ≤ 2 ^ 64) {value : Nat} (below : value < n) :
    ((Finset.range (2 ^ 64)).filter fun drawn =>
      accepts n drawn = true ∧ scale n drawn = value).card = kept n := by
  have stretch : ((Finset.range (2 ^ 64)).filter fun drawn =>
        accepts n drawn = true ∧ scale n drawn = value) =
      Finset.Ico (value * 2 ^ 64 ⌈/⌉ n) (value * 2 ^ 64 ⌈/⌉ n + kept n) := by
    ext drawn
    rw [Finset.mem_filter, Finset.mem_range, accepts_and_scale_iff positive small,
      ← multiples_iff positive]
    refine and_iff_right_of_imp fun inside => ?_
    have isWord : drawn * n < 2 ^ 64 * n := calc
      drawn * n < value * 2 ^ 64 + n * kept n := inside.2
      _ ≤ value * 2 ^ 64 + 2 ^ 64 := Nat.add_le_add_left (mul_kept_le positive small) _
      _ = 2 ^ 64 * (value + 1) := by rw [← Nat.succ_mul, Nat.mul_comm]
      _ ≤ 2 ^ 64 * n := Nat.mul_le_mul_left _ below
    exact Nat.lt_of_mul_lt_mul_right isWord
  rw [stretch, Nat.card_Ico, Nat.add_sub_cancel_left]

theorem card_accepted (positive : 0 < n) (small : n ≤ 2 ^ 64) :
    ((Finset.range (2 ^ 64)).filter fun drawn => accepts n drawn = true).card = n * kept n := by
  have inside : ∀ drawn ∈ (Finset.range (2 ^ 64)).filter fun drawn => accepts n drawn = true,
      scale n drawn ∈ Finset.range n := by
    intro drawn member
    have isWord := Finset.mem_range.mp (Finset.mem_filter.mp member).1
    exact Finset.mem_range.mpr (scale_lt positive (drawBits_eq small ▸ isWord))
  rw [Finset.card_eq_sum_card_fiberwise inside]
  calc ∑ value ∈ Finset.range n, _
    _ = ∑ _value ∈ Finset.range n, kept n := by
      refine Finset.sum_congr rfl fun value below => ?_
      rw [Finset.filter_filter, card_kept positive small (Finset.mem_range.mp below)]
    _ = n * kept n := by rw [Finset.sum_const, Finset.card_range, smul_eq_mul]

end Counting

section Words

variable {low high : UInt64}

theorem extent_pos (low high : UInt64) : 0 < extent low high :=
  Nat.succ_pos _

theorem extent_le (low high : UInt64) : extent low high ≤ 2 ^ 64 := by
  have bound := high.toNat_lt
  unfold extent
  omega

theorem scale_extent_lt (low high word : UInt64) :
    scale (extent low high) word.toNat < extent low high :=
  scale_lt (extent_pos low high) (drawBits_eq (extent_le low high) ▸ word.toNat_lt)

theorem toNat_size (ordered : low ≤ high) : (size low high).toNat = extent low high % 2 ^ 64 := by
  rw [size, UInt64.toNat_add, UInt64.toNat_sub_of_le _ _ ordered]
  rfl

theorem extent_of_size_eq_zero (ordered : low ≤ high) (zero : size low high = 0) :
    extent low high = 2 ^ 64 := by
  have remainder := toNat_size ordered
  rw [zero, UInt64.toNat_zero] at remainder
  have positive : 0 < extent low high := Nat.succ_pos _
  have small := extent_le low high
  omega

theorem toNat_size_of_ne_zero (ordered : low ≤ high) (sized : size low high ≠ 0) :
    (size low high).toNat = extent low high := by
  have remainder := toNat_size ordered
  rcases Nat.eq_or_lt_of_le (extent_le low high) with whole | below
  · rw [whole, Nat.mod_self] at remainder
    exact absurd (UInt64.toNat_inj.mp remainder) sized
  · rw [remainder, Nat.mod_eq_of_lt below]

theorem toNat_leadingZeros {word : UInt64} (sized : word ≠ 0) :
    (leadingZeros word).toNat = 64 - (word.toNat.log2 + 1) := by
  have bits : word.toBitVec ≠ 0#64 := fun zero => sized (UInt64.toBitVec_inj.mp zero)
  have positive : word.toNat ≠ 0 := fun zero => sized (UInt64.toNat_inj.mp zero)
  have lower : 2 ^ (64 - 1 - (leadingZeros word).toNat) ≤ word.toNat :=
    BitVec.two_pow_sub_clz_le_toNat_of_ne_zero (by decide) bits
  have upper : word.toNat < 2 ^ (64 - (leadingZeros word).toNat) :=
    BitVec.toNat_lt_two_pow_sub_clz
  have few : (leadingZeros word).toNat < 64 := BitVec.lt_def.mp (BitVec.clz_lt_iff_ne_zero.mpr bits)
  have next : 64 - (leadingZeros word).toNat = 64 - 1 - (leadingZeros word).toNat + 1 := by omega
  rw [next] at upper
  have top := (Nat.log2_eq_iff positive).mpr ⟨lower, upper⟩
  omega

theorem toNat_shiftLeft_leadingZeros {word : UInt64} (sized : word ≠ 0) :
    (word <<< leadingZeros word).toNat = word.toNat * kept word.toNat := by
  have positive : 0 < word.toNat := Nat.pos_of_ne_zero fun zero => sized (UInt64.toNat_inj.mp zero)
  have few : 64 - (word.toNat.log2 + 1) < 64 := by omega
  rw [UInt64.toNat_shiftLeft, Nat.shiftLeft_eq, toNat_leadingZeros sized, Nat.mod_eq_of_lt few]
  exact Nat.mod_eq_of_lt (mul_kept_lt positive word.toNat_lt)

/-- Below the shifted size lie the lower halves of the products of kept words. -/
theorem le_zone_iff {word : UInt64} (sized : word ≠ 0) (lower : UInt64) :
    lower ≤ (word <<< leadingZeros word) - 1 ↔ lower.toNat < word.toNat * kept word.toNat := by
  have positive : 0 < word.toNat := Nat.pos_of_ne_zero fun zero => sized (UInt64.toNat_inj.mp zero)
  have reserve := toNat_shiftLeft_leadingZeros sized
  have some : 0 < word.toNat * kept word.toNat := Nat.mul_pos positive (kept_pos _)
  have one : (1 : UInt64) ≤ word <<< leadingZeros word := by
    rw [UInt64.le_iff_toNat_le, reserve]
    exact some
  rw [UInt64.le_iff_toNat_le, UInt64.toNat_sub_of_le _ _ one, reserve, UInt64.toNat_one]
  omega

theorem toNat_offset (ordered : low ≤ high) (sized : size low high ≠ 0) (word : UInt64) :
    (offset low high word).toNat = scale (extent low high) word.toNat := by
  have small : extent low high < 2 ^ 64 := toNat_size_of_ne_zero ordered sized ▸ UInt64.toNat_lt _
  have below := Nat.lt_trans (scale_extent_lt low high word) small
  rw [offset, toNat_size_of_ne_zero ordered sized]
  rw [scale, drawBits_eq (Nat.le_of_lt small)] at below ⊢
  exact UInt64.toNat_ofNat_of_lt' below

theorem offset_le (ordered : low ≤ high) (word : UInt64) :
    low.toNat + (offset low high word).toNat ≤ high.toNat := by
  have bound : low.toNat ≤ high.toNat := UInt64.le_iff_toNat_le.mp ordered
  by_cases whole : size low high = 0
  · simpa [offset, whole] using bound
  · have below := scale_extent_lt low high word
    rw [toNat_offset ordered whole]
    unfold extent at below ⊢
    omega

theorem trial_eq (ordered : low ≤ high) (word : UInt64) :
    trial low high word = if accepts (extent low high) word.toNat = true then
      some (low + .ofNat (scale (extent low high) word.toNat)) else none := by
  have bits := drawBits_eq (extent_le low high)
  by_cases whole : size low high = 0
  · have all := extent_of_size_eq_zero ordered whole
    have least : low.toNat = (0 : UInt64).toNat := by
      have bound := high.toNat_lt
      unfold extent at all
      rw [UInt64.toNat_zero]
      omega
    have itself : scale (2 ^ 64) word.toNat = word.toNat := by
      rw [scale, drawBits_eq (Nat.le_refl _), Nat.mul_div_cancel _ (Nat.two_pow_pos 64)]
    rw [trial, if_pos whole, all, if_pos (accepts_whole _), itself, UInt64.toNat_inj.mp least,
      UInt64.ofNat_toNat, UInt64.zero_add]
  · have same := toNat_size_of_ne_zero ordered whole
    have far : offset low high word = .ofNat (scale (extent low high) word.toNat) := by
      rw [← toNat_offset ordered whole, UInt64.ofNat_toNat]
    have keeps : UInt64.ofNat (word.toNat * (size low high).toNat) ≤
        (size low high <<< leadingZeros (size low high)) - 1 ↔
          accepts (extent low high) word.toNat = true := by
      rw [le_zone_iff whole, same, UInt64.toNat_ofNat', accepts, decide_eq_true_eq, bits]
      rfl
    simp only [trial, if_neg whole, keeps, far]

theorem share_eq_kept (ordered : low ≤ high) : share low high = kept (extent low high) := by
  unfold share
  split
  · rename_i whole
    rw [extent_of_size_eq_zero ordered whole]
    decide
  · rename_i sized
    rw [toNat_leadingZeros sized, toNat_size_of_ne_zero ordered sized]
    rfl

theorem toNat_add_scale (ordered : low ≤ high) (word : UInt64) :
    (low + .ofNat (scale (extent low high) word.toNat)).toNat =
      low.toNat + scale (extent low high) word.toNat := by
  have below := scale_extent_lt low high word
  have ends : low.toNat ≤ high.toNat := UInt64.le_iff_toNat_le.mp ordered
  have inside : low.toNat + scale (extent low high) word.toNat < UInt64.size := by
    refine Nat.lt_of_le_of_lt ?_ high.toNat_lt
    unfold extent at below ⊢
    omega
  have small := Nat.lt_of_le_of_lt (Nat.le_add_left _ _) inside
  rw [UInt64.toNat_add, UInt64.toNat_ofNat_of_lt' small]
  exact Nat.mod_eq_of_lt inside

theorem trial_eq_some_iff (ordered : low ≤ high) (word value : UInt64) :
    trial low high word = some value ↔ accepts (extent low high) word.toNat = true ∧
      low.toNat + scale (extent low high) word.toNat = value.toNat := by
  rw [trial_eq ordered, ← toNat_add_scale ordered, UInt64.toNat_inj]
  simp

theorem trial_eq_none_iff (ordered : low ≤ high) (word : UInt64) :
    trial low high word = none ↔ accepts (extent low high) word.toNat = false := by
  rw [trial_eq ordered]
  simp

theorem isSome_trial (ordered : low ≤ high) (word : UInt64) :
    (trial low high word).isSome = true ↔ accepts (extent low high) word.toNat = true := by
  rw [trial_eq ordered]
  split <;> simp_all

theorem mem_range_of_trial (ordered : low ≤ high) {word value : UInt64}
    (stands : trial low high word = some value) : low ≤ value ∧ value ≤ high := by
  have far := ((trial_eq_some_iff ordered word value).mp stands).2
  have below := scale_extent_lt low high word
  have ends : low.toNat ≤ high.toNat := UInt64.le_iff_toNat_le.mp ordered
  rw [UInt64.le_iff_toNat_le, UInt64.le_iff_toNat_le, ← far]
  unfold extent at below ⊢
  omega

theorem ncard_trial (ordered : low ≤ high) {value : UInt64} (least : low ≤ value)
    (most : value ≤ high) : {word | trial low high word = some value}.ncard = share low high := by
  have lower : low.toNat ≤ value.toNat := UInt64.le_iff_toNat_le.mp least
  have upper : value.toNat ≤ high.toNat := UInt64.le_iff_toNat_le.mp most
  have inside : value.toNat - low.toNat < extent low high := by
    unfold extent
    omega
  have same : ∀ word, trial low high word = some value ↔
      accepts (extent low high) word.toNat = true ∧
        scale (extent low high) word.toNat = value.toNat - low.toNat := by
    intro word
    rw [trial_eq_some_iff ordered]
    refine and_congr_right fun _ => ?_
    omega
  simp only [same]
  rw [ncard_words fun drawn => accepts (extent low high) drawn = true ∧
      scale (extent low high) drawn = value.toNat - low.toNat,
    card_kept (extent_pos low high) (extent_le low high) inside, share_eq_kept ordered]

theorem two_pow_le_ncard_trial (ordered : low ≤ high) :
    2 ^ 64 ≤ 2 * {word | (trial low high word).isSome = true}.ncard := by
  simp only [isSome_trial ordered]
  rw [ncard_words fun drawn => accepts (extent low high) drawn = true,
    card_accepted (extent_pos low high) (extent_le low high)]
  exact le_two_mul_kept (extent_pos low high) (extent_le low high)

end Words

section Rejections

variable {σ : Type} [RandomSource σ]

def after : Nat → σ → σ
  | 0, source => source
  | count + 1, source => after count (next source).2

def wordAt (index : Nat) (source : σ) : UInt64 :=
  (next (after index source)).1

theorem draw_eq {n : Nat} (small : n ≤ 2 ^ 64) (source : σ) :
    draw n source = ((next source).1.toNat, (next source).2) := by
  rw [draw, drawBits_eq small]
  simp [drawWords]

theorem below_of_accepts {n : Nat} (small : n ≤ 2 ^ 64) {rejections allowed : Nat}
    (fits : rejections ≤ allowed) {source : σ}
    (rejected : ∀ earlier < rejections, accepts n (wordAt earlier source).toNat = false)
    (accepted : accepts n (wordAt rejections source).toNat = true) :
    below n allowed source =
      (scale n (wordAt rejections source).toNat, after (rejections + 1) source) := by
  induction rejections generalizing allowed source with
  | zero =>
    cases allowed with
    | zero =>
      rw [below, draw_eq small]
      rfl
    | succ allowed =>
      have takes : accepts n (next source).1.toNat = true := accepted
      simp only [below, draw_eq small, takes, if_true]
      rfl
  | succ rejections ih =>
    obtain ⟨rest, rfl⟩ : ∃ rest, allowed = rest + 1 := ⟨allowed - 1, by omega⟩
    have passes : accepts n (next source).1.toNat = false := rejected 0 (Nat.succ_pos _)
    simp only [below, draw_eq small, passes, Bool.false_eq_true, if_false]
    exact ih (Nat.le_of_succ_le_succ fits)
      (fun earlier before => rejected (earlier + 1) (Nat.succ_lt_succ before)) accepted

end Rejections

end RandomSource

open RandomSource

variable {σ : Type} [RandomSource σ]

theorem Run.number_of_trial {low high : UInt64} (ordered : low < high) {run : Run σ}
    {rejections : Nat} (fits : rejections ≤ patience) {value : UInt64}
    (rejected : ∀ earlier < rejections, trial low high (wordAt earlier run.source) = none)
    (taken : trial low high (wordAt rejections run.source) = some value) :
    run.number low.toNat high.toNat =
      (value.toNat, { run with source := after (rejections + 1) run.source }) := by
  have weak : low ≤ high := UInt64.le_of_lt ordered
  have several : ¬high.toNat ≤ low.toNat := Nat.not_le.mpr (UInt64.lt_iff_toNat_lt.mp ordered)
  obtain ⟨accepted, far⟩ := (trial_eq_some_iff weak _ _).mp taken
  have drawn := below_of_accepts (extent_le low high) fits
    (fun earlier before => (trial_eq_none_iff weak _).mp (rejected earlier before)) accepted
  rw [extent] at drawn far
  simp only [Run.number, between, if_neg several, drawn, far]

theorem Run.number_fst (low high : Nat) (run : Run σ) :
    (run.number low high).1 = (between low high run.source).1 := by
  simp only [Run.number]

/-- A range gives each of its numbers the same share of the words, a power of two, and at least
every other word stands for a number of it; no sum leaves the range. The number of a run is that of
the first word which stands for one, and no word is drawn where there is no choice. -/
theorem Run.number_uniform (low high : UInt64) (run : Run σ) :
    (low < high →
      (∀ value, low ≤ value → value ≤ high →
        {word | trial low high word = some value}.ncard = share low high) ∧
      (∀ word value, trial low high word = some value → low ≤ value ∧ value ≤ high) ∧
      (∀ word, low.toNat + (offset low high word).toNat ≤ high.toNat) ∧
      2 ^ 64 ≤ 2 * {word | (trial low high word).isSome = true}.ncard ∧
      (∀ rejections ≤ patience, ∀ value,
        (∀ earlier < rejections, trial low high (wordAt earlier run.source) = none) →
        trial low high (wordAt rejections run.source) = some value →
          run.number low.toNat high.toNat =
            (value.toNat, { run with source := after (rejections + 1) run.source })) ∧
      low.toNat ≤ (run.number low.toNat high.toNat).1 ∧
      (run.number low.toNat high.toNat).1 ≤ high.toNat) ∧
    (high ≤ low → run.number low.toNat high.toNat = (low.toNat, run)) := by
  constructor
  · intro ordered
    have weak : low ≤ high := UInt64.le_of_lt ordered
    rw [Run.number_fst]
    refine ⟨fun value => ncard_trial weak, fun word value => mem_range_of_trial weak,
      offset_le weak, two_pow_le_ncard_trial weak, ?_, low_le_between _ _ _,
      between_le (UInt64.le_iff_toNat_le.mp weak) _⟩
    intro rejections fits value rejected taken
    exact Run.number_of_trial ordered fits rejected taken
  · intro reversed
    have single : high.toNat ≤ low.toNat := UInt64.le_iff_toNat_le.mp reversed
    simp only [Run.number, between, if_pos single]

/-- A run on words of which a range of three numbers rejects the first only. -/
def Run.onQuarterThenZeros : Run (Nat → UInt64) :=
  .onSource 0 fun index => if index = 0 then 0x4000000000000000 else 0

theorem Run.number_uniform_threeNumbers :
    ((2 : UInt64) < 4 ∧ (2 : UInt64) ≤ 3 ∧ (3 : UInt64) ≤ 4 ∧
      {word | trial 2 4 word = some 3}.ncard = 2 ^ 62) ∧
    (1 ≤ patience ∧ (∀ earlier < 1, trial 2 4 (wordAt earlier onQuarterThenZeros.source) = none) ∧
      trial 2 4 (wordAt 1 onQuarterThenZeros.source) = some 2 ∧
      onQuarterThenZeros.number 2 4 =
        (2, { onQuarterThenZeros with source := after 2 onQuarterThenZeros.source })) ∧
    (4 : UInt64) ≤ 4 ∧ onQuarterThenZeros.number 4 4 = (4, onQuarterThenZeros) := by
  have ordered : (2 : UInt64) < 4 := by decide
  obtain ⟨shares, _, _, _, draws, _⟩ := (number_uniform 2 4 onQuarterThenZeros).1 ordered
  have rejected : ∀ earlier < 1, trial 2 4 (wordAt earlier onQuarterThenZeros.source) = none := by
    decide
  refine ⟨⟨ordered, by decide, by decide, shares 3 (by decide) (by decide)⟩,
    ⟨by decide, rejected, by decide, draws 1 (by decide) 2 rejected (by decide)⟩, by decide, ?_⟩
  exact (number_uniform 4 4 onQuarterThenZeros).2 (by decide)

end SentenceGrammar
