/-! Random sources and uniform choice. A source is whatever yields 64-bit words one after the other.
A number below `n` is made from a draw by multiplying it by `n` and keeping the upper half of the
product. The draws whose lower half is too large are rejected, so that every number is reached by
the same number of draws. A draw is a single word unless `n` is greater than the number of words. -/

namespace SentenceGrammar

/-- A state from which 64-bit words are drawn. -/
class RandomSource (σ : Type) where
  next : σ → UInt64 × σ

instance : RandomSource (Nat → UInt64) where
  next words := (words 0, fun index => words (index + 1))

namespace RandomSource

-- Powers of numbers are those of the core library, whatever other powers are in scope.
attribute [local instance (high)] instPowNat

/-- The number of bits in a draw for numbers below `n`: one word's, or as many words' as `n` takes.
-/
def drawBits (n : Nat) : Nat :=
  64 * ((n - 1).log2 / 64 + 1)

def scale (n draw : Nat) : Nat :=
  draw * n / 2 ^ drawBits n

/-- Whether a draw is kept: its remainder lies below the largest product of `n` and a power of two
that is no greater than the number of draws. -/
def accepts (n draw : Nat) : Bool :=
  draw * n % 2 ^ drawBits n < n * 2 ^ (drawBits n - (n.log2 + 1))

/-- More rejections in a row than any source of period `2 ^ 67` can produce without rejecting every
word it has. -/
def patience : Nat := 2 ^ (67 : Nat)

variable {σ : Type} [RandomSource σ]

/-- Draws a number of the given number of words, the lowest word first. -/
def drawWords : Nat → σ → Nat × σ
  | 0, source => (0, source)
  | count + 1, source =>
    let (word, source) := next source
    let (higher, source) := drawWords count source
    (word.toNat + 2 ^ (64 : Nat) * higher, source)

def draw (n : Nat) (source : σ) : Nat × σ :=
  drawWords (drawBits n / 64) source

/-- A number below `n`, from the first draw that is accepted. After too many rejections the next
draw is taken whatever it is. -/
def below (n : Nat) : Nat → σ → Nat × σ
  | 0, source => (scale n (draw n source).1, (draw n source).2)
  | rejections + 1, source =>
    let (drawn, source) := draw n source
    if accepts n drawn then (scale n drawn, source) else below n rejections source

/-- A uniform number from `low` to `high`, both included. Nothing is drawn when the bounds leave no
choice. -/
def between (low high : Nat) (source : σ) : Nat × σ :=
  if high ≤ low then (low, source)
  else
    let (offset, source) := below (high - low + 1) patience source
    (low + offset, source)

theorem drawWords_lt (count : Nat) (source : σ) :
    (drawWords count source).1 < 2 ^ (64 * count) := by
  induction count generalizing source with
  | zero => simp [drawWords]
  | succ count ih =>
    have lowest : (next source).1.toNat < 2 ^ 64 := (next source).1.toNat_lt
    have higher := ih (next source).2
    have power : 2 ^ (64 * (count + 1)) = 2 ^ 64 * 2 ^ (64 * count) := by
      rw [Nat.mul_succ, Nat.add_comm, Nat.pow_add]
    simp only [drawWords]
    rw [power]
    calc
      _ < 2 ^ 64 + 2 ^ 64 * (drawWords count (next source).2).1 := Nat.add_lt_add_right lowest _
      _ = 2 ^ 64 * ((drawWords count (next source).2).1 + 1) := by rw [Nat.mul_succ, Nat.add_comm]
      _ ≤ 2 ^ 64 * 2 ^ (64 * count) := Nat.mul_le_mul_left _ higher

theorem draw_lt (n : Nat) (source : σ) : (draw n source).1 < 2 ^ drawBits n := by
  have bound := drawWords_lt (drawBits n / 64) source
  have whole : 64 * (drawBits n / 64) = drawBits n := by
    unfold drawBits
    omega
  rwa [whole] at bound

theorem scale_lt {n drawn : Nat} (positive : 0 < n) (small : drawn < 2 ^ drawBits n) :
    scale n drawn < n := by
  unfold scale
  rw [Nat.div_lt_iff_lt_mul (Nat.two_pow_pos _), Nat.mul_comm n]
  exact Nat.mul_lt_mul_of_pos_right small positive

theorem below_lt {n : Nat} (positive : 0 < n) (rejections : Nat) (source : σ) :
    (below n rejections source).1 < n := by
  induction rejections generalizing source with
  | zero => exact scale_lt positive (draw_lt n source)
  | succ rejections ih =>
    simp only [below]
    split
    · exact scale_lt positive (draw_lt n source)
    · exact ih _

theorem low_le_between (low high : Nat) (source : σ) : low ≤ (between low high source).1 := by
  unfold between
  split
  · exact Nat.le_refl low
  · exact Nat.le_add_right low _

theorem between_le {low high : Nat} (nonempty : low ≤ high) (source : σ) :
    (between low high source).1 ≤ high := by
  unfold between
  split
  · exact nonempty
  · have bound := below_lt (n := high - low + 1) (by omega) patience source
    simp only
    omega

def index (last : Nat) (source : σ) : Fin (last + 1) × σ :=
  (⟨(between 0 last source).1, Nat.lt_succ_of_le (between_le (Nat.zero_le last) source)⟩,
    (between 0 last source).2)

end RandomSource

end SentenceGrammar
