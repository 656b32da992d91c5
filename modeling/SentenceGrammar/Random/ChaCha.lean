/-! The block function of the ChaCha cipher with twelve rounds. Its state is a square of sixteen
32-bit words. A round mixes the four columns of the square independently, so it is written as
operations on whole rows. -/

namespace SentenceGrammar.ChaCha

structure Row where
  lane0 : UInt32
  lane1 : UInt32
  lane2 : UInt32
  lane3 : UInt32
deriving DecidableEq, Repr

namespace Row

@[inline] def combine (operation : UInt32 → UInt32 → UInt32) (first second : Row) : Row :=
  ⟨operation first.lane0 second.lane0, operation first.lane1 second.lane1,
    operation first.lane2 second.lane2, operation first.lane3 second.lane3⟩

instance : Add Row := ⟨combine (· + ·)⟩

instance : XorOp Row := ⟨combine (· ^^^ ·)⟩

def rotateBits (row : Row) (amount : UInt32) : Row :=
  let rotate (word : UInt32) : UInt32 := word <<< amount ||| word >>> (32 - amount)
  ⟨rotate row.lane0, rotate row.lane1, rotate row.lane2, rotate row.lane3⟩

def shiftLanes (row : Row) : Row :=
  ⟨row.lane1, row.lane2, row.lane3, row.lane0⟩

end Row

structure Block where
  row0 : Row
  row1 : Row
  row2 : Row
  row3 : Row
deriving DecidableEq, Repr

namespace Block

def quarterRounds (block : Block) : Block :=
  let a := block.row0 + block.row1
  let d := (block.row3 ^^^ a).rotateBits 16
  let c := block.row2 + d
  let b := (block.row1 ^^^ c).rotateBits 12
  let a := a + b
  let d := (d ^^^ a).rotateBits 8
  let c := c + d
  let b := (b ^^^ c).rotateBits 7
  ⟨a, b, c, d⟩

def diagonals (block : Block) : Block :=
  ⟨block.row0, block.row1.shiftLanes, block.row2.shiftLanes.shiftLanes,
    block.row3.shiftLanes.shiftLanes.shiftLanes⟩

def undoDiagonals (block : Block) : Block :=
  ⟨block.row0, block.row1.shiftLanes.shiftLanes.shiftLanes, block.row2.shiftLanes.shiftLanes,
    block.row3.shiftLanes⟩

def doubleRound (block : Block) : Block :=
  block.quarterRounds.diagonals.quarterRounds.undoDiagonals

/-- Twelve rounds, and the sum of their result with the block they began from. -/
def scramble (block : Block) : Block :=
  let mixed := Nat.repeat doubleRound 6 block
  ⟨mixed.row0 + block.row0, mixed.row1 + block.row1, mixed.row2 + block.row2,
    mixed.row3 + block.row3⟩

/-- The row that holds the words `4 * index` to `4 * index + 3`. -/
def row (block : Block) : Nat → Row
  | 0 => block.row0
  | 1 => block.row1
  | 2 => block.row2
  | _ => block.row3

/-- The 64-bit word at one of the eight slots of a block; of its two halves the lower comes first.
-/
def slot (block : Block) (index : Nat) : UInt64 :=
  let row := block.row (index / 2)
  if index % 2 = 0 then row.lane0.toUInt64 ||| row.lane1.toUInt64 <<< 32
  else row.lane2.toUInt64 ||| row.lane3.toUInt64 <<< 32

end Block

end SentenceGrammar.ChaCha
