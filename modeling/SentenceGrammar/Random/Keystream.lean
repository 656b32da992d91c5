import SentenceGrammar.Random.ChaCha
import SentenceGrammar.Random.Source

/-! The source behind a seed: the keystream of the cipher under a key made from the seed by a
congruential generator. The stream is a function of the key and of the number of words drawn so far,
so a position in it is all the state there is. -/

namespace SentenceGrammar

open ChaCha

/-- A place in the stream of a key: the two rows of the key and the number of words drawn. -/
structure Keystream where
  keyLow : Row
  keyHigh : Row
  position : Nat
deriving DecidableEq, Repr

namespace Keystream

/-- The block of the stream with the given number. The numbers wrap around after 64 bits. -/
def block (stream : Keystream) (number : UInt64) : Block :=
  Block.scramble
    ⟨⟨0x61707865, 0x3320646e, 0x79622d32, 0x6b206574⟩, stream.keyLow, stream.keyHigh,
      ⟨number.toUInt32, (number >>> 32).toUInt32, 0, 0⟩⟩

def word (stream : Keystream) : UInt64 :=
  (stream.block (UInt64.ofNat (stream.position / 8))).slot (stream.position % 8)

instance : RandomSource Keystream where
  next stream := (stream.word, { stream with position := stream.position + 1 })

/-- One step of the congruential generator that spreads a seed over a key. -/
def spread (state : UInt64) : UInt64 :=
  state * 6364136223846793005 + 11634580027462260723

def keyWord (state : UInt64) : UInt32 :=
  let mixed := (((state >>> 18) ^^^ state) >>> 27).toUInt32
  let turn := (state >>> 59).toUInt32
  mixed >>> turn ||| mixed <<< (32 - turn)

def keyRow (state : UInt64) : Row × UInt64 :=
  let first := spread state
  let second := spread first
  let third := spread second
  let fourth := spread third
  (⟨keyWord first, keyWord second, keyWord third, keyWord fourth⟩, fourth)

def ofSeed (seed : UInt64) : Keystream :=
  let (low, state) := keyRow seed
  ⟨low, (keyRow state).1, 0⟩

def seekTo (stream : Keystream) (position : Nat) : Keystream :=
  { stream with position := position }

end Keystream

end SentenceGrammar
