import LiveTiming.Random.Generator

namespace LiveTiming.ChaCha

/-- Turns a word to the left. -/
def rotateLeft (x : UInt32) (n : UInt32) : UInt32 :=
  (x <<< n) ||| (x >>> (32 - n))

/-- Turns a word to the right. -/
def rotateRight (x : UInt32) (n : UInt32) : UInt32 :=
  (x >>> n) ||| (x <<< ((32 - n) % 32))

/-- Mixes four words of the state. -/
def quarterRound (s : WordBlock) (i j k l : Fin 16) : WordBlock :=
  let a := s[i] + s[j]
  let d := rotateLeft (s[l] ^^^ a) 16
  let c := s[k] + d
  let b := rotateLeft (s[j] ^^^ c) 12
  let a := a + b
  let d := rotateLeft (d ^^^ a) 8
  let c := c + d
  let b := rotateLeft (b ^^^ c) 7
  (((s.set i a).set j b).set k c).set l d

/-- One round on the columns of the state and one on its diagonals. -/
def doubleRound (s : WordBlock) : WordBlock :=
  let s := quarterRound s 0 4 8 12
  let s := quarterRound s 1 5 9 13
  let s := quarterRound s 2 6 10 14
  let s := quarterRound s 3 7 11 15
  let s := quarterRound s 0 5 10 15
  let s := quarterRound s 1 6 11 12
  let s := quarterRound s 2 7 8 13
  quarterRound s 3 4 9 14

/-- The state that block number `n` is mixed from: four fixed words, the key, a
64-bit count of blocks with its low half first, and two zero words. -/
def start (key : Vector UInt32 8) (n : Nat) : WordBlock :=
  #v[0x61707865, 0x3320646e, 0x79622d32, 0x6b206574,
    key[0], key[1], key[2], key[3], key[4], key[5], key[6], key[7],
    UInt32.ofNat n, UInt32.ofNat (n / UInt32.size), 0, 0]

/-- Block number `n` of the sequence: twelve rounds, added to the words they
started from. -/
def block (key : Vector UInt32 8) (n : Nat) : WordBlock :=
  let s := start key n
  let mixed := Nat.repeat doubleRound 6 s
  Vector.zipWith (· + ·) mixed s

/-- The steps of a linear congruence on 64 bits. -/
def seedStep (state : UInt64) : UInt64 :=
  state * 6364136223846793005 + 11634580027462260723

/-- The word of the key that a state of the congruence gives. -/
def keyWord (state : UInt64) : UInt32 :=
  rotateRight (((state >>> 18) ^^^ state) >>> 27).toUInt32 (state >>> 59).toUInt32

/-- The key that a seed is spread into: the words of eight steps. -/
def keyOfSeed (seed : UInt64) : Vector UInt32 8 :=
  Vector.ofFn fun i => keyWord (Nat.repeat seedStep (i + 1) seed)

/-- The generator of a seed. -/
def generator (seed : UInt64) : Generator :=
  let key := keyOfSeed seed
  .ofBlocks (block key)

end LiveTiming.ChaCha
