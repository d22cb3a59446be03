import LiveTiming.Random.Generator

namespace LiveTiming

/-- The width of the words that a draw is made from. -/
inductive WordWidth
  | word32
  | word64
deriving DecidableEq

/-- The number of words of that width. -/
def WordWidth.size : WordWidth → Nat
  | .word32 => UInt32.size
  | .word64 => UInt64.size

namespace Generator

/-- Takes one word of the given width. -/
def nextWord (g : Generator) : WordWidth → Nat × Generator
  | .word32 => let (word, g) := g.next32; (word.toNat, g)
  | .word64 => let (word, g) := g.next64; (word.toNat, g)

/-- Draws a number from `low` to `high`, both included. One word is multiplied by
the length of the range, and the quotient by the number of words is the offset.
Where the remainder leaves room for a carry from further digits, a second word
decides it. A range of all words is answered by a word as it comes. -/
def uniform (g : Generator) (width : WordWidth) (low high : Nat) : Nat × Generator :=
  let range := (high - low + 1) % width.size
  let (word, g) := g.nextWord width
  if range = 0 then (word, g)
  else
    let product := word * range
    let offset := product / width.size
    let rest := product % width.size
    if width.size - range < rest then
      let (more, g) := g.nextWord width
      if width.size ≤ rest + more * range / width.size then (low + (offset + 1), g)
      else (low + offset, g)
    else (low + offset, g)

end Generator

end LiveTiming
