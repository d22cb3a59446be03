namespace LiveTiming

/-- A block of sixteen 32-bit random words. -/
abbrev WordBlock := Vector UInt32 16

/-- A reader of an endless sequence of random words, which comes in blocks. The
block that holds the next word is kept at hand. -/
structure Generator where
  block : Nat → WordBlock
  position : Nat
  current : WordBlock
  current_eq : current = block (position / 16)

namespace Generator

/-- A reader at the start of the sequence. -/
def ofBlocks (block : Nat → WordBlock) : Generator :=
  ⟨block, 0, block 0, rfl⟩

/-- A reader at the start of the sequence whose word number `i` is `word i`. -/
def ofWords (word : Nat → UInt32) : Generator :=
  ofBlocks fun b => Vector.ofFn fun i => word (16 * b + i)

/-- Word number `i` of the sequence. -/
def word (g : Generator) (i : Nat) : UInt32 :=
  (g.block (i / 16)).get ⟨i % 16, Nat.mod_lt _ (by decide)⟩

/-- Takes the next word. -/
def next32 (g : Generator) : UInt32 × Generator :=
  let word := g.current.get ⟨g.position % 16, Nat.mod_lt _ (by decide)⟩
  if same : (g.position + 1) / 16 = g.position / 16 then
    (word, { g with position := g.position + 1, current_eq := by rw [same]; exact g.current_eq })
  else
    (word, ⟨g.block, g.position + 1, g.block ((g.position + 1) / 16), rfl⟩)

/-- Takes the next two words as one of 64 bits, the low half first. -/
def next64 (g : Generator) : UInt64 × Generator :=
  let (low, g) := g.next32
  let (high, g) := g.next32
  (high.toUInt64 <<< 32 ||| low.toUInt64, g)

theorem next32_fst (g : Generator) : g.next32.1 = g.word g.position := by
  simp only [next32, word]
  split <;> simp only [g.current_eq]

theorem next32_position (g : Generator) : g.next32.2.position = g.position + 1 := by
  simp only [next32]
  split <;> rfl

theorem next32_block (g : Generator) : g.next32.2.block = g.block := by
  simp only [next32]
  split <;> rfl

end Generator

end LiveTiming
