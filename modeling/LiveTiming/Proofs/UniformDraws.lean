import LiveTiming.Random.Draw

namespace LiveTiming

/-- The number of 32-bit words in a word of that width. -/
def WordWidth.span : WordWidth → Nat
  | .word32 => 1
  | .word64 => 2

theorem WordWidth.size_pos (width : WordWidth) : 0 < width.size := by
  cases width <;> decide

namespace Generator

/-- The reader when `n` more words have been taken. -/
def skip (g : Generator) (n : Nat) : Generator :=
  ⟨g.block, g.position + n, g.block ((g.position + n) / 16), rfl⟩

/-- The next word of that width, as a number. -/
def upcoming (g : Generator) (width : WordWidth) : Nat :=
  (g.nextWord width).1

/-- The next two words of that width as the two digits of one number, the first word before the second. -/
def upcomingPair (g : Generator) (width : WordWidth) : Nat :=
  g.upcoming width * width.size + (g.skip width.span).upcoming width

/-- How many words are taken to draw one of `range` numbers. The second one is taken if digits that follow
the first could carry into the offset. -/
def taken (g : Generator) (width : WordWidth) (range : Nat) : Nat :=
  if width.size - range < g.upcoming width * range % width.size then 2 else 1

variable {g : Generator} {width : WordWidth} {low high range : Nat}

/-- A reader is told by its sequence and its position there. -/
theorem ext_position {g h : Generator} (block : g.block = h.block) (position : g.position = h.position) :
    g = h := by
  obtain ⟨_, _, _, current⟩ := g
  obtain ⟨_, _, _, other⟩ := h
  cases block
  cases position
  rw [← other] at current
  cases current
  rfl

@[simp]
theorem skip_zero (g : Generator) : g.skip 0 = g :=
  ext_position rfl rfl

@[simp]
theorem skip_skip (g : Generator) (m n : Nat) : (g.skip m).skip n = g.skip (m + n) :=
  ext_position rfl (Nat.add_assoc _ _ _)

theorem next32_eq (g : Generator) : g.next32 = (g.word g.position, g.skip 1) :=
  Prod.ext g.next32_fst (ext_position g.next32_block g.next32_position)

theorem next64_eq (g : Generator) :
    g.next64 = ((g.word (g.position + 1)).toUInt64 <<< 32 ||| (g.word g.position).toUInt64, g.skip 2) := by
  simp only [next64, next32_eq, skip_skip]
  rfl

theorem nextWord_eq (g : Generator) (width : WordWidth) :
    g.nextWord width = (g.upcoming width, g.skip width.span) := by
  refine Prod.ext rfl ?_
  cases width with
  | word32 => simp only [nextWord, next32_eq, WordWidth.span]
  | word64 => simp only [nextWord, next64_eq, WordWidth.span]

theorem upcoming_lt (g : Generator) (width : WordWidth) : g.upcoming width < width.size := by
  cases width with
  | word32 => exact g.next32.1.toNat_lt
  | word64 => exact g.next64.1.toNat_lt

theorem upcomingPair_lt (g : Generator) (width : WordWidth) : g.upcomingPair width < width.size * width.size := by
  have first := Nat.mul_le_mul_right width.size (Nat.succ_le_of_lt (g.upcoming_lt width))
  have second := (g.skip width.span).upcoming_lt width
  rw [Nat.succ_mul] at first
  unfold upcomingPair
  omega

theorem taken_mem (g : Generator) (width : WordWidth) (range : Nat) :
    g.taken width range = 1 ∨ g.taken width range = 2 := by
  unfold taken
  split
  · exact Or.inr rfl
  · exact Or.inl rfl

/-- The share of a range that two words give is less than the range. -/
theorem share_lt (g : Generator) (width : WordWidth) (some : 0 < range) :
    g.upcomingPair width * range / (width.size * width.size) < range := by
  have positive := width.size_pos
  rw [Nat.div_lt_iff_lt_mul (Nat.mul_pos positive positive), Nat.mul_comm range]
  exact Nat.mul_lt_mul_of_pos_right (g.upcomingPair_lt width) some

/-- A number of two digits times the range: the digits are multiplied one by one, and the second product
reaches the quotient as a carry only. -/
theorem pair_mul_div {size : Nat} (positive : 0 < size) (first second range : Nat) :
    (first * size + second) * range / (size * size) =
      first * range / size + (first * range % size + second * range / size) / size := by
  have product : (first * size + second) * range = second * range + first * range * size := by
    rw [Nat.add_mul, Nat.mul_right_comm, Nat.add_comm]
  have quotient : second * range / size + first * range =
      first * range % size + second * range / size + size * (first * range / size) := by
    have parts := Nat.mod_add_div (first * range) size
    omega
  rw [product, ← Nat.div_div_eq_div_mul, Nat.add_mul_div_right _ _ positive, quotient,
    Nat.add_mul_div_left _ _ positive, Nat.add_comm]

/-- What is drawn is the exact share of the range that two words give, whether or not the second of them
is taken. -/
theorem uniform_eq (g : Generator) (order : low ≤ high) (fits : high < width.size) :
    g.uniform width low high =
      (low + g.upcomingPair width * (high - low + 1) / (width.size * width.size),
        g.skip (g.taken width (high - low + 1) * width.span)) := by
  generalize ranges : high - low + 1 = range
  have positive := width.size_pos
  have rest := Nat.mod_lt (g.upcoming width * range) positive
  have more : (g.skip width.span).upcoming width * range / width.size < range := by
    rw [Nat.div_lt_iff_lt_mul positive, Nat.mul_comm range]
    exact Nat.mul_lt_mul_of_pos_right (upcoming_lt _ _) (by omega)
  have share := pair_mul_div positive (g.upcoming width) ((g.skip width.span).upcoming width) range
  rw [← upcomingPair] at share
  unfold uniform taken
  simp only [ranges, nextWord_eq, skip_skip]
  by_cases whole : range = width.size
  · -- A word as it comes is its own share of all words.
    have lowest : low = 0 := by omega
    have word : g.upcomingPair width * width.size / (width.size * width.size) = g.upcoming width := by
      rw [Nat.mul_div_mul_right _ _ positive, upcomingPair, Nat.mul_comm, Nat.mul_add_div positive,
        Nat.div_eq_of_lt (upcoming_lt _ _), Nat.add_zero]
    rw [whole, Nat.mod_self, if_pos rfl, Nat.mul_mod_left, if_neg (by omega), word, lowest, Nat.zero_add,
      Nat.one_mul]
  · rw [Nat.mod_eq_of_lt (by omega), if_neg (by omega), share]
    generalize g.upcoming width * range / width.size = offset
    generalize g.upcoming width * range % width.size = rest at rest ⊢
    generalize (g.skip width.span).upcoming width * range / width.size = more at more ⊢
    split
    · rw [← Nat.two_mul]
      split
      · rename_i carries
        rw [Nat.div_eq_of_lt_le (k := 1) (by omega) (by omega)]
      · rename_i short
        rw [Nat.div_eq_of_lt (Nat.lt_of_not_le short), Nat.add_zero]
    · rw [Nat.div_eq_of_lt (by omega), Nat.add_zero, Nat.one_mul]

theorem uniform_between (g : Generator) (order : low ≤ high) (fits : high < width.size) :
    low ≤ (g.uniform width low high).1 ∧ (g.uniform width low high).1 ≤ high := by
  have share := g.share_lt width (show 0 < high - low + 1 by omega)
  rw [uniform_eq g order fits]
  exact ⟨Nat.le_add_right _ _, by dsimp only; omega⟩

/-- A draw gives a number of its range, and takes one word or two. -/
theorem exists_uniform (g : Generator) (width : WordWidth) (order : low ≤ high) (fits : high < width.size) :
    ∃ n words, (words = 1 ∨ words = 2) ∧ low ≤ n ∧ n ≤ high ∧
      g.uniform width low high = (n, g.skip (width.span * words)) := by
  have between := g.uniform_between order fits
  have drawn := g.uniform_eq order fits
  rw [Nat.mul_comm _ width.span] at drawn
  rw [drawn] at between
  exact ⟨_, _, g.taken_mem width _, between.1, between.2, drawn⟩

/-- Every number of a range is the share of some number below `limit`. -/
theorem exists_share {limit offset : Nat} (within : offset < range) (fits : range ≤ limit) :
    ∃ n < limit, n * range / limit = offset := by
  have positive : 0 < range := by omega
  have up := Nat.lt_mul_div_succ (offset * limit + range - 1) positive
  have down := Nat.div_mul_le_self (offset * limit + range - 1) range
  generalize (offset * limit + range - 1) / range = n at up down
  have last : (offset + 1) * limit ≤ range * limit := Nat.mul_le_mul_right _ within
  rw [Nat.mul_succ, Nat.mul_comm range n] at up
  rw [Nat.succ_mul] at last
  refine ⟨n, Nat.lt_of_mul_lt_mul_right (a := range) ?_, Nat.div_eq_of_lt_le ?_ ?_⟩
  · rw [Nat.mul_comm limit]
    omega
  · omega
  · rw [Nat.succ_mul]
    omega

end Generator

end LiveTiming
