import LiveTiming.Pacing
import LiveTiming.Proofs.UniformDraws

namespace LiveTiming

namespace Generator

/-- A reader at the start of a sequence of 64-bit words, each of which comes in two halves, the low half
first. -/
def ofWideWords (word : Nat → UInt64) : Generator :=
  ofWords fun i => if i % 2 = 0 then (word (i / 2)).toUInt32 else (word (i / 2) >>> 32).toUInt32

theorem word_ofWords (word : Nat → UInt32) (i : Nat) : (ofWords word).word i = word i := by
  have member : (ofWords word).word i = word (16 * (i / 16) + i % 16) := Vector.getElem_ofFn _
  rw [member, Nat.div_add_mod]

theorem join_halves (w : UInt64) : (w >>> 32).toUInt32.toUInt64 <<< 32 ||| w.toUInt32.toUInt64 = w := by
  have low : w.toNat % 2 ^ 32 < 2 ^ 32 := Nat.mod_lt _ (by decide)
  have high : w.toNat / 2 ^ 32 < 2 ^ 32 := Nat.div_lt_of_lt_mul w.toNat_lt
  apply UInt64.toNat_inj.mp
  rw [UInt64.toNat_or, UInt64.toNat_shiftLeft, UInt32.toNat_toUInt64, UInt32.toNat_toUInt64,
    UInt64.toNat_toUInt32, UInt64.toNat_toUInt32, UInt64.toNat_shiftRight]
  change (w.toNat >>> 32 % 2 ^ 32) <<< 32 % 2 ^ 64 ||| w.toNat % 2 ^ 32 = w.toNat
  rw [Nat.shiftRight_eq_div_pow, Nat.mod_eq_of_lt high, Nat.mod_eq_of_lt, ← Nat.shiftLeft_add_eq_or_of_lt low,
    Nat.shiftLeft_eq]
  · omega
  · rw [Nat.shiftLeft_eq]
    omega

theorem upcoming_ofWideWords (word : Nat → UInt64) (k : Nat) :
    ((ofWideWords word).skip (2 * k)).upcoming .word64 = (word k).toNat := by
  have place : ((ofWideWords word).skip (2 * k)).position = 2 * k := Nat.zero_add _
  have low : (ofWideWords word).word (2 * k) = (word k).toUInt32 := by
    rw [ofWideWords, word_ofWords, if_pos (Nat.mul_mod_right _ _), Nat.mul_div_cancel_left _ (by decide)]
  have high : (ofWideWords word).word (2 * k + 1) = (word k >>> 32).toUInt32 := by
    rw [ofWideWords, word_ofWords, if_neg (by omega), Nat.mul_add_div (by decide)]
    rfl
  have wide : ((ofWideWords word).skip (2 * k)).next64.1 = word k := by
    rw [next64_eq, place]
    change ((ofWideWords word).word (2 * k + 1)).toUInt64 <<< 32 ||| ((ofWideWords word).word (2 * k)).toUInt64 = _
    rw [low, high, join_halves]
  exact congrArg UInt64.toNat wide

theorem upcomingPair_ofWideWords (word : Nat → UInt64) :
    (ofWideWords word).upcomingPair .word64 = (word 0).toNat * UInt64.size + (word 1).toNat := by
  have first := upcoming_ofWideWords word 0
  rw [Nat.mul_zero, skip_zero] at first
  rw [← first, ← upcoming_ofWideWords word 1]
  rfl

/-- Every number of two digits is read from some sequence of 64-bit words. -/
theorem exists_upcomingPair {n : Nat} (small : n < UInt64.size * UInt64.size) :
    ∃ word, (ofWideWords word).upcomingPair .word64 = n := by
  have first : n / UInt64.size < UInt64.size := Nat.div_lt_of_lt_mul small
  have second : n % UInt64.size < UInt64.size := Nat.mod_lt _ (by decide)
  refine ⟨fun k => .ofNat (if k = 0 then n / UInt64.size else n % UInt64.size), ?_⟩
  rw [upcomingPair_ofWideWords, if_pos rfl, if_neg Nat.one_ne_zero, UInt64.toNat_ofNat_of_lt' first,
    UInt64.toNat_ofNat_of_lt' second]
  exact Nat.div_add_mod' _ _

end Generator

namespace ClockTime

theorem centis_add_ofCentis (t : ClockTime) (n : Nat) : (t + ofCentis n).centis = min (t.centis + n) maxWord := by
  change min (t.centis + min n maxWord) maxWord = _
  omega

end ClockTime

namespace Gap

/-- How many 64-bit words are taken to draw a gap. -/
def wordsTaken (gap : Gap) (g : Generator) : Nat :=
  if gap.jitter.centis = 0 then 0 else g.taken .word64 (gap.jitter.centis + 1)

/-- The part of a gap that is left to chance is the share of the jitter, its end included, that two words
give. -/
theorem draw_eq (gap : Gap) (g : Generator) :
    gap.draw g =
      (gap.base + .ofCentis (g.upcomingPair .word64 * (gap.jitter.centis + 1) / (UInt64.size * UInt64.size)),
        g.skip (2 * gap.wordsTaken g)) := by
  unfold draw wordsTaken
  by_cases steady : gap.jitter.centis = 0
  · have share : g.upcomingPair .word64 * 1 / (UInt64.size * UInt64.size) = 0 := by
      rw [Nat.mul_one]
      exact Nat.div_eq_of_lt (g.upcomingPair_lt .word64)
    rw [if_pos steady, if_pos steady, steady, share, Nat.mul_zero, Generator.skip_zero]
    refine Prod.ext (ClockTime.ext ?_) rfl
    rw [ClockTime.centis_add_ofCentis]
    exact (Nat.min_eq_left gap.base.centis_le).symm
  · have fits : gap.jitter.centis < WordWidth.word64.size := Nat.lt_succ_of_le gap.jitter.centis_le
    rw [if_neg steady, if_neg steady, g.uniform_eq (Nat.zero_le _) fits, Nat.zero_add, Nat.sub_zero, Nat.mul_comm 2]
    rfl

theorem shortest_le_draw (gap : Gap) (g : Generator) : gap.shortest.centis ≤ (gap.draw g).1.centis := by
  rw [draw_eq, ClockTime.centis_add_ofCentis]
  exact Nat.le_min.mpr ⟨Nat.le_add_right _ _, gap.base.centis_le⟩

theorem draw_le_longest (gap : Gap) (g : Generator) : (gap.draw g).1.centis ≤ gap.longest.centis := by
  have share := Nat.le_of_lt_succ (g.share_lt .word64 (Nat.succ_pos gap.jitter.centis))
  rw [draw_eq, ClockTime.centis_add_ofCentis]
  exact Nat.le_min.mpr ⟨Nat.le_trans (Nat.min_le_left _ _) (Nat.add_le_add_left share _), Nat.min_le_right _ _⟩

/-- Every time between the shortest and the longest gap is drawn from some words. -/
theorem exists_draw {gap : Gap} {t : ClockTime} (lower : gap.shortest.centis ≤ t.centis)
    (upper : t.centis ≤ gap.longest.centis) : ∃ word, (gap.draw (.ofWideWords word)).1 = t := by
  have base : gap.base.centis ≤ t.centis := lower
  have within : t.centis ≤ min (gap.base.centis + gap.jitter.centis) maxWord := upper
  have jitter := gap.jitter.centis_le
  have words : maxWord + 1 ≤ UInt64.size * UInt64.size := by decide
  obtain ⟨n, small, share⟩ := Generator.exists_share
    (show t.centis - gap.base.centis < gap.jitter.centis + 1 by omega)
    (show gap.jitter.centis + 1 ≤ UInt64.size * UInt64.size by omega)
  obtain ⟨word, pair⟩ := Generator.exists_upcomingPair small
  refine ⟨word, ClockTime.ext ?_⟩
  rw [draw_eq, pair, share, ClockTime.centis_add_ofCentis]
  omega

theorem shortest_le_longest (gap : Gap) : gap.shortest.centis ≤ gap.longest.centis :=
  Nat.le_min.mpr ⟨Nat.le_add_right _ _, gap.base.centis_le⟩

theorem wordsTaken_bounds (gap : Gap) (g : Generator) :
    gap.wordsTaken g ≤ 2 ∧ (gap.wordsTaken g = 0 ↔ gap.jitter.centis = 0) := by
  have some := g.taken_mem .word64 (gap.jitter.centis + 1)
  unfold wordsTaken
  split <;> omega

/-- A gap is drawn from no word if it has no jitter, and else from one 64-bit word or two. It is the base and
the share of the jitter that the next two words give, on a clock that stops at its end. It is never shorter
than the shortest gap nor longer than the longest one, and all times between them, the two included, are
drawn from some sequence of words. -/
theorem draws_fill_their_bounds (gap : Gap) :
    (∀ g : Generator,
      (∃ words ≤ 2, (gap.draw g).2 = g.skip (2 * words) ∧ (words = 0 ↔ gap.jitter.centis = 0)) ∧
      (gap.draw g).1.centis =
        min (gap.base.centis + g.upcomingPair .word64 * (gap.jitter.centis + 1) / (UInt64.size * UInt64.size))
          maxWord ∧
      gap.shortest.centis ≤ (gap.draw g).1.centis ∧ (gap.draw g).1.centis ≤ gap.longest.centis) ∧
    (∃ word : Nat → UInt64, (gap.draw (.ofWideWords word)).1 = gap.shortest) ∧
    (∃ word : Nat → UInt64, (gap.draw (.ofWideWords word)).1 = gap.longest) ∧
    ∀ t : ClockTime, (∃ word : Nat → UInt64, (gap.draw (.ofWideWords word)).1 = t) ↔
      gap.shortest.centis ≤ t.centis ∧ t.centis ≤ gap.longest.centis := by
  have order := gap.shortest_le_longest
  refine ⟨fun g => ⟨?_, ?_, gap.shortest_le_draw g, gap.draw_le_longest g⟩, exists_draw (Nat.le_refl _) order,
    exists_draw order (Nat.le_refl _), fun t => ⟨?_, fun between => exists_draw between.1 between.2⟩⟩
  · obtain ⟨few, none⟩ := gap.wordsTaken_bounds g
    exact ⟨gap.wordsTaken g, few, congrArg Prod.snd (gap.draw_eq g), none⟩
  · rw [draw_eq, ClockTime.centis_add_ofCentis]
  · rintro ⟨word, rfl⟩
    exact ⟨gap.shortest_le_draw _, gap.draw_le_longest _⟩

/-- A gap whose jitter is any word, and whose longest time lies beyond the end of the clock. -/
theorem widest_gap_is_filled :
    let gap : Gap := ⟨.ofCentis 5, .ofCentis maxWord⟩
    (∃ word : Nat → UInt64, (gap.draw (.ofWideWords word)).1 = .ofCentis 5) ∧
      (∃ word : Nat → UInt64, (gap.draw (.ofWideWords word)).1 = .ofCentis maxWord) ∧
      (∃ word : Nat → UInt64, (gap.draw (.ofWideWords word)).1 = .ofCentis 600) ∧
      ∀ word : Nat → UInt64, 5 ≤ (gap.draw (.ofWideWords word)).1.centis := by
  intro gap
  obtain ⟨bounds, shortest, longest, between⟩ := draws_fill_their_bounds gap
  have last : gap.longest = .ofCentis maxWord := by decide
  exact ⟨shortest, last ▸ longest, (between (.ofCentis 600)).mpr (by decide), fun word => (bounds _).2.2.1⟩

end Gap

end LiveTiming
