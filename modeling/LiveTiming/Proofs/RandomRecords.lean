import LiveTiming.Proofs.ClockForms
import LiveTiming.Proofs.RecordReading
import LiveTiming.Proofs.UniformDraws
import LiveTiming.Race.RandomSplit

namespace LiveTiming

namespace ClockTime

open Text

/-- Whether a text is a plus sign, seconds in one digit or two, a point, and hundredths in two digits. -/
def ShortGap (s : List Char) : Prop :=
  ∃ seconds hundredths, s = '+' :: (seconds ++ '.' :: hundredths) ∧ (seconds.length = 1 ∨ seconds.length = 2) ∧
    hundredths.length = 2 ∧ ∀ c ∈ seconds ++ hundredths, c.isDigit = true

/-- A gap below one minute is written without minutes. -/
theorem shortGap_gapText {t : ClockTime} (short : t.centis < 6000) : ShortGap t.gapText.toList := by
  obtain ⟨rest, text, form⟩ := gapForm_iff.mpr (rfl : t.gapText = t.gapText)
  generalize t.centis = n at form short
  cases form with
  | @seconds s h a b first below last =>
    have length : s.length ≤ 2 := by
      rw [unpadded_iff.mp first]
      exact (Nat.length_toDigits_le_iff (by decide) (by decide)).mpr (by omega)
    have some : s.length ≠ 0 := mt List.length_eq_zero_iff.mp first.some
    exact ⟨s, h, text, by omega, last.length, List.forall_mem_append.mpr ⟨first.digits, last.digits⟩⟩
  | minutes first some middle below last => omega

end ClockTime

namespace SplitRecord

open ClockTime

variable {component participant : String} {rank : Nat} {delta : ClockTime}

/-- A leader has no gap in writing, and everybody else has one. -/
theorem deltaText_ranked (component participant : String) (split : Nat) (elapsed : ClockTime) (placed : 1 ≤ rank)
    (delta : ClockTime) :
    (ranked component participant split elapsed rank delta).deltaText = if rank = 1 then "" else delta.gapText := by
  unfold deltaText ranked
  by_cases leads : rank = 1
  · simp [leads]
  · have behind : 1 < rank := by omega
    simp [leads, behind]

theorem mem_delta_ranked {component participant : String} {split : Nat} {elapsed d : ClockTime} :
    d ∈ (ranked component participant split elapsed rank delta).delta ↔ 1 < rank ∧ d = delta := by
  unfold ranked
  dsimp only
  split
  · rename_i behind
    rw [Option.mem_some_iff, and_iff_right behind, eq_comm]
  · rename_i leads
    exact iff_of_false (Option.not_mem_none d) fun both => leads both.1

/-- A random record is made of three draws, one after the other, each of which takes one word or two of its
width. -/
theorem random_draws (component participant : String) (split : Nat) (g : Generator) :
    ∃ elapsed rank delta a b c, (a = 1 ∨ a = 2) ∧ (b = 1 ∨ b = 2) ∧ (c = 1 ∨ c = 2) ∧
      (elapsed ≤ elapsedLimit ∧ (1 ≤ rank ∧ rank ≤ rankLimit) ∧ delta ≤ deltaLimit) ∧
      g.uniform .word64 0 elapsedLimit = (elapsed, g.skip (2 * a)) ∧
      (g.skip (2 * a)).uniform .word32 1 rankLimit = (rank, g.skip (2 * a + b)) ∧
      (g.skip (2 * a + b)).uniform .word64 0 deltaLimit = (delta, g.skip (2 * a + b + 2 * c)) ∧
      random component participant split g =
        (.ranked component participant split (.ofCentis elapsed) rank (.ofCentis delta),
          g.skip (2 * a + b + 2 * c)) := by
  obtain ⟨elapsed, a, fewA, _, early, first⟩ :=
    g.exists_uniform .word64 (Nat.zero_le elapsedLimit) (by decide)
  rw [show WordWidth.word64.span * a = 2 * a from rfl] at first
  obtain ⟨rank, b, fewB, placed, last, second⟩ :=
    (g.skip (2 * a)).exists_uniform .word32 (show 1 ≤ rankLimit by decide) (by decide)
  rw [Generator.skip_skip, show WordWidth.word32.span * b = b from Nat.one_mul b] at second
  obtain ⟨delta, c, fewC, _, close, third⟩ :=
    (g.skip (2 * a + b)).exists_uniform .word64 (Nat.zero_le deltaLimit) (by decide)
  rw [Generator.skip_skip, show WordWidth.word64.span * c = 2 * c from rfl] at third
  refine ⟨elapsed, rank, delta, a, b, c, fewA, fewB, fewC, ⟨early, ⟨placed, last⟩, close⟩, first, second, third, ?_⟩
  rw [random, first]
  dsimp only
  rw [second]
  dsimp only
  rw [third]

/-- The line of a record with a short gap. -/
theorem fields_ranked (component_fits : fitsField component = true)
    (participant_fits : fitsField participant = true)
    (split : Nat) (elapsed : ClockTime) (placed : 1 ≤ rank) (short : delta.centis < 6000) :
    ∃ clock last, Text.fields (Message.split (.ranked component participant split elapsed rank delta)).render =
        ["LOG0", component, component, participant, "y", toString split, clock, toString rank, last] ∧
      ClockForm clock.toList elapsed.centis ∧ (last = "" ↔ rank = 1) ∧
      (rank ≠ 1 → GapForm last.toList delta.centis ∧ ShortGap last.toList) := by
  have record : Message.IsRecord (.split (.ranked component participant split elapsed rank delta)) :=
    .split component_fits participant_fits
  have form := shortGap_gapText short
  have text := deltaText_ranked component participant split elapsed placed delta
  refine ⟨_, _, record.fields_render, clockForm_iff.mpr rfl, ?_, ?_⟩
  · rw [text]
    split
    · rename_i leads
      exact iff_of_true rfl leads
    · rename_i behind
      refine iff_of_false (fun empty => ?_) behind
      obtain ⟨_, _, plus, _⟩ := form
      rw [empty] at plus
      cases plus
  · intro behind
    rw [text, if_neg behind]
    exact ⟨gapForm_iff.mpr rfl, form⟩

/-- A random record has the names and the split that it was asked for, a time up to 7:59.99, a rank from one
to six, and, unless it leads, a gap up to 59.99. It is made of three draws, the time before the rank and the
rank before the gap, whatever the rank is. If the names fit into fields, its line has nine of them, with the
time in the form of an elapsed time, and last the gap in its own form, which is empty for a leader and else
has a plus sign and no minutes. -/
theorem random_records_stay_in_bounds (component participant : String) (split : Nat) (g : Generator) :
    let r := (random component participant split g).1
    (r.component = component ∧ r.participant = participant ∧ r.split = split) ∧
    (r.elapsed.centis ≤ 47999 ∧ (1 ≤ r.rank ∧ r.rank ≤ 6) ∧ (r.delta = none ↔ r.rank = 1) ∧
      ∀ delta ∈ r.delta, delta.centis ≤ 5999) ∧
    (∃ elapsed rank delta a b c, (a = 1 ∨ a = 2) ∧ (b = 1 ∨ b = 2) ∧ (c = 1 ∨ c = 2) ∧
      g.uniform .word64 0 47999 = (elapsed, g.skip (2 * a)) ∧
      (g.skip (2 * a)).uniform .word32 1 6 = (rank, g.skip (2 * a + b)) ∧
      (g.skip (2 * a + b)).uniform .word64 0 5999 = (delta, g.skip (2 * a + b + 2 * c)) ∧
      random component participant split g =
        (.ranked component participant split (.ofCentis elapsed) rank (.ofCentis delta),
          g.skip (2 * a + b + 2 * c))) ∧
    (fitsField component = true → fitsField participant = true →
      ∃ clock last, Text.fields (Message.split r).render =
          ["LOG0", component, component, participant, "y", toString split, clock, toString r.rank, last] ∧
        ClockForm clock.toList r.elapsed.centis ∧ (last = "" ↔ r.rank = 1) ∧ (r.rank ≠ 1 → ShortGap last.toList) ∧
        ∀ delta ∈ r.delta, GapForm last.toList delta.centis) := by
  intro r
  obtain ⟨elapsed, rank, delta, a, b, c, fewA, fewB, fewC, ⟨early, placed, close⟩, first, second, third, made⟩ :=
    random_draws component participant split g
  have same : r = .ranked component participant split (.ofCentis elapsed) rank (.ofCentis delta) :=
    congrArg Prod.fst made
  have time : (ClockTime.ofCentis elapsed).centis ≤ 47999 := (min_le_left _ _).trans early
  have gap : (ClockTime.ofCentis delta).centis ≤ 5999 := (min_le_left _ _).trans close
  rw [same]
  refine ⟨⟨rfl, rfl, rfl⟩, ⟨time, placed, ?_, fun d given => ?_⟩,
    ⟨elapsed, rank, delta, a, b, c, fewA, fewB, fewC, first, second, third, made⟩, fun fits also => ?_⟩
  · refine Option.eq_none_iff_forall_not_mem.trans ⟨fun none => ?_, fun leads d given => ?_⟩
    · have leads : ¬1 < rank := fun behind => none _ (mem_delta_ranked.mpr ⟨behind, rfl⟩)
      exact Nat.le_antisymm (Nat.le_of_not_lt leads) placed.1
    · exact absurd leads (mem_delta_ranked.mp given).1.ne'
  · rw [(mem_delta_ranked.mp given).2]
    exact gap
  · obtain ⟨clock, last, fields, form, empty, behind⟩ :=
      fields_ranked fits also split (.ofCentis elapsed) placed.1 (Nat.lt_succ_of_le gap)
    refine ⟨clock, last, fields, form, empty, fun rest => (behind rest).2, fun d given => ?_⟩
    obtain ⟨rest, rfl⟩ := mem_delta_ranked.mp given
    exact (behind (by omega)).1

/-- The largest words make the last record, whose gap has the longest form. -/
theorem last_random_record :
    let g := Generator.ofWords fun _ => 4294967295
    let r : SplitRecord := ⟨"K1", "boat", 2, .ofCentis 47999, 6, some (.ofCentis 5999)⟩
    fitsField "K1" = true ∧ fitsField "boat" = true ∧ (random "K1" "boat" 2 g).1 = r ∧
      ∃ clock last,
        Text.fields (Message.split r).render = ["LOG0", "K1", "K1", "boat", "y", "2", clock, "6", last] ∧
        ClockForm clock.toList 47999 ∧ ShortGap last.toList ∧ GapForm last.toList 5999 := by
  intro g r
  have fits : fitsField "K1" = true := by decide
  have also : fitsField "boat" = true := by decide
  have made : (random "K1" "boat" 2 g).1 = r := by decide +kernel
  obtain ⟨_, _, _, line⟩ := random_records_stay_in_bounds "K1" "boat" 2 g
  obtain ⟨clock, last, fields, form, _, short, gap⟩ := line fits also
  rw [made] at fields form short gap
  rw [show toString (2 : Nat) = "2" by decide, show toString r.rank = "6" by decide] at fields
  exact ⟨fits, also, made, clock, last, fields, form, short (by decide), gap (.ofCentis 5999) rfl⟩

end SplitRecord

end LiveTiming
