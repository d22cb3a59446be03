import LiveTiming.Proofs.RaceBooking
import LiveTiming.Proofs.RaceEnvelope
import LiveTiming.Proofs.RaceRecords

namespace LiveTiming

/-- The longest time on the race clock that a race of this feed can take: that of the largest race, if all
its gaps are as long as can be. -/
def Config.longestRace (c : Config) : ClockTime :=
  .ofCentis (c.pacing.timeAfter Gap.longest c.bounds.maxSplits (c.bounds.maxSplits * c.bounds.maxParticipants) +
    c.pacing.resultsDelay.centis)

/-- A race with as many splits and participants as the feed accepts. -/
def Config.largestRace (c : Config) : RaceRequest :=
  ⟨"M", c.bounds.maxSplits, List.replicate c.bounds.maxParticipants "x"⟩

/-- A reader of words that have all their bits set. -/
def Generator.highest : Generator :=
  .ofWords fun _ => 0xffffffff

namespace Generator

/-- The share of a range that the last number below `size` gives is its end. -/
theorem last_share {size last : Nat} (fits : last < size) : (size - 1) * (last + 1) / size = last := by
  have product := Nat.sub_one_mul size (last + 1)
  rw [Nat.mul_succ size] at product
  refine Nat.div_eq_of_lt_le ?_ ?_
  · rw [Nat.mul_comm last]
    omega
  · rw [Nat.mul_comm (last + 1), Nat.mul_succ size]
    omega

theorem upcoming_highest (n : Nat) : (highest.skip n).upcoming .word64 = UInt64.size - 1 := by
  have word (i : Nat) : (highest.skip n).word i = 0xffffffff := word_ofWords (fun _ => 0xffffffff) i
  change (highest.skip n).next64.1.toNat = _
  rw [next64_eq, word, word]
  rfl

theorem upcomingPair_highest (n : Nat) :
    (highest.skip n).upcomingPair .word64 = UInt64.size * UInt64.size - 1 := by
  rw [upcomingPair, skip_skip, upcoming_highest, upcoming_highest]
  rfl

end Generator

/-- The highest words draw the longest gap. -/
theorem Gap.draw_highest (gap : Gap) (n : Nat) :
    ∃ m, gap.draw (Generator.highest.skip n) = (gap.longest, Generator.highest.skip m) := by
  have jitter := gap.jitter.centis_le
  have words : maxWord + 1 ≤ UInt64.size * UInt64.size := by decide
  have share := Generator.last_share (show gap.jitter.centis < UInt64.size * UInt64.size by omega)
  rw [draw_eq, Generator.upcomingPair_highest, share, ClockTime.ofCentis_centis_eq,
    Generator.skip_skip]
  exact ⟨_, rfl⟩

theorem Pacing.timeAfter_le (p : Pacing) (length : Gap → ClockTime) {splits passings moreSplits morePassings : Nat}
    (first : splits ≤ moreSplits) (second : passings ≤ morePassings) :
    p.timeAfter length splits passings ≤ p.timeAfter length moreSplits morePassings :=
  Nat.add_le_add (Nat.add_le_add_left (Nat.mul_le_mul_right _ first) _) (Nat.mul_le_mul_right _ second)

namespace Sampling

open Finset

variable {s : Sampling} (words : s.generator = .highest)
include words

theorem generatorAfter_highest (t : Nat) : ∃ n, s.generatorAfter t = Generator.highest.skip n := by
  induction t with
  | zero => exact ⟨0, words.trans (Generator.skip_zero _).symm⟩
  | succ t ih =>
    obtain ⟨n, left⟩ := ih
    obtain ⟨m, draws⟩ := (s.kind t).draw_highest n
    exact ⟨m, by rw [generatorAfter, left, draws]⟩

theorem drawn_highest {t : Nat} {gap : Gap} (kind : s.kind t = gap) : s.drawn t = gap.longest.centis := by
  obtain ⟨n, left⟩ := generatorAfter_highest words t
  obtain ⟨_, draws⟩ := gap.draw_highest n
  rw [drawn, kind, left, draws]

/-- A race that draws from the highest words is finished as late as can be. -/
theorem finish_highest (k : Nat) : s.finish k = s.pacing.timeAfter Gap.longest k (k * s.starters) := by
  have before (j : Nat) : s.splitGap j = s.pacing.splitGap.longest.centis :=
    drawn_highest words (s.kind_split (j - 1))
  have round (j : Nat) : ∑ m ∈ Icc 1 s.starters, s.passGap j m =
      s.starters * s.pacing.participantGap.longest.centis := by
    rw [sum_const_nat fun m member => ?_, Nat.card_Icc, Nat.add_sub_cancel]
    obtain ⟨positive, within⟩ := mem_Icc.mp member
    obtain ⟨i, rfl⟩ := Nat.exists_eq_add_of_le' positive
    exact drawn_highest words (s.kind_pass (j - 1) (by omega))
  rw [finish, sum_const_nat fun j _ => before j, sum_const_nat fun j _ => round j, Nat.card_Icc, Nat.add_sub_cancel,
    ← Nat.mul_assoc]
  rfl

end Sampling

namespace RaceRequest

theorem plan_duration (r : RaceRequest) (pacing : Pacing) (g : Generator) : (r.plan pacing g).1.duration =
    .ofCentis ((r.sampling pacing g).finish r.splits + pacing.resultsDelay.centis) := by
  have ordered := r.plan_ordered pacing g
  rw [r.plan_eq] at ordered ⊢
  exact Rundown.duration_eq ordered (r.getLast?_cues _)

theorem largest_accepted (c : Config) : c.largestRace.rejection? c.bounds = none := by
  refine rejection?_eq_none_iff.mpr ⟨?_, Nat.le_refl _, (List.length_replicate ..).le, ?_⟩
  · show fitsField "M" = true
    decide
  · intro participant member
    rw [List.eq_of_mem_replicate member]
    decide

end RaceRequest

namespace Feed

variable {f : Feed} {r : RaceRequest} {rundown : Rundown}

/-- No race that is accepted takes longer than the longest one. -/
theorem duration_le_longestRace (planned : (f.plan r).1 = .ok rundown) :
    rundown.duration.centis ≤ f.config.longestRace.centis := by
  obtain ⟨accepted, rfl⟩ := plan_ok_iff.mp planned
  obtain ⟨_, splits, participants, _⟩ := RaceRequest.rejection?_eq_none_iff.mp accepted
  have finish := ((r.sampling f.config.pacing f.generator).finish_between r.splits).2
  have most := f.config.pacing.timeAfter_le Gap.longest splits (Nat.mul_le_mul splits participants)
  rw [r.plan_duration]
  exact min_le_min_right _ (Nat.add_le_add_right (finish.trans most) _)

/-- There is a race that takes as long. -/
theorem plan_largest (c : Config) : ∃ rundown,
    ((start c [] .highest).plan c.largestRace).1 = .ok rundown ∧ rundown.duration = c.longestRace := by
  refine ⟨_, plan_ok_iff.mpr ⟨RaceRequest.largest_accepted c, rfl⟩, ?_⟩
  have finish := Sampling.finish_highest (s := c.largestRace.sampling c.pacing .highest) rfl c.bounds.maxSplits
  have starters : (c.largestRace.sampling c.pacing .highest).starters = c.bounds.maxParticipants :=
    List.length_replicate ..
  rw [starters] at finish
  exact (RaceRequest.plan_duration ..).trans
    (congrArg (fun n => ClockTime.ofCentis (n + c.pacing.resultsDelay.centis)) finish)

end Feed

end LiveTiming
