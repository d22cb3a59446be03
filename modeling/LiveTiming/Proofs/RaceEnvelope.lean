import LiveTiming.Proofs.GapDraws
import LiveTiming.Proofs.RundownForm
import Mathlib.Algebra.Order.BigOperators.Group.Finset

namespace LiveTiming

open Finset

/-- The race time after so many gaps before splits and so many gaps after participants, each of which is as
long as `length` says, on a clock without an end. -/
def Pacing.timeAfter (p : Pacing) (length : Gap → ClockTime) (splits passings : Nat) : Nat :=
  p.leadIn.centis + splits * (length p.splitGap).centis + passings * (length p.participantGap).centis

namespace Sampling

theorem sum_between (among : Finset Nat) (term : Nat → Nat) {low high : Nat}
    (each : ∀ j ∈ among, low ≤ term j ∧ term j ≤ high) :
    among.card * low ≤ ∑ j ∈ among, term j ∧ ∑ j ∈ among, term j ≤ among.card * high :=
  ⟨among.card_nsmul_le_sum term low fun j member => (each j member).1,
    among.sum_le_card_nsmul term high fun j member => (each j member).2⟩

variable (s : Sampling) {k i j : Nat}

theorem drawn_between {t : Nat} {gap : Gap} (kind : s.kind t = gap) :
    gap.shortest.centis ≤ s.drawn t ∧ s.drawn t ≤ gap.longest.centis := by
  rw [drawn, kind]
  exact ⟨gap.shortest_le_draw _, gap.draw_le_longest _⟩

theorem splitGap_between (k : Nat) :
    s.pacing.splitGap.shortest.centis ≤ s.splitGap k ∧ s.splitGap k ≤ s.pacing.splitGap.longest.centis :=
  s.drawn_between (s.kind_split (k - 1))

theorem splits_between (k : Nat) :
    k * s.pacing.splitGap.shortest.centis ≤ ∑ j ∈ Icc 1 k, s.splitGap j ∧
      ∑ j ∈ Icc 1 k, s.splitGap j ≤ k * s.pacing.splitGap.longest.centis := by
  have sums := sum_between (Icc 1 k) s.splitGap fun j _ => s.splitGap_between j
  rwa [Nat.card_Icc, Nat.add_sub_cancel] at sums

theorem passGap_between (k : Nat) (positive : 1 ≤ i) (within : i ≤ s.starters) :
    s.pacing.participantGap.shortest.centis ≤ s.passGap k i ∧
      s.passGap k i ≤ s.pacing.participantGap.longest.centis := by
  obtain ⟨i, rfl⟩ := Nat.exists_eq_add_of_le' positive
  exact s.drawn_between (s.kind_pass (k - 1) (by omega))

theorem lag_between (k : Nat) (within : i ≤ s.starters + 1) :
    (i - 1) * s.pacing.participantGap.shortest.centis ≤ s.lag k i ∧
      s.lag k i ≤ (i - 1) * s.pacing.participantGap.longest.centis := by
  have sums := sum_between (Ico 1 i) (s.passGap k) fun m member => by
    obtain ⟨positive, less⟩ := mem_Ico.mp member
    exact s.passGap_between k positive (by omega)
  rwa [Nat.card_Ico] at sums

/-- The gaps after the participants of one split. -/
theorem round_between (k : Nat) :
    s.starters * s.pacing.participantGap.shortest.centis ≤ ∑ m ∈ Icc 1 s.starters, s.passGap k m ∧
      ∑ m ∈ Icc 1 s.starters, s.passGap k m ≤ s.starters * s.pacing.participantGap.longest.centis := by
  have sums := s.lag_between k (i := s.starters + 1) (Nat.le_refl _)
  rwa [lag, Ico_add_one_right_eq_Icc, Nat.add_sub_cancel] at sums

/-- A race time lies between those of the shortest and of the longest gaps, if as many gaps have passed. -/
theorem elapsed_between (k : Nat) (within : i ≤ s.starters + 1) :
    s.pacing.timeAfter Gap.shortest k ((k - 1) * s.starters + (i - 1)) ≤ s.elapsed k i ∧
      s.elapsed k i ≤ s.pacing.timeAfter Gap.longest k ((k - 1) * s.starters + (i - 1)) := by
  have splits := s.splits_between k
  have rounds := sum_between (Ico 1 k) _ fun j _ => s.round_between j
  have last := s.lag_between k within
  rw [Nat.card_Ico, ← Nat.mul_assoc, ← Nat.mul_assoc] at rounds
  rw [lag] at last
  unfold elapsed Pacing.timeAfter
  rw [Nat.add_mul, Nat.add_mul]
  omega

theorem finish_between (k : Nat) :
    s.pacing.timeAfter Gap.shortest k (k * s.starters) ≤ s.finish k ∧
      s.finish k ≤ s.pacing.timeAfter Gap.longest k (k * s.starters) := by
  have splits := s.splits_between k
  have rounds := sum_between (Icc 1 k) _ fun j _ => s.round_between j
  rw [Nat.card_Icc, Nat.add_sub_cancel, ← Nat.mul_assoc, ← Nat.mul_assoc] at rounds
  unfold finish Pacing.timeAfter
  omega

/-- The gap to the leader grows with the rank, unless the gaps between participants may be empty. -/
theorem lag_lt (k : Nat) (apart : 0 < s.pacing.participantGap.shortest.centis) (positive : 1 ≤ i) (behind : i < j)
    (within : j ≤ s.starters + 1) : s.lag k i < s.lag k j := by
  have later := sum_Ico_consecutive (s.passGap k) positive behind.le
  have next : s.passGap k i ≤ ∑ m ∈ Ico i j, s.passGap k m :=
    single_le_sum (fun _ _ => Nat.zero_le _) (left_mem_Ico.mpr behind)
  have some := (s.passGap_between k positive (by omega)).1
  unfold lag
  omega

/-- The record of the participant at that place of the request, who passes split `k`. -/
def record (s : Sampling) (component : String) (k : Nat) (place : String × Nat) : SplitRecord :=
  ⟨component, place.1, k, .ofCentis (s.elapsed k place.2), place.2,
    if place.2 = 1 then none else some (.ofCentis (s.lag k place.2))⟩

end Sampling

/-- Whether the times of a record can come from the gaps that its split and its rank say, among so many
starters. The clock stops at its end. -/
structure SplitRecord.KeepsPace (p : Pacing) (starters : Nat) (record : SplitRecord) : Prop where
  elapsed_ge :
    min (p.timeAfter Gap.shortest record.split ((record.split - 1) * starters + (record.rank - 1))) maxWord ≤
    record.elapsed.centis
  elapsed_le : record.elapsed.centis ≤
    min (p.timeAfter Gap.longest record.split ((record.split - 1) * starters + (record.rank - 1))) maxWord
  leads : record.delta = none ↔ record.rank = 1
  delta_ge : ∀ delta ∈ record.delta,
    min ((record.rank - 1) * p.participantGap.shortest.centis) maxWord ≤ delta.centis
  delta_le : ∀ delta ∈ record.delta,
    delta.centis ≤ min ((record.rank - 1) * p.participantGap.longest.centis) maxWord

namespace Sampling

variable {s : Sampling} {component : String} {k : Nat} {place : String × Nat}

theorem record_keepsPace (s : Sampling) (component : String) (k : Nat) (within : place.2 ≤ s.starters + 1) :
    (s.record component k place).KeepsPace s.pacing s.starters := by
  obtain ⟨lower, upper⟩ := s.elapsed_between k within
  obtain ⟨least, most⟩ := s.lag_between k within
  by_cases leads : place.2 = 1
  · have none : (s.record component k place).delta = none := if_pos leads
    exact ⟨min_le_min_right _ lower, min_le_min_right _ upper, iff_of_true none leads, by simp [none],
      by simp [none]⟩
  · have lag : (s.record component k place).delta = some (.ofCentis (s.lag k place.2)) := if_neg leads
    refine ⟨min_le_min_right _ lower, min_le_min_right _ upper, iff_of_false (by simp [lag]) leads, ?_, ?_⟩
    · rw [lag]
      rintro _ ⟨⟩
      exact min_le_min_right _ least
    · rw [lag]
      rintro _ ⟨⟩
      exact min_le_min_right _ most

theorem centis_delta (s : Sampling) (component : String) (k : Nat) (place : String × Nat) :
    ((s.record component k place).delta.getD .zero).centis = min (s.lag k place.2) maxWord := by
  unfold record
  dsimp only
  split
  · rename_i leads
    rw [leads, lag_one]
    rfl
  · rfl

/-- Within a split the times and the gaps to the leader grow with the rank, until the clock reaches its end. -/
theorem record_lt {other : String × Nat} (apart : 0 < s.pacing.participantGap.shortest.centis)
    (positive : 1 ≤ place.2) (behind : place.2 < other.2) (within : other.2 ≤ s.starters + 1)
    (fits : s.elapsed k other.2 ≤ maxWord) :
    (s.record component k place).elapsed.centis < (s.record component k other).elapsed.centis ∧
      ((s.record component k place).delta.getD .zero).centis <
        ((s.record component k other).delta.getD .zero).centis := by
  have grows := s.lag_lt k apart positive behind within
  have here := s.elapsed_leader k place.2
  have there := s.elapsed_leader k other.2
  rw [centis_delta, centis_delta]
  refine ⟨?_, by omega⟩
  change min (s.elapsed k place.2) maxWord < min (s.elapsed k other.2) maxWord
  omega

end Sampling

namespace RaceRequest

variable {r : RaceRequest} {s : Sampling}

theorem splits_cues (r : RaceRequest) (s : Sampling) :
    Rundown.splits ⟨r.component, r.cues s⟩ = (List.range' 1 r.splits).flatMap fun k =>
      (r.participants.zipIdx 1).map fun place =>
        ((s.record r.component k place).elapsed, s.record r.component k place) := by
  rw [Rundown.splits, cues, List.filterMap_append, List.filterMap_append, List.filterMap_flatMap]
  simp only [List.filterMap_map]
  simp only [← List.filterMap_eq_map]
  exact List.append_nil _

theorem statuses_cues (r : RaceRequest) (s : Sampling) :
    Rundown.statuses ⟨r.component, r.cues s⟩ = [(.zero, .registered), (s.pacing.leadIn, .started),
      (.ofCentis (s.finish r.splits), .finished),
      (.ofCentis (s.finish r.splits + s.pacing.resultsDelay.centis), .final)] := by
  simp [Rundown.statuses, cues, List.filterMap_append, List.filterMap_flatMap, List.filterMap_map, Sampling.passing]

theorem mem_splits_cues {passing : ClockTime × SplitRecord}
    (listed : passing ∈ Rundown.splits ⟨r.component, r.cues s⟩) :
    ∃ k place, 1 ≤ place.2 ∧ place.2 ≤ r.participants.length ∧
      passing = ((s.record r.component k place).elapsed, s.record r.component k place) := by
  rw [splits_cues] at listed
  obtain ⟨k, _, passed⟩ := List.mem_flatMap.mp listed
  obtain ⟨place, started, same⟩ := List.mem_map.mp passed
  obtain ⟨positive, less, _⟩ := List.mem_zipIdx started
  exact ⟨k, place, positive, by omega, same.symm⟩

end RaceRequest

/-- The times of an accepted race lie between those that the shortest and the longest gaps would give: the
participant with rank `i` passes split `k` after the gaps before so many splits, and after the gaps that
follow all participants of the splits before and those ahead at this one; the gap to the leader is made of
the latter; and the race is finished after all gaps. All of them are capped at the end of the clock. Every
participant passes every split, in the order of the request. If no gap between participants can be empty,
times and gaps to the leader grow with the rank as long as the clock has not reached its end. -/
theorem Feed.races_keep_pace {f : Feed} {r : RaceRequest} (accepted : r.rejection? f.config.bounds = none) :
    let p := f.config.pacing
    let n := r.participants.length
    let s := r.sampling p f.generator
    ∃ rundown : Rundown, (f.plan r).1 = .ok rundown ∧
      (rundown.splits.map fun passing => (passing.2.split, passing.2.rank, passing.2.participant)) =
        ((List.range' 1 r.splits).flatMap fun k =>
          (r.participants.zipIdx 1).map fun place => (k, place.2, place.1)) ∧
      (∀ passing ∈ rundown.splits, passing.1 = passing.2.elapsed ∧ passing.2.KeepsPace p n) ∧
      (∃ finish : ClockTime,
        rundown.statuses = [(.zero, .registered), (p.leadIn, .started), (finish, .finished),
          (finish + p.resultsDelay, .final)] ∧
        min (p.timeAfter Gap.shortest r.splits (r.splits * n)) maxWord ≤ finish.centis ∧
        finish.centis ≤ min (p.timeAfter Gap.longest r.splits (r.splits * n)) maxWord) ∧
      (0 < p.participantGap.shortest.centis →
        ∀ earlier ∈ rundown.splits, ∀ later ∈ rundown.splits, earlier.2.split = later.2.split →
          earlier.2.rank < later.2.rank → s.elapsed later.2.split later.2.rank ≤ maxWord →
          earlier.2.elapsed.centis < later.2.elapsed.centis ∧
            (earlier.2.delta.getD .zero).centis < (later.2.delta.getD .zero).centis) := by
  intro p n s
  refine ⟨⟨r.component, r.cues s⟩, ?_, ?_, ?_, ⟨.ofCentis (s.finish r.splits), ?_, ?_⟩, ?_⟩
  · unfold plan
    rw [accepted, r.plan_eq]
  · rw [RaceRequest.splits_cues, List.map_flatMap]
    simp only [List.map_map]
    rfl
  · intro passing listed
    obtain ⟨k, place, _, within, rfl⟩ := RaceRequest.mem_splits_cues listed
    exact ⟨rfl, s.record_keepsPace r.component k (Nat.le_succ_of_le within)⟩
  · rw [RaceRequest.statuses_cues, ClockTime.ofCentis_add]
    rfl
  · obtain ⟨lower, upper⟩ := s.finish_between r.splits
    exact ⟨min_le_min_right _ lower, min_le_min_right _ upper⟩
  · intro apart earlier here later there same behind fits
    obtain ⟨k, place, positive, _, rfl⟩ := RaceRequest.mem_splits_cues here
    obtain ⟨k', other, _, within, rfl⟩ := RaceRequest.mem_splits_cues there
    have split : k = k' := same
    subst split
    exact Sampling.record_lt apart positive behind (Nat.le_succ_of_le within) fits

/-- A race of two participants over two splits, whose gaps are left to chance. The second one passes the last
split behind two gaps before splits and three gaps after participants. -/
theorem Feed.two_by_two_keeps_pace :
    let f := Feed.start {} [] (.ofWords fun i => UInt32.ofNat (i * 1640531527))
    let leader : SplitRecord := ⟨"M", "x", 2, .ofCentis 2239, 1, none⟩
    let follower : SplitRecord := ⟨"M", "y", 2, .ofCentis 2426, 2, some (.ofCentis 187)⟩
    (RaceRequest.mk "M" 2 ["x", "y"]).rejection? f.config.bounds = none ∧
      0 < f.config.pacing.participantGap.shortest.centis ∧
      f.config.pacing.timeAfter Gap.shortest 2 3 = 1600 ∧ f.config.pacing.timeAfter Gap.longest 2 3 = 3200 ∧
      follower.KeepsPace f.config.pacing 2 ∧ leader.elapsed.centis < follower.elapsed.centis := by
  intro f leader follower
  have accepted : (RaceRequest.mk "M" 2 ["x", "y"]).rejection? f.config.bounds = none := by decide +kernel
  have apart : 0 < f.config.pacing.participantGap.shortest.centis := by decide +kernel
  obtain ⟨rundown, planned, _, within, _, grows⟩ := Feed.races_keep_pace accepted
  have passings : (f.plan ⟨"M", 2, ["x", "y"]⟩).1.toOption.map Rundown.splits = some [
      (.ofCentis 991, ⟨"M", "x", 1, .ofCentis 991, 1, none⟩),
      (.ofCentis 1120, ⟨"M", "y", 1, .ofCentis 1120, 2, some (.ofCentis 129)⟩),
      (.ofCentis 2239, leader), (.ofCentis 2426, follower)] := by decide +kernel
  rw [planned] at passings
  have listed : rundown.splits = _ := Option.some.inj passings
  have led : (.ofCentis 2239, leader) ∈ rundown.splits := by simp [listed]
  have followed : (.ofCentis 2426, follower) ∈ rundown.splits := by simp [listed]
  exact ⟨accepted, apart, by decide +kernel, by decide +kernel, (within _ followed).2,
    (grows apart _ led _ followed rfl (by decide) (by decide +kernel)).1⟩

end LiveTiming
