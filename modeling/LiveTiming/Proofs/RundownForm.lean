import LiveTiming.Proofs.RaceTimes
import Mathlib.Algebra.BigOperators.Intervals

namespace LiveTiming

namespace ClockTime

theorem ofCentis_add (n : Nat) (b : ClockTime) : ofCentis n + b = ofCentis (n + b.centis) := by
  apply ClockTime.ext
  change min (min n maxWord + b.centis) maxWord = min (n + b.centis) maxWord
  omega

theorem ofCentis_centis_eq (t : ClockTime) : ofCentis t.centis = t :=
  ClockTime.ext (min_eq_left t.centis_le)

theorem centis_ofCentis {n : Nat} (fits : n ≤ maxWord) : (ofCentis n).centis = n :=
  min_eq_left fits

theorem max_centis (a b : ClockTime) : (max a b).centis = max a.centis b.centis := by
  by_cases order : a.centis ≤ b.centis
  · rw [max_eq_right order]
    exact congrArg centis (if_pos order)
  · rw [max_eq_left (by omega)]
    exact congrArg centis (if_neg order)

end ClockTime

/-- The gaps that a race draws: before every split one for the split, and then one after each of
its participants, the last included. -/
structure Sampling where
  pacing : Pacing
  starters : Nat
  generator : Generator

/-- The gaps of a race that is planned with these random words. -/
def RaceRequest.sampling (r : RaceRequest) (pacing : Pacing) (g : Generator) : Sampling :=
  ⟨pacing, r.participants.length, g⟩

namespace Sampling

open Finset

/-- The kind of gap that is drawn after `t` others. -/
def kind (s : Sampling) (t : Nat) : Gap :=
  if t % (s.starters + 1) = 0 then s.pacing.splitGap else s.pacing.participantGap

/-- The random words that are left after `t` gaps. -/
def generatorAfter (s : Sampling) : Nat → Generator
  | 0 => s.generator
  | t + 1 => ((s.kind t).draw (s.generatorAfter t)).2

/-- The gap that is drawn after `t` others, in hundredths. -/
def drawn (s : Sampling) (t : Nat) : Nat :=
  ((s.kind t).draw (s.generatorAfter t)).1.centis

/-- The gap before split `k`. -/
def splitGap (s : Sampling) (k : Nat) : Nat :=
  s.drawn ((k - 1) * (s.starters + 1))

/-- The gap after the participant with rank `i` at split `k`. -/
def passGap (s : Sampling) (k i : Nat) : Nat :=
  s.drawn ((k - 1) * (s.starters + 1) + i)

/-- The race time at which the participant with rank `i` passes split `k`, on a clock without an end. -/
def elapsed (s : Sampling) (k i : Nat) : Nat :=
  s.pacing.leadIn.centis + ∑ j ∈ Icc 1 k, s.splitGap j +
    ∑ j ∈ Ico 1 k, ∑ m ∈ Icc 1 s.starters, s.passGap j m + ∑ m ∈ Ico 1 i, s.passGap k m

/-- The gap between the leader and the participant with rank `i` at split `k`. -/
def lag (s : Sampling) (k i : Nat) : Nat :=
  ∑ m ∈ Ico 1 i, s.passGap k m

/-- The race time of the finish after `k` splits, which comes after the last participant's gap. -/
def finish (s : Sampling) (k : Nat) : Nat :=
  s.pacing.leadIn.centis + ∑ j ∈ Icc 1 k, s.splitGap j +
    ∑ j ∈ Icc 1 k, ∑ m ∈ Icc 1 s.starters, s.passGap j m

/-- How the participant passes split `k` who stands at that place of the request. -/
def passing (s : Sampling) (component : String) (k : Nat) (place : String × Nat) : Cue :=
  ⟨.ofCentis (s.elapsed k place.2), .split ⟨component, place.1, k, .ofCentis (s.elapsed k place.2), place.2,
    if place.2 = 1 then none else some (.ofCentis (s.lag k place.2))⟩⟩

/-- The race time when `t` gaps have been drawn. -/
def total (s : Sampling) (t : Nat) : Nat :=
  s.pacing.leadIn.centis + ∑ u ∈ range t, s.drawn u

variable (s : Sampling) {k i : Nat}

theorem total_succ (t : Nat) : s.total (t + 1) = s.total t + s.drawn t := by
  unfold total
  rw [sum_range_succ]
  omega

/-- The gaps of one split, in the order in which they are drawn. -/
theorem sum_split (k n : Nat) :
    ∑ u ∈ range (n + 1), s.drawn (k * (s.starters + 1) + u) =
      s.splitGap (k + 1) + ∑ m ∈ Icc 1 n, s.passGap (k + 1) m := by
  rw [sum_range_succ', ← Ico_add_one_right_eq_Icc, sum_Ico_eq_sum_range, Nat.add_comm]
  simp only [splitGap, passGap, Nat.add_sub_cancel, Nat.add_zero, Nat.add_comm 1]

theorem finish_eq (k : Nat) : s.finish k = s.total (k * (s.starters + 1)) := by
  unfold finish total
  induction k with
  | zero => simp
  | succ k ih =>
    have round := s.sum_split k s.starters
    rw [sum_Icc_succ_top (by omega), sum_Icc_succ_top (by omega), Nat.succ_mul, sum_range_add]
    omega

theorem elapsed_eq (k i : Nat) : s.elapsed (k + 1) (i + 1) = s.total (k * (s.starters + 1) + (i + 1)) := by
  have before := s.finish_eq k
  have round := s.sum_split k i
  unfold finish total at before
  unfold elapsed total
  rw [sum_Icc_succ_top (by omega), sum_range_add, Ico_add_one_right_eq_Icc, Ico_add_one_right_eq_Icc]
  omega

theorem kind_split (k : Nat) : s.kind (k * (s.starters + 1)) = s.pacing.splitGap := by
  rw [kind, if_pos (Nat.mul_mod_left _ _)]

theorem kind_pass (k : Nat) (left : i < s.starters) :
    s.kind (k * (s.starters + 1) + (i + 1)) = s.pacing.participantGap := by
  have rest : (k * (s.starters + 1) + (i + 1)) % (s.starters + 1) = i + 1 := by
    rw [Nat.mul_add_mod_self_right, Nat.mod_eq_of_lt (by omega)]
  rw [kind, rest, if_neg (by omega)]

theorem lag_one (k : Nat) : s.lag k 1 = 0 := by
  simp [lag]

theorem lag_succ (positive : 1 ≤ i) (k : Nat) : s.lag k (i + 1) = s.lag k i + s.passGap k i :=
  sum_Ico_succ_top positive _

theorem elapsed_leader (k i : Nat) : s.elapsed k i = s.elapsed k 1 + s.lag k i := by
  simp [elapsed, lag]

end Sampling

/-- Where a draft stands after `t` gaps, with the cues that it has by then. -/
structure Draft.Stands (s : Sampling) (t : Nat) (cues : List Cue) (d : Draft) : Prop where
  generator : d.generator = s.generatorAfter t
  cursor : d.cursor = .ofCentis (s.total t)
  cues : d.cues.toList = cues

namespace Draft

open Sampling

variable {s : Sampling} {t k i : Nat} {cues : List Cue} {d : Draft} {component : String}

theorem Stands.draw (stands : d.Stands s t cues) {gap : Gap} (kind : s.kind t = gap) :
    Stands s (t + 1) cues ⟨d.cursor + (gap.draw d.generator).1, d.cues, (gap.draw d.generator).2⟩ where
  generator := by rw [stands.generator, generatorAfter, kind]
  cursor := by rw [stands.cursor, stands.generator, ClockTime.ofCentis_add, total_succ, drawn, kind]
  cues := stands.cues

theorem Stands.push (stands : d.Stands s t cues) (cue : Cue) :
    Stands s t (cues ++ [cue]) ⟨d.cursor, d.cues.push cue, d.generator⟩ where
  generator := stands.generator
  cursor := stands.cursor
  cues := by rw [Array.toList_push, stands.cues]

/-- The cue of the next participant at a split. -/
theorem Stands.passing (stands : d.Stands s (k * (s.starters + 1) + (i + 1)) cues) (participant : String) :
    Cue.mk d.cursor (.split (.ranked component participant (k + 1) d.cursor (i + 1)
      (.ofCentis (s.lag (k + 1) (i + 1))))) = s.passing component (k + 1) (participant, i + 1) := by
  have gap : (if 1 < i + 1 then some (ClockTime.ofCentis (s.lag (k + 1) (i + 1))) else none) =
      if i + 1 = 1 then none else some (.ofCentis (s.lag (k + 1) (i + 1))) := by
    by_cases leads : i = 0
    · rw [if_neg (by omega), if_pos (by omega)]
    · rw [if_pos (by omega), if_neg (by omega)]
  rw [SplitRecord.ranked, gap, stands.cursor, Sampling.passing, elapsed_eq]

/-- The participants that are left at a split pass it one after the other, each with its rank. -/
theorem Stands.passings (component : String) (later : List String)
    (stands : d.Stands s (k * (s.starters + 1) + (i + 1)) cues) (left : i + later.length = s.starters) :
    Stands s ((k + 1) * (s.starters + 1))
      (cues ++ (later.zipIdx (i + 1)).map (s.passing component (k + 1)))
      (passings s.pacing component (k + 1) later (i + 1) (.ofCentis (s.lag (k + 1) (i + 1))) d) := by
  induction later generalizing i cues d with
  | nil =>
    have done : i = s.starters := left
    rw [done] at stands
    rw [List.zipIdx_nil, List.map_nil, List.append_nil, Nat.succ_mul]
    exact stands
  | cons participant later ih =>
    rw [List.length_cons] at left
    have kind := s.kind_pass k (i := i) (by omega)
    have lag : ClockTime.ofCentis (s.lag (k + 1) (i + 1)) + (s.pacing.participantGap.draw d.generator).1 =
        .ofCentis (s.lag (k + 1) (i + 1 + 1)) := by
      rw [ClockTime.ofCentis_add, s.lag_succ (i := i + 1) (by omega), passGap, drawn, Nat.add_sub_cancel, kind,
        stands.generator]
    have passed := (stands.push (s.passing component (k + 1) (participant, i + 1))).draw kind
    rw [List.zipIdx_cons, List.map_cons, List.append_cons, Draft.passings, stands.passing]
    dsimp only
    rw [lag]
    exact ih passed (by omega)

/-- One more split. -/
theorem Stands.split (stands : d.Stands s (k * (s.starters + 1)) cues) {participants : List String}
    (all : participants.length = s.starters) :
    Stands s ((k + 1) * (s.starters + 1))
      (cues ++ (participants.zipIdx 1).map (s.passing component (k + 1)))
      (split s.pacing component participants d (k + 1)) := by
  have led := stands.draw (s.kind_split k)
  have passed := led.passings (i := 0) component participants (by omega)
  rw [Nat.zero_add, lag_one] at passed
  exact passed

theorem Stands.start (s : Sampling) (component : String) :
    Stands s 0 [⟨.zero, .status component .registered⟩, ⟨s.pacing.leadIn, .status component .started⟩]
      (start s.pacing component s.generator) where
  generator := rfl
  cursor := (ClockTime.ofCentis_centis_eq _).symm
  cues := rfl

/-- All splits, one after the other. -/
theorem Stands.splits (stands : d.Stands s 0 cues) (component : String) (participants : List String)
    (all : participants.length = s.starters) (splits : Nat) :
    Stands s (splits * (s.starters + 1))
      (cues ++ (List.range' 1 splits).flatMap fun k => (participants.zipIdx 1).map (s.passing component k))
      ((List.range' 1 splits).foldl (Draft.split s.pacing component participants) d) := by
  induction splits with
  | zero => simpa using stands
  | succ k ih =>
    rw [List.range'_1_concat, List.foldl_concat, List.flatMap_append, ← List.append_assoc, List.flatMap_singleton,
      Nat.add_comm 1]
    exact ih.split all

/-- The finish and the final results, after all splits. -/
theorem Stands.finish (stands : d.Stands s (k * (s.starters + 1)) cues) :
    finish s.pacing component d = ⟨component, cues ++ [⟨.ofCentis (s.finish k), .status component .finished⟩,
      ⟨.ofCentis (s.finish k + s.pacing.resultsDelay.centis), .status component .final⟩]⟩ := by
  have cursor := stands.cursor
  rw [← finish_eq] at cursor
  rw [Draft.finish, stands.cues, cursor, ClockTime.ofCentis_add]

end Draft

namespace Rundown

variable {r : Rundown}

theorem mem_splits {place : ClockTime × SplitRecord} :
    place ∈ r.splits ↔ ⟨place.1, .split place.2⟩ ∈ r.cues := by
  rw [splits, List.mem_filterMap]
  constructor
  · rintro ⟨⟨offset, message⟩, listed, chosen⟩
    cases message with
    | split record => cases chosen; exact listed
    | status => cases chosen
    | raw => cases chosen
  · intro listed
    exact ⟨_, listed, rfl⟩

/-- The race lasts until its last cue, since the cues are planned in order. -/
theorem duration_eq {last : Cue} (ordered : r.cues.Pairwise Cue.Before)
    (ends : r.cues.getLast? = some last) : r.duration = last.offset := by
  have within (cues : List Cue) (latest : ClockTime) (early : latest.centis ≤ last.offset.centis)
      (all : ∀ cue ∈ cues, cue.Before last) :
      (cues.foldl (fun latest cue => max latest cue.offset) latest).centis ≤ last.offset.centis := by
    induction cues generalizing latest with
    | nil => exact early
    | cons cue cues ih =>
      have first : cue.offset.centis ≤ last.offset.centis := all cue List.mem_cons_self
      refine ih _ ?_ fun c member => all c (List.mem_cons_of_mem _ member)
      rw [ClockTime.max_centis]
      omega
  obtain ⟨before, ends⟩ := List.getLast?_eq_some_iff.mp ends
  rw [ends, List.pairwise_append] at ordered
  have others := within before .zero (Nat.zero_le _) fun cue member =>
    ordered.2.2 cue member last (List.mem_singleton_self _)
  rw [duration, ends, List.foldl_concat]
  apply ClockTime.ext
  rw [ClockTime.max_centis]
  omega

end Rundown

namespace RaceRequest

open Sampling

variable {r : RaceRequest} {s : Sampling}

/-- The cues of a race with these gaps: the registration, the start, the passings of each split
from the leader on, the finish and the final results. -/
def cues (r : RaceRequest) (s : Sampling) : List Cue :=
  [⟨.zero, .status r.component .registered⟩, ⟨s.pacing.leadIn, .status r.component .started⟩] ++
    ((List.range' 1 r.splits).flatMap fun k => (r.participants.zipIdx 1).map (s.passing r.component k)) ++
    [⟨.ofCentis (s.finish r.splits), .status r.component .finished⟩,
      ⟨.ofCentis (s.finish r.splits + s.pacing.resultsDelay.centis), .status r.component .final⟩]

theorem plan_eq (r : RaceRequest) (pacing : Pacing) (g : Generator) :
    r.plan pacing g = (⟨r.component, r.cues (r.sampling pacing g)⟩,
      (r.sampling pacing g).generatorAfter (r.splits * (r.participants.length + 1))) := by
  have start := Draft.Stands.start (r.sampling pacing g) r.component
  have stands := start.splits r.component r.participants rfl r.splits
  exact Prod.ext stands.finish stands.generator

theorem length_cues (r : RaceRequest) (s : Sampling) :
    (r.cues s).length = 4 + r.splits * r.participants.length := by
  have passings : ((List.range' 1 r.splits).flatMap fun k =>
      (r.participants.zipIdx 1).map (s.passing r.component k)).length = r.splits * r.participants.length := by
    simp only [List.length_flatMap, List.length_map, List.length_zipIdx, List.map_const', List.sum_replicate_nat,
      List.length_range']
  rw [cues, List.length_append, List.length_append, passings]
  simp only [List.length_cons, List.length_nil]
  omega

theorem getLast?_cues (r : RaceRequest) (s : Sampling) :
    (r.cues s).getLast? = some
      ⟨.ofCentis (s.finish r.splits + s.pacing.resultsDelay.centis), .status r.component .final⟩ := by
  rw [cues, List.getLast?_append]
  rfl

/-- The passings among the cues have the times and gaps of their splits and ranks. -/
theorem split_mem_cues {offset : ClockTime} {record : SplitRecord}
    (listed : ⟨offset, .split record⟩ ∈ r.cues s) :
    record.elapsed = .ofCentis (s.elapsed record.split record.rank) ∧
      record.delta = if record.rank = 1 then none else some (.ofCentis (s.lag record.split record.rank)) := by
  have passed : ∃ k, (1 ≤ k ∧ k < 1 + r.splits) ∧ ∃ participant rank,
      (participant, rank) ∈ r.participants.zipIdx 1 ∧
        s.passing r.component k (participant, rank) = ⟨offset, .split record⟩ := by
    simpa [cues] using listed
  obtain ⟨k, -, participant, rank, -, same⟩ := passed
  cases same
  exact ⟨rfl, rfl⟩

/-- The gap to the leader is the difference of the times, if the clock shows them. -/
theorem delta_eq {here there leader follower} (led : ⟨here, .split leader⟩ ∈ r.cues s)
    (followed : ⟨there, .split follower⟩ ∈ r.cues s) (same : leader.split = follower.split)
    (first : leader.rank = 1) (fits : s.elapsed follower.split follower.rank ≤ maxWord) {delta : ClockTime}
    (given : follower.delta = some delta) :
    delta.centis = follower.elapsed.centis - leader.elapsed.centis := by
  have apart := s.elapsed_leader follower.split follower.rank
  obtain ⟨sooner, -⟩ := split_mem_cues led
  obtain ⟨later, gap⟩ := split_mem_cues followed
  rw [given] at gap
  by_cases leads : follower.rank = 1
  · rw [if_pos leads] at gap
    cases gap
  · rw [if_neg leads] at gap
    rw [later, sooner, same, first, Option.some.inj gap, ClockTime.centis_ofCentis fits,
      ClockTime.centis_ofCentis (by omega), ClockTime.centis_ofCentis (by omega)]
    omega

end RaceRequest

/-- The plan of an accepted race in closed form. Its cues follow from the gaps as they are drawn: the
registration at zero, the start, the participants of each split in turn, each with the time of all gaps
so far and the gap to the leader, and the finish and the final results after the last gap. They come in
order, so the race lasts until the last of them. Where the clock has not reached its end, the gap to
the leader is the difference of the times. -/
theorem Feed.plan_in_closed_form {f : Feed} {r : RaceRequest} (accepted : r.rejection? f.config.bounds = none) :
    let s := r.sampling f.config.pacing f.generator
    ∃ rundown : Rundown,
      f.plan r = (.ok rundown, { f with generator := s.generatorAfter (r.splits * (r.participants.length + 1)) }) ∧
      rundown = ⟨r.component, r.cues s⟩ ∧
      rundown.cues.length = 4 + r.splits * r.participants.length ∧
      rundown.cues.Pairwise Cue.Before ∧
      rundown.cues.getLast?.map Cue.offset = some rundown.duration ∧
      ∀ leader ∈ rundown.splits, ∀ follower ∈ rundown.splits,
        leader.2.split = follower.2.split → leader.2.rank = 1 →
        s.elapsed follower.2.split follower.2.rank ≤ maxWord →
        ∀ delta ∈ follower.2.delta, delta.centis = follower.2.elapsed.centis - leader.2.elapsed.centis := by
  intro s
  have planned := r.plan_eq f.config.pacing f.generator
  have ordered := r.plan_ordered f.config.pacing f.generator
  rw [planned] at ordered
  refine ⟨⟨r.component, r.cues s⟩, ?_, rfl, r.length_cues s, ordered, ?_, ?_⟩
  · unfold plan
    rw [accepted, planned]
  · have ends := r.getLast?_cues s
    rw [Rundown.duration_eq ordered ends, ends]
    rfl
  · intro leader led follower followed same first fits delta given
    exact RaceRequest.delta_eq (Rundown.mem_splits.mp led) (Rundown.mem_splits.mp followed) same first fits given

/-- A race of two participants over two splits, whose gaps are left to chance. -/
theorem Feed.two_by_two_in_closed_form :
    let f := Feed.start {} [] (.ofWords fun i => UInt32.ofNat (i * 1640531527))
    ∃ rundown : Rundown, (f.plan ⟨"M", 2, ["x", "y"]⟩).1 = .ok rundown ∧
      rundown.cues.map (fun cue => cue.offset.centis) = [0, 300, 991, 1120, 2239, 2426, 2566, 3066] ∧
      rundown.splits.map Prod.snd =
        [⟨"M", "x", 1, .ofCentis 991, 1, none⟩, ⟨"M", "y", 1, .ofCentis 1120, 2, some (.ofCentis 129)⟩,
          ⟨"M", "x", 2, .ofCentis 2239, 1, none⟩, ⟨"M", "y", 2, .ofCentis 2426, 2, some (.ofCentis 187)⟩] ∧
      rundown.duration = .ofCentis 3066 := by
  intro f
  have accepted : (RaceRequest.mk "M" 2 ["x", "y"]).rejection? f.config.bounds = none := by decide +kernel
  obtain ⟨rundown, planned, form, -, -, lasts, -⟩ := Feed.plan_in_closed_form accepted
  have last : rundown.cues.getLast?.map Cue.offset = some (.ofCentis 3066) := by
    rw [form]
    decide +kernel
  refine ⟨rundown, by rw [planned], ?_, ?_, Option.some.inj (lasts.symm.trans last)⟩
  · rw [form]
    decide +kernel
  · rw [form]
    decide +kernel

end LiveTiming
