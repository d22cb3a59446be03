import LiveTiming.Proofs.FeedRun

namespace LiveTiming

namespace Duration

theorem longest_toNanos : longest.toNanos = maxWord * 1000000000 + 999999999 :=
  rfl

/-- A duration that is too long becomes the longest one. -/
theorem ofParts_toNanos (seconds nanos : Nat) :
    (ofParts seconds nanos).toNanos = min (seconds * 1000000000 + nanos) longest.toNanos := by
  have whole := Nat.div_add_mod nanos 1000000000
  have rest := Nat.mod_lt nanos (show 0 < 1000000000 by decide)
  rw [longest_toNanos]
  unfold ofParts
  split
  · dsimp only [toNanos]
    omega
  · rw [longest_toNanos]
    omega

/-- So does a multiple that is too long. -/
theorem scale_toNanos (d : Duration) (k : Nat) :
    (d.scale k).toNanos = min (d.toNanos * k) longest.toNanos := by
  have product : d.seconds * k * 1000000000 + d.nanos * k = d.toNanos * k := by
    rw [toNanos, Nat.add_mul, Nat.mul_right_comm]
  unfold scale
  rw [ofParts_toNanos, product]

/-- The hundredth part is rounded down. -/
theorem hundredth_toNanos (d : Duration) : d.hundredth.toNanos = d.toNanos / 100 := by
  unfold hundredth toNanos
  dsimp only
  omega

end Duration

namespace ClockTime

variable {a b : ClockTime}

/-- The real time of a point on the race clock: a hundredth of so many time units, where
neither the hundredths nor the product exceeds its word. -/
theorem realTime_toNanos (t : ClockTime) (unit : Duration) :
    (t.realTime unit).toNanos =
      min (unit.toNanos * min t.centis (UInt32.size - 1)) Duration.longest.toNanos / 100 := by
  unfold realTime
  rw [Duration.hundredth_toNanos, Duration.scale_toNanos]

/-- A later time of a race is not sooner in real time. -/
theorem realTime_le (order : a.centis ≤ b.centis) (unit : Duration) :
    (a.realTime unit).toNanos ≤ (b.realTime unit).toNanos := by
  have hundredths : min a.centis (UInt32.size - 1) ≤ min b.centis (UInt32.size - 1) :=
    min_le_min_right _ order
  rw [realTime_toNanos, realTime_toNanos]
  exact Nat.div_le_div_right (min_le_min_right _ (Nat.mul_le_mul_left _ hundredths))

theorem le_add (a b : ClockTime) : a.centis ≤ (a + b).centis :=
  le_min (Nat.le_add_right _ _) a.centis_le

end ClockTime

/-- Whether a cue is due no later than another one. -/
def Cue.Before (a b : Cue) : Prop :=
  a.offset.centis ≤ b.offset.centis

/-- The cues of a draft stand in the order in which they are due, and the race has come
as far as all of them. -/
structure Draft.Timely (d : Draft) : Prop where
  ordered : d.cues.toList.Pairwise Cue.Before
  reached : ∀ cue ∈ d.cues.toList, cue.offset.centis ≤ d.cursor.centis

namespace Draft

variable {d : Draft} {pacing : Pacing} {component : String}

/-- A draft stays timely as time goes on. -/
theorem Timely.advance (timely : d.Timely) (gap : ClockTime) (g : Generator) :
    Timely ⟨d.cursor + gap, d.cues, g⟩ where
  ordered := timely.ordered
  reached cue member := (timely.reached cue member).trans (ClockTime.le_add _ _)

/-- A cue at the present time stands behind all others. -/
theorem Timely.push (timely : d.Timely) (m : Message) (g : Generator) :
    Timely ⟨d.cursor, d.cues.push ⟨d.cursor, m⟩, g⟩ where
  ordered := by
    rw [Array.toList_push, List.pairwise_append]
    refine ⟨timely.ordered, List.pairwise_singleton _ _, fun cue member last same => ?_⟩
    rw [List.mem_singleton.mp same]
    exact timely.reached cue member
  reached cue member := by
    rw [Array.toList_push] at member
    rcases List.mem_append.mp member with old | same
    · exact timely.reached cue old
    · rw [List.mem_singleton.mp same]

theorem passings_timely (timely : d.Timely) (split : Nat) (participants : List String) (rank : Nat)
    (delta : ClockTime) : (passings pacing component split participants rank delta d).Timely := by
  induction participants generalizing d rank delta with
  | nil => exact timely
  | cons participant later ih => exact ih ((timely.push _ d.generator).advance _ _) _ _

theorem split_timely (timely : d.Timely) (participants : List String) (number : Nat) :
    (split pacing component participants d number).Timely :=
  passings_timely (timely.advance _ _) _ _ _ _

theorem start_timely (pacing : Pacing) (component : String) (g : Generator) :
    (start pacing component g).Timely where
  ordered := by simp [start, Cue.Before, ClockTime.zero, ClockTime.ofCentis]
  reached := by simp [start, ClockTime.zero, ClockTime.ofCentis]

/-- The cues of a rundown stand in the order of their times. -/
theorem finish_ordered (timely : d.Timely) : (finish pacing component d).cues.Pairwise Cue.Before := by
  have finished := timely.push (.status component .finished) d.generator
  have final := (finished.advance pacing.resultsDelay d.generator).push (.status component .final) d.generator
  simpa [finish] using final.ordered

end Draft

/-- The cues of a race are planned in the order in which they are due. -/
theorem RaceRequest.plan_ordered (r : RaceRequest) (pacing : Pacing) (g : Generator) :
    (r.plan pacing g).1.cues.Pairwise Cue.Before := by
  have splits (numbers : List Nat) {d : Draft} (timely : d.Timely) :
      (numbers.foldl (Draft.split pacing r.component r.participants) d).Timely := by
    induction numbers generalizing d with
    | nil => exact timely
    | cons number _ ih => exact ih (Draft.split_timely timely _ _)
  exact Draft.finish_ordered (splits _ (Draft.start_timely _ _ _))

namespace Rundown

/-- The events of a race come in the order of its cues. Cues that fall together in real
time are told apart by their numbers. -/
theorem events_ordered {r : Rundown} (ordered : r.cues.Pairwise Cue.Before) (unit : Duration) (base : Nat)
    (first : EventId) :
    (r.events unit base first).Pairwise Event.Before := by
  unfold events
  generalize r.cues = cues at ordered
  induction cues generalizing first with
  | nil => exact List.Pairwise.nil
  | cons cue cues ih =>
    obtain ⟨earliest, rest⟩ := List.pairwise_cons.mp ordered
    rw [List.zipIdx_cons, List.map_cons]
    refine List.pairwise_cons.mpr ⟨fun e member => ?_, ih _ rest⟩
    obtain ⟨⟨later, id⟩, listed, rfl⟩ := List.mem_map.mp member
    have number : first < id := List.le_snd_of_mem_zipIdx listed
    have time := ClockTime.realTime_le (earliest later (List.fst_mem_of_mem_zipIdx listed)) unit
    refine ⟨Event.le_iff.mpr ?_, Nat.ne_of_lt number⟩
    rcases Nat.lt_or_eq_of_le (Nat.add_le_add_left time base) with sooner | together
    · exact Or.inl sooner
    · exact Or.inr ⟨together, number.le⟩

end Rundown

end LiveTiming
