import LiveTiming.Proofs.RaceBooking

namespace LiveTiming

/-- Whether so many seconds fill one signed 64-bit word at most. -/
def FitsSignedWord (seconds : Int) : Prop :=
  Int64.minValue.toInt ≤ seconds ∧ seconds ≤ Int64.maxValue.toInt

instance (seconds : Int) : Decidable (FitsSignedWord seconds) :=
  inferInstanceAs (Decidable (_ ∧ _))

theorem fitsSignedWord_iff {seconds : Int} :
    FitsSignedWord seconds ↔ -9223372036854775808 ≤ seconds ∧ seconds ≤ 9223372036854775807 :=
  Iff.rfl

/-- A point in time on the clock of the machine: whole seconds, and the nanoseconds beyond them. -/
structure Instant where
  seconds : Int
  nanos : Nat
  seconds_fit : FitsSignedWord seconds
  nanos_lt : nanos < 1000000000

namespace Instant

/-- The nanoseconds since the clock showed zero, or before it. -/
def toNanos (t : Instant) : Int :=
  t.seconds * 1000000000 + t.nanos

/-- The last point in time. -/
def last : Instant :=
  ⟨Int64.maxValue.toInt, 999999999, by decide, Duration.longest.nanos_lt⟩

/-- The point in time that is so much later, if there is one. The seconds are added first, and then the
one that the nanoseconds carry. -/
def add? (t : Instant) (d : Duration) : Option Instant :=
  if fits : FitsSignedWord (t.seconds + d.seconds) then
    if carries : 1000000000 ≤ t.nanos + d.nanos then
      if fits : FitsSignedWord (t.seconds + d.seconds + 1) then
        some ⟨t.seconds + d.seconds + 1, t.nanos + d.nanos - 1000000000, fits, by
          have := t.nanos_lt
          have := d.nanos_lt
          omega⟩
      else none
    else some ⟨t.seconds + d.seconds, t.nanos + d.nanos, fits, by omega⟩
  else none

/-- Whether a hundredth of the longest span passes before the last point in time. -/
def HasRoom (t : Instant) : Prop :=
  t.toNanos + Duration.longest.hundredth.toNanos ≤ last.toNanos

variable {base : Instant}

theorem add?_toNanos (t : Instant) (d : Duration) :
    (t.add? d).map toNanos =
      if t.toNanos + d.toNanos ≤ last.toNanos then some (t.toNanos + d.toNanos) else none := by
  have ends : last.toNanos = 9223372036854775807999999999 := rfl
  have starts := (fitsSignedWord_iff.mp t.seconds_fit).1
  have nanos := t.nanos_lt
  have others := d.nanos_lt
  have sum : t.toNanos + d.toNanos = (t.seconds + d.seconds) * 1000000000 + (t.nanos + d.nanos) := by
    simp only [toNanos, Duration.toNanos]
    omega
  rw [ends, sum]
  unfold add?
  split
  case isFalse exceeds =>
    -- A span is never negative, so it is the upper end that the seconds exceed.
    rw [fitsSignedWord_iff] at exceeds
    rw [if_neg (by omega), Option.map_none]
  case isTrue fits =>
    rw [fitsSignedWord_iff] at fits
    split
    case isFalse whole =>
      rw [if_pos (by omega)]
      rfl
    case isTrue carries =>
      split
      case isFalse exceeds =>
        rw [fitsSignedWord_iff] at exceeds
        rw [if_neg (by omega), Option.map_none]
      case isTrue next =>
        rw [fitsSignedWord_iff] at next
        rw [if_pos (by omega), Option.map_some, toNanos]
        congr 1
        dsimp only
        omega

theorem HasRoom.add? (room : base.HasRoom) {d : Duration} (short : d.toNanos ≤ Duration.longest.hundredth.toNanos) :
    (base.add? d).map toNanos = some (base.toNanos + d.toNanos) := by
  unfold HasRoom at room
  rw [add?_toNanos, if_pos (by omega)]

end Instant

theorem Duration.parts (d : Duration) :
    d.seconds = d.toNanos / 1000000000 ∧ d.nanos = d.toNanos % 1000000000 := by
  have nanos := d.nanos_lt
  unfold toNanos
  omega

namespace ClockTime

theorem realTime_mono {a b : ClockTime} {unit longer : Duration} (order : a.centis ≤ b.centis)
    (units : unit.toNanos ≤ longer.toNanos) : (a.realTime unit).toNanos ≤ (b.realTime longer).toNanos := by
  refine (realTime_le order unit).trans ?_
  rw [realTime_toNanos, realTime_toNanos]
  exact Nat.div_le_div_right (min_le_min_right _ (Nat.mul_le_mul_right _ units))

theorem realTime_le_hundredth (t : ClockTime) (unit : Duration) :
    (t.realTime unit).toNanos ≤ Duration.longest.hundredth.toNanos := by
  rw [realTime_toNanos, Duration.hundredth_toNanos]
  exact Nat.div_le_div_right (min_le_right _ _)

/-- The end of the race clock takes a hundredth of the longest span, if the time unit is as long as can be. -/
theorem realTime_longest :
    ((ofCentis maxWord).realTime Duration.longest).toNanos = Duration.longest.hundredth.toNanos := by
  decide +kernel

theorem hundred_realTime_le (t : ClockTime) (unit : Duration) :
    100 * (t.realTime unit).toNanos ≤ min (t.centis * unit.toNanos) Duration.longest.toNanos := by
  have clamped : unit.toNanos * min t.centis (UInt32.size - 1) ≤ t.centis * unit.toNanos := by
    rw [Nat.mul_comm t.centis]
    exact Nat.mul_le_mul_left _ (min_le_left _ _)
  rw [realTime_toNanos]
  exact (Nat.mul_div_le _ 100).trans (min_le_min_right _ clamped)

end ClockTime

/-- There is room for every real time exactly if there is room for the longest one. -/
theorem Instant.hasRoom_iff {base : Instant} :
    base.HasRoom ↔ ∀ (t : ClockTime) (unit : Duration), ∃ due, base.add? (t.realTime unit) = some due := by
  constructor
  · intro room t unit
    obtain ⟨due, added, _⟩ := Option.map_eq_some_iff.mp (room.add? (t.realTime_le_hundredth unit))
    exact ⟨due, added⟩
  · intro fits
    obtain ⟨due, added⟩ := fits (.ofCentis maxWord) Duration.longest
    have sum := base.add?_toNanos ((ClockTime.ofCentis maxWord).realTime Duration.longest)
    rw [added, ClockTime.realTime_longest] at sum
    split at sum
    case isTrue room => exact room
    case isFalse => cases sum

/-- The events of a race fall due when the clock of the machine shows them, for a race that starts at `base`. -/
theorem Rundown.events_fit {base : Instant} (room : base.HasRoom) (rundown : Rundown) (unit : Duration)
    (clock : Nat)
    (first : EventId) :
    rundown.cues.map (fun cue => (base.add? (cue.offset.realTime unit)).map Instant.toNanos) =
      (rundown.events unit clock first).map (fun e => some (base.toNanos + (e.time - clock))) := by
  have times := congrArg (List.map fun time : Nat => some (base.toNanos + ((time : Int) - clock)))
    (rundown.events_times unit clock first)
  rw [List.map_map, List.map_map] at times
  refine Eq.trans (List.map_congr_left fun cue _ => ?_) times.symm
  rw [room.add? (cue.offset.realTime_le_hundredth unit)]
  simp

namespace ClockTime

/-- The real time of a point on the race clock is a hundredth of that many time units, rounded down to a
nanosecond, where neither the hundredths nor the product exceeds its word, and whole seconds are carried out
of the nanoseconds. It grows with the point and with the unit, and is never longer than the exact time nor
than a hundredth of the longest span. So it can always be added to a point in time exactly if that leaves so
much room, and then every event of a race is due on the clock of the machine as long after the start of the
race as it is on that of the feed. -/
theorem real_times_are_exact_and_fit :
    (∀ (t : ClockTime) (unit : Duration),
      let total := min (min t.centis (UInt32.size - 1) * unit.toNanos) Duration.longest.toNanos / 100
      (t.realTime unit).toNanos = total ∧
        (t.realTime unit).seconds = total / 1000000000 ∧ (t.realTime unit).nanos = total % 1000000000 ∧
        100 * (t.realTime unit).toNanos ≤ t.centis * unit.toNanos ∧
        100 * (t.realTime unit).toNanos ≤ Duration.longest.toNanos) ∧
    (∀ (a b : ClockTime) (unit longer : Duration), a.centis ≤ b.centis → unit.toNanos ≤ longer.toNanos →
      (a.realTime unit).toNanos ≤ (b.realTime longer).toNanos) ∧
    ∀ base : Instant,
      (base.HasRoom ↔ ∀ (t : ClockTime) (unit : Duration), ∃ due, base.add? (t.realTime unit) = some due) ∧
      (base.HasRoom → ∀ (t : ClockTime) (unit : Duration),
        (base.add? (t.realTime unit)).map Instant.toNanos = some (base.toNanos + (t.realTime unit).toNanos)) ∧
      ∀ (f : Feed) (r : RaceRequest) (rundown : Rundown), base.HasRoom → (f.plan r).1 = .ok rundown →
        let events := rundown.events f.config.timeUnit f.hub.clock f.hub.timeline.nextId
        (f.launch r).2.hub.timeline = f.hub.timeline.insertAll (events.map fun e => (e.time, e.message)) ∧
        rundown.cues.map (fun cue => (base.add? (cue.offset.realTime f.config.timeUnit)).map Instant.toNanos) =
          events.map fun e => some (base.toNanos + (e.time - f.hub.clock)) := by
  refine ⟨fun t unit => ?_, fun _ _ _ _ => realTime_mono, fun base => ⟨Instant.hasRoom_iff, ?_, ?_⟩⟩
  · intro total
    have exact : (t.realTime unit).toNanos = total := by
      rw [realTime_toNanos, Nat.mul_comm unit.toNanos]
    obtain ⟨seconds, nanos⟩ := (t.realTime unit).parts
    obtain ⟨short, fits⟩ := le_min_iff.mp (t.hundred_realTime_le unit)
    rw [exact] at seconds nanos
    exact ⟨exact, seconds, nanos, short, fits⟩
  · exact fun room t unit => room.add? (t.realTime_le_hundredth unit)
  · intro f r rundown room planned events
    obtain ⟨_, launches, _⟩ := Feed.launch_planned planned
    exact ⟨congrArg (·.2.hub.timeline) launches, rundown.events_fit room _ _ _⟩

/-- The latest point in time with room. One nanosecond later, the longest real time no longer fits. A race
whose time unit is as long as can be starts there, and its final results are due at the last point in time. -/
theorem longest_race_ends_at_the_last_instant :
    let base : Instant := ⟨9038904596117680291, 840000000, by decide, by decide⟩
    let late : Instant := ⟨9038904596117680291, 840000001, by decide, by decide⟩
    let f := Feed.start { timeUnit := .longest } [] (.ofWords fun _ => 0)
    base.HasRoom ∧ ¬ late.HasRoom ∧
      (((ofCentis 250).realTime ⟨1, 999999999, by decide, by decide⟩).seconds = 4 ∧
        ((ofCentis 250).realTime ⟨1, 999999999, by decide, by decide⟩).nanos = 999999997) ∧
      ((ofCentis 4294967295).realTime (.ofNanos 7)).toNanos ≤
        ((ofCentis 4294967296).realTime (.ofNanos 8)).toNanos ∧
      (base.add? ((ofCentis 4294967296).realTime .longest)).map Instant.toNanos = some Instant.last.toNanos ∧
      ∃ rundown, (f.plan ⟨"M", 0, []⟩).1 = .ok rundown ∧
        rundown.cues.map (fun cue => (base.add? (cue.offset.realTime .longest)).map Instant.toNanos) =
          [some base.toNanos, some Instant.last.toNanos, some Instant.last.toNanos, some Instant.last.toNanos] := by
  intro base late f
  have room : base.HasRoom := by
    unfold Instant.HasRoom
    decide +kernel
  have tooLate : ¬ late.HasRoom := by
    unfold Instant.HasRoom
    decide +kernel
  obtain ⟨exact, order, fits⟩ := real_times_are_exact_and_fit
  obtain ⟨_, added, races⟩ := fits base
  let rundown : Rundown := ⟨"M", [⟨.ofCentis 0, .status "M" .registered⟩, ⟨.ofCentis 300, .status "M" .started⟩,
    ⟨.ofCentis 300, .status "M" .finished⟩, ⟨.ofCentis 800, .status "M" .final⟩]⟩
  have planned : (f.plan ⟨"M", 0, []⟩).1 = .ok rundown := by decide +kernel
  obtain ⟨_, seconds, nanos, _⟩ := exact (ofCentis 250) ⟨1, 999999999, by decide, by decide⟩
  refine ⟨room, tooLate, ⟨seconds.trans (by decide +kernel), nanos.trans (by decide +kernel)⟩,
    order _ _ _ _ (by decide +kernel) (by decide +kernel), (added room _ _).trans (by decide +kernel),
    rundown, planned, (races f _ rundown room planned).2.trans (by decide +kernel)⟩

end ClockTime

end LiveTiming
