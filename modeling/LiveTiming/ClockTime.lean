import LiveTiming.Duration

namespace LiveTiming

/-- A point or a span on the race clock, in hundredths of a time unit. Race
clocks fill one word and stop at its end. -/
@[ext]
structure ClockTime where
  centis : Nat
  centis_le : centis ≤ maxWord

namespace ClockTime

instance : DecidableEq ClockTime := fun _ _ =>
  decidable_of_iff _ ClockTime.ext_iff.symm

/-- `n` hundredths of a time unit, or the end of the clock. -/
def ofCentis (n : Nat) : ClockTime :=
  ⟨min n maxWord, Nat.min_le_right _ _⟩

/-- `n` whole time units, or the end of the clock. -/
def ofUnits (n : Nat) : ClockTime :=
  ofCentis (n * 100)

/-- The start of the race clock. -/
def zero : ClockTime :=
  ofCentis 0

/-- The sum stops at the end of the clock. -/
instance : Add ClockTime :=
  ⟨fun a b => ofCentis (a.centis + b.centis)⟩

/-- The later of two points. -/
instance : Max ClockTime :=
  ⟨fun a b => if a.centis ≤ b.centis then b else a⟩

/-- The real time that passes until the clock shows `t`, when one time unit lasts
`unit`. The hundredths are counted in a 32-bit word, which stops at its end. -/
def realTime (t : ClockTime) (unit : Duration) : Duration :=
  (unit.scale (min t.centis (UInt32.size - 1))).hundredth

/-- A number below one hundred in two digits. -/
def twoDigits (n : Nat) : String :=
  if n < 10 then "0" ++ toString n else toString n

/-- Minutes, seconds and hundredths from one minute on, both lesser parts in two
digits. -/
def minutesText (t : ClockTime) : String :=
  toString (t.centis / 6000) ++ ":" ++ twoDigits (t.centis / 100 % 60) ++ "." ++
    twoDigits (t.centis % 100)

/-- The form of an elapsed time: `SS.ss`, and `M:SS.ss` from one minute on. -/
def clockText (t : ClockTime) : String :=
  if 6000 ≤ t.centis then t.minutesText
  else twoDigits (t.centis / 100) ++ "." ++ twoDigits (t.centis % 100)

/-- The form of a gap to the leader: `+S.ss`, and `+M:SS.ss` from one minute on. -/
def gapText (t : ClockTime) : String :=
  if 6000 ≤ t.centis then "+" ++ t.minutesText
  else "+" ++ toString (t.centis / 100) ++ "." ++ twoDigits (t.centis % 100)

instance : ToString ClockTime :=
  ⟨clockText⟩

end ClockTime

end LiveTiming
