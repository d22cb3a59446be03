import LiveTiming.ClockTime
import LiveTiming.Random.Draw

namespace LiveTiming

/-- How far apart two events of a race are: `base` at least, and up to `jitter`
more by chance. -/
structure Gap where
  base : ClockTime
  jitter : ClockTime
deriving DecidableEq

namespace Gap

/-- A gap that leaves nothing to chance. -/
def constant (base : ClockTime) : Gap :=
  ⟨base, .zero⟩

/-- Draws one gap. A gap without jitter takes no random word. -/
def draw (gap : Gap) (g : Generator) : ClockTime × Generator :=
  if gap.jitter.centis = 0 then (gap.base, g)
  else
    let (extra, g) := g.uniform .word64 0 gap.jitter.centis
    (gap.base + .ofCentis extra, g)

/-- The shortest gap that can be drawn. -/
def shortest (gap : Gap) : ClockTime :=
  gap.base

/-- The longest gap that can be drawn. -/
def longest (gap : Gap) : ClockTime :=
  gap.base + gap.jitter

end Gap

/-- The gaps that a simulated race is built from: from the registration to the
start, before the first participant of each split, between participants, and
from the finish to the final results. -/
structure Pacing where
  leadIn : ClockTime := .ofUnits 3
  splitGap : Gap := ⟨.ofUnits 5, .ofUnits 5⟩
  participantGap : Gap := ⟨.ofUnits 1, .ofUnits 2⟩
  resultsDelay : ClockTime := .ofUnits 5
deriving DecidableEq

end LiveTiming
