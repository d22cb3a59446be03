import LiveTiming.Message
import LiveTiming.Pacing
import LiveTiming.Race.Request

namespace LiveTiming

/-- A message and the race time at which it is due. -/
structure Cue where
  offset : ClockTime
  message : Message
deriving DecidableEq

/-- The cues of a race, in the order in which they are scheduled. -/
structure Rundown where
  component : String
  cues : List Cue
deriving DecidableEq

/-- How far the planning of a race has come: the race time, the cues so far, and the
random words that are left. -/
structure Draft where
  cursor : ClockTime
  cues : Array Cue
  generator : Generator

namespace Draft

/-- Plans how participants pass a split. The next one passes it at the cursor, with
that rank and that gap to the leader; after every one, the last included, a gap is
drawn that moves both. -/
def passings (pacing : Pacing) (component : String) (split : Nat) :
    List String → (rank : Nat) → (delta : ClockTime) → Draft → Draft
  | [], _, _, d => d
  | participant :: later, rank, delta, d =>
    let record := SplitRecord.ranked component participant split d.cursor rank delta
    let (gap, g) := pacing.participantGap.draw d.generator
    passings pacing component split later (rank + 1) (delta + gap)
      ⟨d.cursor + gap, d.cues.push ⟨d.cursor, .split record⟩, g⟩

/-- Plans one split: a gap, and then the participants from the leader on. -/
def split (pacing : Pacing) (component : String) (participants : List String) (d : Draft)
    (number : Nat) : Draft :=
  let (gap, g) := pacing.splitGap.draw d.generator
  passings pacing component number participants 1 .zero ⟨d.cursor + gap, d.cues, g⟩

/-- The registration and the start of a race. -/
def start (pacing : Pacing) (component : String) (g : Generator) : Draft where
  cursor := pacing.leadIn
  cues := #[⟨.zero, .status component .registered⟩, ⟨pacing.leadIn, .status component .started⟩]
  generator := g

/-- The finish of a race and its final results. -/
def finish (pacing : Pacing) (component : String) (d : Draft) : Rundown where
  component
  cues := d.cues.toList ++ [⟨d.cursor, .status component .finished⟩,
    ⟨d.cursor + pacing.resultsDelay, .status component .final⟩]

end Draft

/-- Plans a race that is accepted: the participants pass its splits between the start
and the finish. -/
def RaceRequest.plan (r : RaceRequest) (pacing : Pacing) (g : Generator) :
    Rundown × Generator :=
  let d := (List.range' 1 r.splits).foldl (Draft.split pacing r.component r.participants)
    (.start pacing r.component g)
  (Draft.finish pacing r.component d, d.generator)

namespace Rundown

/-- The offset of the latest cue. -/
def duration (r : Rundown) : ClockTime :=
  r.cues.foldl (fun latest cue => max latest cue.offset) .zero

/-- The status changes with their offsets. -/
def statuses (r : Rundown) : List (ClockTime × Stage) :=
  r.cues.filterMap fun cue =>
    match cue.message with
    | .status _ stage => some (cue.offset, stage)
    | _ => none

/-- The split records with their offsets. -/
def splits (r : Rundown) : List (ClockTime × SplitRecord) :=
  r.cues.filterMap fun cue =>
    match cue.message with
    | .split record => some (cue.offset, record)
    | _ => none

end Rundown

end LiveTiming
