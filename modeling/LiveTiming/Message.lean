import LiveTiming.ClockTime
import LiveTiming.Text.Fields

namespace LiveTiming

/-- The stage of its life that a component is in. Simulated races pass through the four
named stages; an operator may announce any code. -/
structure Stage where
  code : UInt8
deriving DecidableEq

namespace Stage

def registered : Stage := ⟨0⟩
def started : Stage := ⟨1⟩
def final : Stage := ⟨3⟩
def finished : Stage := ⟨4⟩

instance : ToString Stage :=
  ⟨fun s => toString s.code.toNat⟩

end Stage

/-- The time of one participant at one split, the rank there, and the gap to the
leader. -/
structure SplitRecord where
  component : String
  participant : String
  split : Nat
  elapsed : ClockTime
  rank : Nat
  delta : Option ClockTime
deriving DecidableEq

namespace SplitRecord

/-- The record of a participant who passes a split with that rank. The leader has
no gap. -/
def ranked (component participant : String) (split : Nat) (elapsed : ClockTime) (rank : Nat)
    (delta : ClockTime) : SplitRecord :=
  ⟨component, participant, split, elapsed, rank, if 1 < rank then some delta else none⟩

/-- The gap as it is written, which is empty for a leader. -/
def deltaText (r : SplitRecord) : String :=
  match r.delta with
  | some d => if 1 < r.rank then d.gapText else ""
  | none => ""

end SplitRecord

/-- What the feed sends to its subscribers. -/
inductive Message
  | status (component : String) (stage : Stage)
  | split (record : SplitRecord)
  | raw (text : String)
deriving DecidableEq

namespace Message

/-- The line of a message. Records are fields with bars between them, and name
their component twice; an operator's text stands as it is. -/
def render : Message → String
  | .status component stage =>
    Text.record ["STT0", component, component, toString stage]
  | .split r =>
    Text.record ["LOG0", r.component, r.component, r.participant, "y", toString r.split,
      r.elapsed.clockText, toString r.rank, r.deltaText]
  | .raw text => text

/-- The component that the message is about. -/
def component? : Message → Option String
  | .status component _ => some component
  | .split r => some r.component
  | .raw _ => none

/-- The kind of message, in one word. -/
def kind : Message → String
  | .status .. => "status"
  | .split _ => "split"
  | .raw _ => "raw"

instance : ToString Message :=
  ⟨render⟩

end Message

end LiveTiming
