import LiveTiming.Text.Blank
import LiveTiming.Text.Quoted

namespace LiveTiming

/-- Whether a name can stand as one field of a record: it is not empty and holds no
bar, no blank and no control character. -/
def fitsField (name : String) : Bool :=
  !name.toList.isEmpty &&
    name.toList.all fun c => !(c == '|' || Text.isBlank c || Text.isControl c)

/-- The largest race that is accepted. -/
structure RaceBounds where
  maxSplits : Nat := 100
  maxParticipants : Nat := 256
deriving DecidableEq

/-- A race that is asked for. Its participants stand in the order in which they
finish. -/
structure RaceRequest where
  component : String
  splits : Nat
  participants : List String
deriving DecidableEq

/-- Why a race is rejected. -/
inductive RaceRejection
  | componentName (name : String)
  | splitCount (splits limit : Nat)
  | participantCount (participants limit : Nat)
  | participantName (name : String)
deriving DecidableEq

/-- The reason in words. -/
def RaceRejection.message : RaceRejection → String
  | .componentName name => "component id " ++ Text.quoted name ++ " is not a single field"
  | .splitCount splits limit => s!"{splits} splits exceeds the limit of {limit}"
  | .participantCount participants limit =>
    s!"{participants} participants exceeds the limit of {limit}"
  | .participantName name => "participant id " ++ Text.quoted name ++ " is not a single field"

namespace RaceRequest

/-- The first reason to reject the race: its component, the number of its splits, the
number of its participants, and the participants in turn. -/
def rejection? (r : RaceRequest) (bounds : RaceBounds) : Option RaceRejection :=
  if !fitsField r.component then some (.componentName r.component)
  else if bounds.maxSplits < r.splits then some (.splitCount r.splits bounds.maxSplits)
  else if bounds.maxParticipants < r.participants.length then
    some (.participantCount r.participants.length bounds.maxParticipants)
  else (r.participants.find? (!fitsField ·)).map .participantName

end RaceRequest

end LiveTiming
