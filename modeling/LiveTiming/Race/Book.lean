import LiveTiming.Timeline

namespace LiveTiming

/-- The events of the simulated races, by component. A component stands there once. -/
structure RaceBook where
  races : List (String × List EventId) := []

namespace RaceBook

/-- The events noted for a component. -/
def eventsOf (b : RaceBook) (component : String) : List EventId :=
  (b.races.lookup component).getD []

/-- Keeps the events that are still to come, and the components that have any. -/
def prune (b : RaceBook) (t : Timeline) : RaceBook :=
  ⟨(b.races.map fun (c, ids) => (c, ids.filter t.contains)).filter fun (_, ids) => !ids.isEmpty⟩

/-- Notes more events of a component. -/
def extend (b : RaceBook) (component : String) (ids : List EventId) : RaceBook :=
  if (b.races.lookup component).isSome then
    ⟨b.races.map fun (c, old) => if c = component then (c, old ++ ids) else (c, old)⟩
  else ⟨b.races ++ [(component, ids)]⟩

/-- Forgets a component. -/
def forget (b : RaceBook) (component : String) : RaceBook :=
  ⟨b.races.filter fun (c, _) => c != component⟩

/-- The number of components with an event that is still to come. -/
def active (b : RaceBook) (t : Timeline) : Nat :=
  (b.races.filter fun (_, ids) => ids.any t.contains).length

end RaceBook

end LiveTiming
