import LiveTiming.Subscriber

namespace LiveTiming

/-- The number under which a subscriber is registered. -/
structure SubscriberId where
  number : Nat
deriving DecidableEq

instance : ToString SubscriberId :=
  ⟨fun id => s!"S{id.number}"⟩

/-- A registration of the subscriber with the given index, who may have several. -/
structure Entry where
  id : SubscriberId
  subscriber : Nat
deriving DecidableEq

/-- Who is registered, in the order of the registrations, and the next number. -/
structure Roster where
  entries : List Entry := []
  nextId : Nat := 1

namespace Roster

/-- The registration of the subscribers with an index below `count`, in turn. -/
def ofCount (count : Nat) : Roster :=
  ⟨(List.range count).map fun i => ⟨⟨i + 1⟩, i⟩, count + 1⟩

/-- Gives out a number that was never given out before. -/
def reserve (r : Roster) : SubscriberId × Roster :=
  (⟨r.nextId⟩, { r with nextId := r.nextId + 1 })

/-- Registers a subscriber under a number that was given out. -/
def enter (r : Roster) (id : SubscriberId) (subscriber : Nat) : Roster :=
  { r with entries := r.entries ++ [⟨id, subscriber⟩] }

/-- Ends a registration, and tells whether there was one. -/
def remove (r : Roster) (id : SubscriberId) : Bool × Roster :=
  (r.entries.any (·.id == id), { r with entries := r.entries.filter (·.id != id) })

/-- Ends the registrations with the given numbers. -/
def evict (r : Roster) (ids : List SubscriberId) : Roster :=
  { r with entries := r.entries.filter fun e => !ids.contains e.id }

/-- The numbers of the registrations. -/
def ids (r : Roster) : List SubscriberId :=
  r.entries.map (·.id)

end Roster

/-- What became of one broadcast: how many subscribers took it, how many dropped it
and stay, and who is evicted. -/
structure Tally where
  delivered : Nat := 0
  dropped : Nat := 0
  evicted : List SubscriberId := []
deriving DecidableEq

/-- The tally with the answer of one more subscriber. -/
def Tally.count (t : Tally) (id : SubscriberId) : Option Refusal → Tally
  | none => { t with delivered := t.delivered + 1 }
  | some refusal =>
    if refusal.isFinal then { t with evicted := t.evicted ++ [id] }
    else { t with dropped := t.dropped + 1 }

end LiveTiming
