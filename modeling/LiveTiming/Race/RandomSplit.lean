import LiveTiming.Message
import LiveTiming.Random.Draw

namespace LiveTiming.SplitRecord

/-- The longest random time, 7:59.99. -/
def elapsedLimit : Nat := 47999

/-- The last random rank. -/
def rankLimit : Nat := 6

/-- The longest random gap, 59.99. -/
def deltaLimit : Nat := 5999

/-- A split record with a random time, rank and gap, which are drawn in this order
whatever the rank is. -/
def random (component participant : String) (split : Nat) (g : Generator) :
    SplitRecord × Generator :=
  let (elapsed, g) := g.uniform .word64 0 elapsedLimit
  let (rank, g) := g.uniform .word32 1 rankLimit
  let (delta, g) := g.uniform .word64 0 deltaLimit
  (.ranked component participant split (.ofCentis elapsed) rank (.ofCentis delta), g)

end LiveTiming.SplitRecord
