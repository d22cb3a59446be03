import LiveTiming.Network.Address
import LiveTiming.Outcome

namespace LiveTiming

/-- The network that a feed is on: whether its links are up, and the addresses that
others listen on. -/
structure Network where
  isUp : Bool := true
  taken : List SocketAddress := []

namespace HostAddress

/-- Whether this stands for every address of a machine. -/
def isUnspecified : HostAddress → Bool
  | .v4 a b c d => a + b + c + d == 0
  | .v6 groups => groups.all (· == 0)

/-- Whether the address can only be used on a link that is up. -/
def needsLink : HostAddress → Bool
  | .v4 .. => false
  | .v6 groups => !groups.all (· == 0)

end HostAddress

namespace Network

/-- Whether nobody can listen on the second address while somebody listens on the
first. Port zero stands for one that is free. -/
def clashes (a b : SocketAddress) : Bool :=
  a.port == b.port && b.port != 0 &&
    (a.host == b.host || a.host.isUnspecified || b.host.isUnspecified)

/-- Starts to listen on an address. -/
def bind (n : Network) (a : SocketAddress) : Except Failure Network :=
  if n.taken.any (clashes · a) then .error (.bind a "Address already in use (os error 98)")
  else if a.host.needsLink && !n.isUp then
    .error (.bind a "Cannot assign requested address (os error 99)")
  else .ok { n with taken := a :: n.taken }

/-- Why nobody can connect over the network, if so. -/
def connectError? (n : Network) : Option String :=
  if n.isUp then none else some "Network is unreachable (os error 101)"

end Network

end LiveTiming
