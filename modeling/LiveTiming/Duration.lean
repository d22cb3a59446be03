namespace LiveTiming

/-- The largest unsigned 64-bit word. -/
def maxWord : Nat := UInt64.size - 1

/-- A span of real time: whole seconds, which fill one word at most, and the
nanoseconds beyond them. -/
structure Duration where
  seconds : Nat
  nanos : Nat
  seconds_le : seconds ≤ maxWord
  nanos_lt : nanos < 1000000000
deriving DecidableEq

namespace Duration

/-- The length in nanoseconds. -/
def toNanos (d : Duration) : Nat :=
  d.seconds * 1000000000 + d.nanos

/-- The longest span. -/
def longest : Duration :=
  ⟨maxWord, 999999999, Nat.le_refl _, by decide⟩

/-- The span of `seconds` seconds and `nanos` nanoseconds, where whole seconds
among the nanoseconds are carried; the longest span when that is too much. -/
def ofParts (seconds nanos : Nat) : Duration :=
  if fits : seconds + nanos / 1000000000 ≤ maxWord then
    ⟨seconds + nanos / 1000000000, nanos % 1000000000, fits, Nat.mod_lt _ (by decide)⟩
  else longest

/-- The span of `n` nanoseconds, or the longest span. -/
def ofNanos (n : Nat) : Duration :=
  ofParts 0 n

/-- The span of `n` milliseconds, or the longest span. -/
def ofMillis (n : Nat) : Duration :=
  ofParts (n / 1000) (n % 1000 * 1000000)

/-- The span `k` times as long, or the longest span. -/
def scale (d : Duration) (k : Nat) : Duration :=
  ofParts (d.seconds * k) (d.nanos * k)

/-- One hundredth of the span, rounded down to a nanosecond. The seconds that do
not divide are carried into the nanoseconds. -/
def hundredth (d : Duration) : Duration where
  seconds := d.seconds / 100
  nanos := (d.seconds % 100 * 1000000000 + d.nanos) / 100
  seconds_le := Nat.le_trans (Nat.div_le_self _ _) d.seconds_le
  nanos_lt := by
    have := d.nanos_lt
    omega

end Duration

end LiveTiming
