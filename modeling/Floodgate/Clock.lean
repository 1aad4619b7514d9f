import Floodgate.Power

/-! # Time

Time is counted in nanoseconds from the start of the clock. A span added to an instant gives its
end, unless the end lies beyond the last representable second: then there is no end. -/

namespace Floodgate

/-- A point of time: nanoseconds since the clock started. -/
abbrev Instant := Nat

/-- A length of time in nanoseconds. -/
abbrev Span := Nat

namespace Span

/-- One second. -/
def second : Span := 1000000000

/-- One millisecond. -/
def millisecond : Span := 1000000

/-- The longest span. -/
def longest : Span := (2 ^ (64 : Nat) - 1) * second + 999999999

/-- The span of a number of whole seconds. -/
def ofSeconds (n : Nat) : Span := n * second

/-- The span of a number of milliseconds. -/
def ofMilliseconds (n : Nat) : Span := n * millisecond

/-- The whole seconds of a span. -/
def seconds (s : Span) : Nat := s / second

/-- What a span has beyond its whole seconds, in nanoseconds. -/
def nanoseconds (s : Span) : Nat := s % second

end Span

namespace Instant

/-- The last second an instant can lie in. -/
def lastSecond : Nat := 2 ^ (63 : Nat) - 1

/-- The instant a span ends, if it can be represented. -/
def plus? (start : Instant) (span : Span) : Option Instant :=
  if Span.seconds (start + span) ≤ lastSecond then some (start + span) else none

/-- The time left until an end; without an end it is the longest span. -/
def timeLeft (now : Instant) : Option Instant → Span
  | some finish => finish - now
  | none => Span.longest

/-- Has an end been reached? -/
def reached (now : Instant) : Option Instant → Bool
  | some finish => finish ≤ now
  | none => false

/-- The stops of a clock that moves from `now` to `target` and rests at every whole second. -/
def stops (now target : Instant) : List Instant :=
  ((List.range' (now / Span.second + 1) (target / Span.second - now / Span.second)).map
    (· * Span.second)) ++ if target % Span.second = 0 then [] else [target]

end Instant

end Floodgate
