import Floodgate.Clock

/-! # Maintenance schedules

A loop does its job periodically, for the first time one period after its start. When the clock
rests, each loop that is due fires once. A loop that fires in time is due next one period after it
was due; one that fires more than a tolerance late skips what it has missed and is due next at the
following multiple of its period. Once a schedule is cancelled no loop fires. -/

namespace Floodgate

/-- A job that is done periodically. -/
structure Loop (J : Type) where
  job : J
  period : Span
  /-- When the job is to be done next. -/
  due : Instant
deriving DecidableEq

namespace Loop

variable {J : Type}

/-- How late a loop may fire without skipping. -/
def tolerance : Span := 5 * Span.millisecond

/-- A loop that starts now. -/
def start (now : Instant) (job : J) (period : Span) : Loop J := ⟨job, period, now + period⟩

/-- Is the loop due? -/
def isDue (l : Loop J) (now : Instant) : Bool := l.due ≤ now

/-- When a loop that fires now is due next. -/
def nextDue (l : Loop J) (now : Instant) : Instant :=
  if now ≤ l.due + tolerance then l.due + l.period
  else now + l.period - (now - l.due) % l.period

/-- The loop after a rest of the clock. -/
def tick (l : Loop J) (now : Instant) : Loop J :=
  if l.isDue now then { l with due := l.nextDue now } else l

end Loop

/-- The loops of a node. -/
structure Schedule (J : Type) where
  loops : List (Loop J)
  cancelled : Bool := false

namespace Schedule

variable {J : Type}

/-- The schedule of jobs with their periods, started now. -/
def start (now : Instant) (jobs : List (J × Span)) : Schedule J :=
  { loops := jobs.map fun (job, period) => .start now job period }

/-- The jobs that are to be done when the clock rests. -/
def due (s : Schedule J) (now : Instant) : List J :=
  if s.cancelled then [] else (s.loops.filter (·.isDue now)).map (·.job)

/-- The schedule after a rest of the clock. -/
def tick (s : Schedule J) (now : Instant) : Schedule J :=
  if s.cancelled then s else { s with loops := s.loops.map (·.tick now) }

/-- The schedule that fires no more. -/
def cancel (s : Schedule J) : Schedule J := { s with cancelled := true }

end Schedule

end Floodgate
