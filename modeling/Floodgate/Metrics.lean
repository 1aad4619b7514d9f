import Floodgate.Tier

/-! # Metrics

Each tier sums up what its peers have sent in an interval and publishes the sums when the interval
ends; rejected messages are counted as they come. A board holds, for each speed, what has been
published last and how many messages have been rejected. -/

namespace Floodgate

/-- What the peers of a tier have sent in an interval. -/
structure Totals where
  peers : Nat := 0
  received : Nat := 0
  receivedSize : Nat := 0
  admitted : Nat := 0
  admittedSize : Nat := 0
  /-- The most messages of one peer. -/
  peakReceived : Nat := 0
  /-- The most bytes of one peer. -/
  peakReceivedSize : Nat := 0
deriving DecidableEq, Inhabited

namespace Totals

/-- The totals with one more peer. The sums have no largest value, unlike the counters of the quotas
that are added up: they are what counters of 64 bits hold as long as they stay below `2 ^ 64`. -/
def add (t : Totals) (q : Quota) : Totals where
  peers := t.peers + 1
  received := t.received + q.received
  receivedSize := t.receivedSize + q.receivedSize
  admitted := t.admitted + q.admitted
  admittedSize := t.admittedSize + q.admittedSize
  peakReceived := max t.peakReceived q.received
  peakReceivedSize := max t.peakReceivedSize q.receivedSize

/-- The totals by name. -/
def gauges (t : Totals) : List (String × Nat) :=
  [ ("num_peers", t.peers),
    ("num_received_messages", t.received),
    ("size_received_messages", t.receivedSize),
    ("num_processed_messages", t.admitted),
    ("size_processed_messages", t.admittedSize),
    ("peak_num_received_messages", t.peakReceived),
    ("peak_size_received_messages", t.peakReceivedSize) ]

end Totals

/-- What is known of the tiers of one speed. -/
structure Panel where
  /-- Messages rejected so far. -/
  rejected : Nat := 0
  /-- The totals of the last interval that has ended. -/
  published : Option Totals := none
deriving DecidableEq, Inhabited

/-- The panels of all speeds. -/
abbrev Board := PerSpeed Panel

namespace Board

/-- The board on which nothing has been published. -/
def blank : Board := .constant {}

/-- Counts a rejected message. -/
def count (b : Board) (speed : Speed) (a : Admission) : Board :=
  if a.isAdmitted then b
  else b.set { b.get speed with rejected := (b.get speed).rejected + 1 } speed

/-- Publishes the totals of an interval. -/
def publish (b : Board) (speed : Speed) (t : Totals) : Board :=
  b.set { b.get speed with published := some t } speed

/-- The full name of a metric. -/
def metric (speed : Speed) (name : String) : String := s!"{speed.name}.{name}"

/-- The published totals by full name. -/
def gauges (b : Board) : List (String × Nat) :=
  b.toList.flatMap fun (speed, panel) =>
    match panel.published with
    | none => []
    | some t => t.gauges.map fun (name, n) => (metric speed name, n)

/-- The counts of rejected messages by full name, those of nothing left out. -/
def counters (b : Board) : List (String × Nat) :=
  b.toList.flatMap fun (speed, panel) =>
    if panel.rejected = 0 then [] else [(metric speed "rejected_messages", panel.rejected)]

end Board

end Floodgate
