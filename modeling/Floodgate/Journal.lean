import Floodgate.Config.Validity
import Floodgate.Keyed
import Floodgate.Peer

/-! # Decision journal

A journal sums up the decisions on each pair of a peer and a topic between two prints. It keeps a
bounded number of pairs: decisions on further pairs are only counted. A print lists the pairs, those
with more rejected messages first, and empties the journal. -/

namespace Floodgate

/-- A decision on one or more messages. -/
structure Decision where
  peer : PeerId
  topic : String
  messages : Nat
  size : Nat
  verdict : Verdict

/-- The decisions on one pair. -/
structure PairStats where
  admitted : Nat := 0
  admittedSize : Nat := 0
  rejected : Nat := 0
  rejectedSize : Nat := 0
  /-- Has a message been refused because the peer was banned? -/
  blacklisted : Bool := false
  /-- The text of the last refusal. -/
  lastRejection : Option String := none
deriving DecidableEq, Inhabited

/-- The statistics with one more decision. The sums have no largest value: they are what counters of
64 bits hold as long as they stay below `2 ^ 64`. -/
def PairStats.add (s : PairStats) (d : Decision) : PairStats :=
  match d.verdict with
  | .ok _ => { s with admitted := s.admitted + d.messages, admittedSize := s.admittedSize + d.size }
  | .error f =>
    { s with
      rejected := s.rejected + d.messages
      rejectedSize := s.rejectedSize + d.size
      blacklisted := s.blacklisted || f.isBlacklisted
      lastRejection := some f.message }

/-- One record of a print. -/
inductive JournalRow where
  | pair (peer : PeerId) (topic : String) (stats : PairStats)
  | dropped (events : Nat)
deriving DecidableEq

/-- The decisions since the last print. -/
structure Journal where
  /-- The number of pairs that are kept. -/
  capacity : Nat
  /-- The time between two prints. -/
  interval : Span
  pairs : Keyed (PeerId × String) PairStats
  /-- Decisions on pairs that are not kept. -/
  dropped : Nat

namespace Journal

/-- The empty journal of settings. -/
def new (c : JournalConfig) : Journal :=
  { capacity := c.capacity.toNat, interval := .ofSeconds c.printSeconds.toNat, pairs := ∅
    dropped := 0 }

/-- The journal of settings, which are checked even if they turn it off. -/
def make? (c : JournalConfig) : Except Fault Journal :=
  match Rule.check c.rules with
  | .error f => .error f
  | .ok _ => .ok (new c)

/-- The statistics of a pair. -/
def stats? (j : Journal) (peer : PeerId) (topic : String) : Option PairStats :=
  j.pairs.get? (peer, topic)

/-- Takes down a decision. -/
def add (j : Journal) (d : Decision) : Journal :=
  match j.pairs.get? (d.peer, d.topic) with
  | some s => { j with pairs := j.pairs.insert (d.peer, d.topic) (s.add d) }
  | none =>
    if j.capacity ≤ j.pairs.size then { j with dropped := j.dropped + 1 }
    else { j with pairs := j.pairs.insert (d.peer, d.topic) (PairStats.add {} d) }

/-- The order of a print: more rejected messages first, then by the text of the peer and the
topic. -/
def precedes (a b : (PeerId × String) × PairStats) : Bool :=
  if a.2.rejected = b.2.rejected then
    if a.1.1 = b.1.1 then a.1.2 ≤ b.1.2 else a.1.1.hex ≤ b.1.1.hex
  else b.2.rejected < a.2.rejected

/-- The records of a print. -/
def rows (j : Journal) : List JournalRow :=
  ((j.pairs.entries.mergeSort precedes).map fun e => .pair e.1.1 e.1.2 e.2) ++
    if j.dropped = 0 then [] else [.dropped j.dropped]

/-- The journal after a print. -/
def cleared (j : Journal) : Journal := { j with pairs := ∅, dropped := 0 }

end Journal

end Floodgate
