import Floodgate.Proofs.Station.Rate

/-! # Incidents

A station hands out its parts: the keys that are banned, the watches of its lanes, its topics and
its journal can be worked on by hand. An `Incident` is a moment of a run or such a piece of manual
work, and `Station.through` is the station after a run of them. -/

namespace Floodgate

/-- What happens in a run, the parts of the station being worked on by hand as well. -/
inductive Incident where
  | moment (m : Moment)
  /-- A key is banned for a span, whatever was there. -/
  | enterKey (key : PublicKey) (span : Span)
  /-- A key is banned for a span; one that is banned already keeps the longer span. -/
  | extendKey (key : PublicKey) (span : Span)
  | liftKey (key : PublicKey)
  | liftKeys
  /-- The watch of a lane is told of a decision that its tier has not made. -/
  | report (i : Nat) (peer : PeerId) (q : Quota) (a : Admission)
  /-- The watch of a lane is told what a peer has sent. -/
  | addExcess (i : Nat) (peer : PeerId) (q : Quota)
  /-- The interval of a watch ends, and that of its tier does not. -/
  | endWatch (i : Nat)
  | resetRegistered
  | resetUnregistered
  /-- The journal is told of a decision. -/
  | note (d : Decision)

namespace Gate

/-- The gate with the watch of the lane at an index worked on. -/
def mapWatch (g : Gate) (i : Nat) (f : FloodWatch → FloodWatch) : Gate :=
  { g with lanes := g.lanes.modify i fun l => { l with watch := f l.watch } }

/-- The watch of the lane at an index takes note of a decision, and writes the ban it leads to. -/
def reportAt (g : Gate) (now : Instant) (i : Nat) (peer : PeerId) (q : Quota) (a : Admission) :
    Gate :=
  match g.lanes[i]? with
  | none => g
  | some l =>
    let (watch, blacklist) := l.watch.observe g.blacklist now peer q a
    (g.mapWatch i fun _ => watch).withBlacklist blacklist

end Gate

namespace Station

/-- The station after an incident. -/
def meet (s : Station) : Incident → Station
  | .moment m => s.occur m
  | .enterKey key span => { s with keys := s.keys.add s.now key () span }
  | .extendKey key span => { s with keys := s.keys.upsert s.now key () span }
  | .liftKey key => { s with keys := s.keys.remove key }
  | .liftKeys => { s with keys := ∅ }
  | .report i peer q a => { s with gate := s.gate.reportAt s.now i peer q a }
  | .addExcess i peer q => { s with gate := s.gate.mapWatch i (·.addExcess peer q) }
  | .endWatch i => { s with gate := s.gate.mapWatch i (·.endInterval) }
  | .resetRegistered =>
    { s with gate := { s.gate with topics := s.gate.topics.resetRegistered } }
  | .resetUnregistered =>
    { s with gate := { s.gate with topics := s.gate.topics.resetUnregistered } }
  | .note d => { s with journal := s.journal.map (·.add d) }

/-- The station after incidents. -/
def through (s : Station) (is : List Incident) : Station := is.foldl meet s

/-- **What every incident keeps, a run of incidents keeps.** -/
theorem through_keeps {P : Station → Prop} (incident : ∀ s i, P s → P (s.meet i)) {s : Station}
    (h : P s) (is : List Incident) : P (s.through is) := by
  induction is generalizing s with
  | nil => exact h
  | cons i is ih => exact ih (incident s i h)

end Station

end Floodgate
