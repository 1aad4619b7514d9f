import Floodgate.Blacklist
import Floodgate.Tier

/-! # Flood watches

A watch observes one tier and bans peers that flood in consecutive intervals. A peer floods in an
interval once a message of it is rejected or its received traffic reaches a threshold; only the
first such report of an interval counts. An interval without one ends the streak, and a streak of
the required length bans the peer and starts afresh. -/

namespace Floodgate

/-- A peer's consecutive flooding intervals. -/
structure Streak where
  /-- Consecutive flooding intervals, the current one included. -/
  rounds : Nat := 0
  /-- Messages above the threshold, over the streak. -/
  excessMessages : Nat := 0
  /-- Bytes above the threshold, over the streak. -/
  excessSize : Nat := 0
  /-- Has the peer flooded in the current interval? -/
  flagged : Bool := false
deriving DecidableEq, Inhabited

/-- What a watch knows of a peer. -/
inductive FloodState where
  | clean
  | flagged (rounds : Nat)
  | banned
deriving DecidableEq

/-- A watch: its thresholds, and the streak of each peer that has one. -/
structure FloodWatch where
  origin : Speed
  messages : Nat
  size : Nat
  /-- The flooding intervals that lead to a ban. -/
  rounds : Nat
  banSpan : Span
  streaks : Keyed PeerId Streak

namespace FloodWatch

/-- The rules of a watch. -/
def rules (origin : Speed) (c : BanConfig) : List Rule :=
  [ (c.messages != 0 && c.size != 0, .watchThresholds origin),
    (c.rounds != 0, .watchRounds origin),
    (upTo c.banSeconds.toNat Config.maxBan, .watchDuration origin) ]

/-- The watch of a tier that has seen nobody. -/
def new (origin : Speed) (c : BanConfig) : FloodWatch :=
  { origin := origin, messages := c.messages.toNat, size := c.size.toNat, rounds := c.rounds.toNat
    banSpan := c.banSpan, streaks := ∅ }

/-- The watch of checked settings. -/
def make? (origin : Speed) (c : BanConfig) : Except Fault FloodWatch :=
  match Rule.check (rules origin c) with
  | .error f => .error f
  | .ok _ => .ok (new origin c)

/-- Does a report show flooding? -/
def isFlooding (w : FloodWatch) (q : Quota) (a : Admission) : Bool :=
  !a.isAdmitted || w.messages ≤ q.received || w.size ≤ q.receivedSize

/-- The ban for a streak of the required length. -/
def verdict (w : FloodWatch) (rounds : Nat) : Ban :=
  ⟨s!"flooding for {rounds} consecutive rounds", w.origin.name⟩

/-- The streak after the first flooding report of an interval, and the number of rounds if they lead
to a ban. -/
def extend (w : FloodWatch) (s : Streak) : Streak × Option Nat :=
  let rounds := s.rounds + 1
  if w.rounds ≤ rounds then ({ flagged := true }, some rounds)
  else ({ s with rounds := rounds, flagged := true }, none)

/-- Takes note of a decision of the tier, and says the ban it leads to. The peer without an
identifier, banned peers and further reports of an interval make no difference. -/
def report (w : FloodWatch) (banned : Bool) (peer : PeerId) (q : Quota) (a : Admission) :
    FloodWatch × Option Ban :=
  let s := (w.streaks.get? peer).getD {}
  if peer.isEmpty || !w.isFlooding q a || banned || s.flagged then (w, none)
  else
    let (s, rounds) := w.extend s
    ({ w with streaks := w.streaks.insert peer s }, rounds.map w.verdict)

/-- Takes note of a decision and writes the ban it leads to. -/
def observe (w : FloodWatch) (b : Blacklist) (now : Instant) (peer : PeerId) (q : Quota)
    (a : Admission) : FloodWatch × Blacklist :=
  match w.report (b.has peer) peer q a with
  | (w, some entry) => (w, b.ban now peer entry w.banSpan)
  | (w, none) => (w, b)

/-- Adds what a peer has sent above the thresholds in the interval that ends to its streak. Unlike
the counters of a tier these sums have no largest value: they are what counters of 64 bits hold as
long as they stay below `2 ^ 64`. -/
def addExcess (w : FloodWatch) (peer : PeerId) (q : Quota) : FloodWatch :=
  match w.streaks.get? peer with
  | none => w
  | some s =>
    if s.flagged && 0 < s.rounds then
      let s :=
        { s with
          excessMessages := s.excessMessages + (q.received - w.messages)
          excessSize := s.excessSize + (q.receivedSize - w.size) }
      { w with streaks := w.streaks.insert peer s }
    else w

/-- Ends an interval: streaks without flooding in it are dropped. -/
def endInterval (w : FloodWatch) : FloodWatch :=
  { w with
    streaks := (w.streaks.keep fun _ s => s.flagged).map fun _ s => { s with flagged := false } }

/-- The streak of a peer. -/
def streak? (w : FloodWatch) (peer : PeerId) : Option Streak := w.streaks.get? peer

/-- What the watch knows of a peer. -/
def state (w : FloodWatch) (b : Blacklist) (peer : PeerId) : FloodState :=
  if b.has peer then .banned
  else
    let rounds := ((w.streak? peer).getD {}).rounds
    if 0 < rounds then .flagged rounds else .clean

end FloodWatch

end Floodgate
