import Floodgate.FloodWatch
import Floodgate.Metrics
import Floodgate.Topics

/-! # The gate

Every message passes three checks, and the first one that refuses it decides: its sender must not
be banned, its topic must have messages left for this second, and each tier in turn must have a
budget left for the sender. A lane is a tier together with the watch and the totals that observe it;
lanes write bans and metrics to a common ledger. A banned peer touches no counter, and a tier behind
the one that refuses never sees the message. -/

namespace Floodgate

/-- What the lanes write to. -/
structure Ledger where
  blacklist : Blacklist
  board : Board

/-- A tier with its observers. -/
structure Lane where
  tier : Tier
  watch : FloodWatch
  totals : Totals := {}

/-- A message on its way: who sends it, with which budget class, on which topic, how many bytes. -/
structure Message where
  peer : PeerId
  peerClass : PeerClass
  topic : String
  size : Nat
deriving DecidableEq

namespace Lane

/-- The speed of the tier. -/
def speed (l : Lane) : Speed := l.tier.policy.speed

/-- The lane of checked settings. -/
def make? (speed : Speed) (c : TierConfig) (cache : CacheConfig) : Except Fault Lane :=
  match FloodWatch.make? speed c.ban with
  | .error f => .error f
  | .ok watch =>
    match Tier.make? speed c cache with
    | .error f => .error f
    | .ok tier => .ok { tier, watch }

/-- The tier decides on a message, and its observers take note. -/
def consume (l : Lane) (ledger : Ledger) (now : Instant) (c : PeerClass) (peer : PeerId)
    (size : Nat) : Lane × Ledger × Admission :=
  let (tier, q, a) := l.tier.consume c peer size
  let (watch, blacklist) := l.watch.observe ledger.blacklist now peer q a
  ({ l with tier, watch }, { blacklist, board := ledger.board.count l.speed a }, a)

/-- Ends the interval of the tier: its observers are told what each active peer has sent, the
totals are published, and everything starts afresh. -/
def reset (l : Lane) (ledger : Ledger) : Lane × Ledger :=
  let active := l.tier.active
  let watch := active.foldl (fun w e => w.addExcess e.1 e.2) l.watch
  let totals := active.foldl (fun t e => t.add e.2) l.totals
  ({ tier := l.tier.reset, watch := watch.endInterval },
    { ledger with board := ledger.board.publish l.speed totals })

/-- Sends a message through lanes, up to the first that refuses it. -/
def pass (now : Instant) (m : Message) : List Lane → Ledger → List Lane × Ledger × Verdict
  | [], ledger => ([], ledger, .ok ())
  | l :: ls, ledger =>
    match l.consume ledger now m.peerClass m.peer m.size with
    | (l, ledger, .rejected e) => (l :: ls, ledger, .error (.peerFlood l.speed.name e))
    | (l, ledger, .admitted) =>
      let (ls, ledger, v) := pass now m ls ledger
      (l :: ls, ledger, v)

end Lane

/-- The gate: the ledger, the topics, and the lanes in the order in which they are asked. -/
structure Gate where
  ledger : Ledger
  topics : Topics
  lanes : List Lane

namespace Gate

/-- A gate that has seen nothing. -/
def new (topics : Topics) (lanes : List Lane) : Gate :=
  { ledger := ⟨.empty, .blank⟩, topics, lanes }

/-- A gate with at least one lane. -/
def make? (topics : Topics) (lanes : List Lane) : Except Fault Gate :=
  if lanes.isEmpty then .error ConfigFault.noTier.fault else .ok (new topics lanes)

/-- The bans. -/
def blacklist (g : Gate) : Blacklist := g.ledger.blacklist

/-- The gate with other bans. -/
def withBlacklist (g : Gate) (b : Blacklist) : Gate :=
  { g with ledger := { g.ledger with blacklist := b } }

/-- The refusal of a banned peer. -/
def banned? (g : Gate) (peer : PeerId) : Option Fault :=
  (g.blacklist.get? peer).map fun entry => .peerBlacklisted peer.hex entry.reason

/-- Decides on one message. -/
def screen (g : Gate) (now : Instant) (m : Message) : Gate × Verdict :=
  match g.banned? m.peer with
  | some f => (g, .error f)
  | none =>
    match g.topics.increase m.topic 1 m.size with
    | (topics, .error f) => ({ g with topics }, .error f)
    | (topics, .ok _) =>
      let (lanes, ledger, v) := Lane.pass now m g.lanes g.ledger
      ({ ledger, topics, lanes }, v)

/-- Decides on a batch that arrives as one message; no lane is asked. -/
def screenBatch (g : Gate) (peer : PeerId) (topic : String) (messages size : Nat) :
    Gate × Verdict :=
  match g.banned? peer with
  | some f => (g, .error f)
  | none =>
    let (topics, v) := g.topics.increase topic messages size
    ({ g with topics }, v)

/-- Bans a peer for a reason outside the quotas. -/
def ban (g : Gate) (now : Instant) (peer : PeerId) (reason : String) (span : Span) : Gate :=
  g.withBlacklist (g.blacklist.ban now peer ⟨reason, Ban.external⟩ span)

/-- Starts the counts of a topic afresh. -/
def resetTopic (g : Gate) (topic : String) : Gate := { g with topics := g.topics.resetTopic topic }

/-- Sets the limit of a topic. -/
def setLimit (g : Gate) (topic : String) (max : Nat) : Gate :=
  { g with topics := g.topics.setLimit topic max }

/-- Ends the interval of the lane at an index. -/
def resetLane (g : Gate) (i : Nat) : Gate :=
  match g.lanes[i]? with
  | none => g
  | some l =>
    let (l, ledger) := l.reset g.ledger
    { g with ledger, lanes := g.lanes.set i l }

/-- The tier of the lane at an index decides on a message that is sent to it alone. -/
def consumeAt (g : Gate) (now : Instant) (i : Nat) (c : PeerClass) (peer : PeerId) (size : Nat) :
    Option (Gate × Admission) :=
  g.lanes[i]?.map fun l =>
    let (l, ledger, a) := l.consume g.ledger now c peer size
    ({ g with ledger, lanes := g.lanes.set i l }, a)

end Gate

end Floodgate
