import Floodgate.Config.Validity
import Floodgate.Counter
import Floodgate.Keyed
import Floodgate.Peer

/-! # Quota tiers

A tier counts the messages and bytes of each peer over an interval. Validators may use the whole
budget, everyone else all but the reserved share of it. A peer whose admitted traffic has reached
the threshold before a message gets its budget multiplied for the rest of the interval. Rejected
messages count as received, so that a flood can be measured.

The decision on one message is `Policy.judge`: a function of the tier's policy, the peer's class,
the size of the message and the peer's own quota. -/

namespace Floodgate

/-- What a peer has sent to a tier in the current interval. -/
structure Quota where
  /-- Messages, rejected ones included. -/
  received : Nat := 0
  /-- Bytes, rejected ones included. -/
  receivedSize : Nat := 0
  /-- Admitted messages. -/
  admitted : Nat := 0
  /-- Admitted bytes. -/
  admittedSize : Nat := 0
  /-- The class of the last decision. -/
  peerClass : PeerClass := .normal
  /-- Has the peer earned the increase in this interval? -/
  increased : Bool := false
deriving DecidableEq, Inhabited

/-- The decision of a tier on one message. -/
inductive Admission where
  | admitted
  | rejected (excess : Excess)
deriving DecidableEq

/-- Is the message admitted? -/
def Admission.isAdmitted : Admission → Bool
  | admitted => true
  | rejected _ => false

/-- The limits of one decision. -/
structure Budget where
  maxMessages : Nat
  maxSize : Nat
deriving DecidableEq

/-- The fixed rules of a tier. -/
structure Policy where
  speed : Speed
  /-- Messages of a validator in an interval. -/
  messages : Nat
  /-- Bytes of a validator in an interval. -/
  totalSize : Nat
  /-- The share of the budget for everyone else, in basis points. -/
  normalShare : Nat
  /-- The multiplier of an increased budget, in thousandths. -/
  factor : Nat
  /-- The share of the budget that earns the increase, if it can be earned. -/
  threshold : Option Double
  interval : Span
  /-- Peers that are kept when idle. -/
  capacity : Nat
deriving DecidableEq

/-! ### Budgets -/

namespace Policy

/-- The whole budget in basis points. -/
def wholeShare : Nat := 10000

/-- The plain budget in thousandths. -/
def plainFactor : Nat := 1000

/-- The products of the budget are computed below this bound. -/
def productBound : Nat := 2 ^ (128 : Nat)

/-- A value multiplied by a share and a factor and rounded down; the largest size if it is larger
or a product does not stay below the bound. -/
def scale (value share factor : Nat) : Nat :=
  if value * share < productBound ∧ value * share * factor < productBound then
    min (value * share * factor / (wholeShare * plainFactor)) sizeLimit
  else sizeLimit

/-- The share of a class in basis points. -/
def share (p : Policy) : PeerClass → Nat
  | .reserved => wholeShare
  | .normal => p.normalShare

/-- The budget of a class, plain or increased. -/
def budget (p : Policy) (c : PeerClass) (increased : Bool) : Budget :=
  let factor := if increased then p.factor else plainFactor
  { maxMessages := min (scale p.messages (p.share c) factor) countLimit
    maxSize := scale p.totalSize (p.share c) factor }

/-! ### Decisions -/

/-- Is `n` at least the share `threshold` of `max`? -/
def reaches (threshold : Double) (n max : Nat) : Bool :=
  Double.le (threshold.mul (.ofNat max)) (.ofNat n)

/-- Has a peer's admitted traffic earned the increase? -/
def earned (p : Policy) (c : PeerClass) (q : Quota) : Bool :=
  match p.threshold with
  | none => false
  | some t =>
    reaches t q.admitted (p.budget c false).maxMessages ||
      reaches t q.admittedSize (p.budget c false).maxSize

/-- The quota after the arrival of a message, before the decision on it. -/
def arrive (p : Policy) (c : PeerClass) (size : Nat) (q : Quota) : Quota :=
  { q with
    received := addCount q.received 1
    receivedSize := addSize q.receivedSize size
    peerClass := c
    increased := q.increased || p.earned c q }

/-- What a message that has arrived exceeds, if anything. -/
def excess? (b : Budget) (size : Nat) (q : Quota) : Option Excess :=
  if b.maxSize < size then some (.messageSize size b.maxSize)
  else if b.maxMessages < q.received then some (.messages q.received b.maxMessages)
  else if b.maxSize < q.receivedSize then some (.totalSize q.receivedSize b.maxSize)
  else none

/-- The quota with a message admitted. -/
def grant (size : Nat) (q : Quota) : Quota :=
  { q with
    admitted := addCount q.admitted 1
    admittedSize := addSize q.admittedSize size }

/-- The decision on a message, and the quota after it. -/
def judge (p : Policy) (c : PeerClass) (size : Nat) (q : Quota) : Quota × Admission :=
  let arrived := p.arrive c size q
  match excess? (p.budget c arrived.increased) size arrived with
  | some e => (arrived, .rejected e)
  | none => (grant size arrived, .admitted)

/-! ### Settings -/

/-- The bytes that one peer's record takes, roughly. -/
def recordSize : Nat := 128

/-- The number of idle peers that a sizing allows. -/
def capacityOf (c : CacheConfig) : Nat :=
  if c.sizeInBytes = 0 then c.capacity.toNat
  else min c.capacity.toNat (max 1 (c.sizeInBytes.toNat / recordSize))

/-- The rules that settings describe. -/
def ofConfig (speed : Speed) (c : TierConfig) (cache : CacheConfig) : Policy where
  speed := speed
  messages := c.input.messages.toNat
  totalSize := c.input.totalSize.toNat
  normalShare := (((Double.ofNat 100).sub c.reservedPercent).mul (.ofNat 100)).toNat sizeLimit
  factor := (c.input.increase.factor.mul (.ofNat 1000)).toNat (productBound - 1)
  threshold := if c.input.increase.isActive then some c.input.increase.threshold else none
  interval := c.interval
  capacity := capacityOf cache

end Policy

namespace Quota

/-- Has the peer sent nothing in this interval? -/
def isIdle (q : Quota) : Bool := q.received = 0

/-- The quota at the start of an interval; only the class is kept. -/
def renewed (q : Quota) : Quota := { peerClass := q.peerClass }

end Quota

/-! ### Tiers -/

/-- A tier: its rules, and the quota of each peer it keeps. -/
structure Tier where
  policy : Policy
  records : Keyed PeerId Quota

namespace Tier

/-- The tier of a policy that has seen nobody. -/
def new (p : Policy) : Tier := ⟨p, ∅⟩

/-- The tier of checked settings. -/
def make? (speed : Speed) (c : TierConfig) (cache : CacheConfig) : Except Fault Tier :=
  match Rule.check (c.rules speed ++ cache.rules) with
  | .error f => .error f
  | .ok _ => .ok (new (.ofConfig speed c cache))

/-- The quota of a peer, if it has a record. -/
def quota? (t : Tier) (peer : PeerId) : Option Quota := t.records.get? peer

/-- The number of peers with a record. -/
def tracked (t : Tier) : Nat := t.records.size

/-- Decides on a message, and says the peer's quota after it. -/
def consume (t : Tier) (c : PeerClass) (peer : PeerId) (size : Nat) : Tier × Quota × Admission :=
  let (q, a) := t.policy.judge c size ((t.quota? peer).getD {})
  ({ t with records := t.records.insert peer q }, q, a)

/-- The peers that have sent something in this interval, with their quotas. -/
def active (t : Tier) : List (PeerId × Quota) := t.records.entries.filter fun e => !e.2.isIdle

/-- Are there more records than the tier keeps when idle? -/
def isCrowded (t : Tier) : Bool := t.policy.capacity < t.tracked

/-- Starts an interval: every quota is renewed, and in a crowded tier idle peers are dropped. -/
def reset (t : Tier) : Tier :=
  { t with
    records := (t.records.keep fun _ q => !(q.isIdle && t.isCrowded)).map fun _ q => q.renewed }

end Tier

end Floodgate
