import Floodgate.Config.Validity
import Floodgate.Counter
import Floodgate.Keyed

/-! # Topic limits

The messages on a topic are counted over a second, whoever sends them. A batch that does not fit
below the topic's limit is refused as a whole and not counted. -/

namespace Floodgate

/-- What has been counted on a topic. -/
structure Load where
  messages : Nat := 0
  size : Nat := 0
deriving DecidableEq, Inhabited

/-- The limits of the topics and their counts. -/
structure Topics where
  /-- The limits of registered topics. -/
  limits : Keyed String Nat
  /-- The limit of every other topic. -/
  defaultLimit : Nat
  loads : Keyed String Load

namespace Topics

/-- Topics without limits. -/
def unlimited : Topics := ⟨∅, countLimit, ∅⟩

/-- The topics of settings; of two limits for a topic the last one holds. -/
def new (c : TopicConfig) : Topics where
  limits := .ofList (c.limits.map fun l => (l.topic, l.messagesPerSecond.toNat))
  defaultLimit := c.defaultLimit.toNat
  loads := ∅

/-- The topics of checked settings. -/
def make? (c : TopicConfig) : Except Fault Topics :=
  match Rule.check c.rules with
  | .error f => .error f
  | .ok _ => .ok (new c)

/-- Does the topic have a limit of its own? -/
def isRegistered (t : Topics) (topic : String) : Bool := t.limits.contains topic

/-- The limit of a topic. -/
def limit (t : Topics) (topic : String) : Nat := (t.limits.get? topic).getD t.defaultLimit

/-- What has been counted on a topic. -/
def load (t : Topics) (topic : String) : Load := (t.loads.get? topic).getD {}

/-- Sets the limit of a topic; its counts stay. -/
def setLimit (t : Topics) (topic : String) (max : Nat) : Topics :=
  { t with limits := t.limits.insert topic max }

/-- Counts a batch of messages if it fits below the limit. -/
def increase (t : Topics) (topic : String) (messages size : Nat) : Topics × Verdict :=
  let l := t.load topic
  let next := addCount l.messages messages
  if t.limit topic < next then (t, .error (.topicFlood topic (t.limit topic)))
  else ({ t with loads := t.loads.insert topic ⟨next, addSize l.size size⟩ }, .ok ())

/-- Starts the counts of one topic afresh. -/
def resetTopic (t : Topics) (topic : String) : Topics :=
  { t with loads := t.loads.erase topic }

/-- Starts the counts of the registered topics afresh. -/
def resetRegistered (t : Topics) : Topics :=
  { t with loads := t.loads.keep fun topic _ => !t.isRegistered topic }

/-- Starts the counts of every other topic afresh. -/
def resetUnregistered (t : Topics) : Topics :=
  { t with loads := t.loads.keep fun topic _ => t.isRegistered topic }

/-- Starts a second: all counts afresh. -/
def reset (t : Topics) : Topics := t.resetRegistered.resetUnregistered

end Topics

end Floodgate
