/-! # Faults

An admission is refused with the reason; a component that cannot be built says why. -/

namespace Floodgate

/-- Why a quota tier refuses a message. -/
inductive Excess where
  /-- More messages in the interval than allowed. -/
  | messages (count max : Nat)
  /-- More bytes in the interval than allowed. -/
  | totalSize (size max : Nat)
  /-- One message larger than the interval's bytes. -/
  | messageSize (size max : Nat)
deriving DecidableEq

/-- The text of a tier's refusal. -/
def Excess.message : Excess → String
  | .messages count max => s!"too many messages: {count}, max {max}"
  | .totalSize size max => s!"total size exceeded: {size} bytes, max {max} bytes"
  | .messageSize size max => s!"message too large: {size} bytes, max {max} bytes"

/-- What can go wrong: three refusals of messages and two failures to build components. -/
inductive Fault where
  /-- The peer is banned. -/
  | peerBlacklisted (peer reason : String)
  /-- The topic has had its messages for this second. -/
  | topicFlood (topic : String) (max : Nat)
  /-- The peer has used up its quota at one tier. -/
  | peerFlood (tier : String) (excess : Excess)
  /-- A setting is out of its range. -/
  | invalidConfig (text : String)
  /-- Maintenance loops have nothing to run on. -/
  | noRuntime
deriving DecidableEq

namespace Fault

/-- The text of a fault. -/
def message : Fault → String
  | peerBlacklisted peer reason => s!"Peer blacklisted: {peer} ({reason})"
  | topicFlood topic max => s!"Topic flood on {topic}: max {max} messages per second"
  | peerFlood tier excess => s!"Peer flood at tier {tier}: {excess.message}"
  | invalidConfig text => s!"Invalid config: {text}"
  | noRuntime => "Antiflood scheduler needs a running tokio runtime"

/-- Is it a refusal for too much traffic? -/
def isFlood : Fault → Bool
  | topicFlood _ _ | peerFlood _ _ => true
  | _ => false

/-- Is it a refusal of a banned peer? -/
def isBlacklisted : Fault → Bool
  | peerBlacklisted _ _ => true
  | _ => false

/-- The tier that refused the message, if one did. -/
def tier? : Fault → Option String
  | peerFlood tier _ => some tier
  | _ => none

end Fault

/-- The decision on a message: admitted, or refused with the fault. -/
abbrev Verdict := Except Fault Unit

namespace Verdict

/-- Is the message admitted? -/
def isAdmitted : Verdict → Bool
  | .ok _ => true
  | .error _ => false

/-- The tier that refused the message, if one did. -/
def tier? : Verdict → Option String
  | .ok _ => none
  | .error f => f.tier?

end Verdict

end Floodgate
