/-! # Peers

A peer is known by an opaque identifier. What else is known about it (its role in the validator
set, its public key, its shard) is looked up in a directory, which may change at any time. -/

namespace Floodgate

/-- The identifier of a peer. -/
structure PeerId where
  bytes : List UInt8
deriving DecidableEq, Inhabited

namespace PeerId

/-- The two hexadecimal digits of a byte. -/
def hexByte (b : UInt8) : List Char :=
  [Nat.digitChar (b.toNat / 16), Nat.digitChar (b.toNat % 16)]

/-- The identifier in lower-case hexadecimal. -/
def hex (p : PeerId) : String := String.ofList (p.bytes.flatMap hexByte)

/-- Is it the identifier of no bytes? -/
def isEmpty (p : PeerId) : Bool := p.bytes.isEmpty

/-- The order by bytes, in which a beginning of an identifier comes before it. -/
def compareBytes : List UInt8 → List UInt8 → Ordering
  | [], [] => .eq
  | [], _ :: _ => .lt
  | _ :: _, [] => .gt
  | a :: as, b :: bs => (compare a b).then (compareBytes as bs)

instance : Ord PeerId := ⟨fun p q => compareBytes p.bytes q.bytes⟩

end PeerId

/-- The role of a peer in the validator set. -/
inductive Role where
  | eligible
  | waiting
  | observer
  | unknown
deriving DecidableEq, Inhabited

namespace Role

/-- The name of a role. -/
def name : Role → String
  | eligible => "eligible"
  | waiting => "waiting"
  | observer => "observer"
  | unknown => "unknown"

/-- Validators are the eligible and the waiting. -/
def isValidator : Role → Bool
  | eligible | waiting => true
  | observer | unknown => false

end Role

/-- The class of a peer's budget: validators may use the reserved share. -/
inductive PeerClass where
  | reserved
  | normal
deriving DecidableEq, Inhabited

namespace PeerClass

/-- The name of a class. -/
def name : PeerClass → String
  | reserved => "reserved"
  | normal => "normal"

end PeerClass

/-- The class of a peer with a role. -/
def Role.peerClass (r : Role) : PeerClass := if r.isValidator then .reserved else .normal

/-- The public key of a validator. -/
abbrev PublicKey := List UInt8

/-- What is known about a peer. -/
structure PeerInfo where
  role : Role := .unknown
  publicKey : Option PublicKey := none
  shard : Option Nat := none
deriving DecidableEq, Inhabited

/-- What is known about every peer. -/
abbrev Directory := PeerId → PeerInfo

namespace Directory

/-- The directory that knows nobody. -/
def anonymous : Directory := fun _ => {}

/-- The budget class of a peer. -/
def peerClass (d : Directory) (p : PeerId) : PeerClass := (d p).role.peerClass

end Directory

end Floodgate
