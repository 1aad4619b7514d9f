import Floodgate.Peer
import Floodgate.TimeCache

/-! # Banned peers and public keys

A blacklist holds the bans of peers; the peer without an identifier is never banned. A second cache
holds banned public keys: a connection is denied if its peer is banned or the key that the directory
knows for the peer is. -/

namespace Floodgate

/-- Why a peer is banned, and by whom. -/
structure Ban where
  reason : String
  origin : String
deriving DecidableEq, Inhabited

/-- The origin of bans that no tier has issued. -/
def Ban.external : String := "external"

/-- The bans of peers. -/
structure Blacklist where
  bans : TimeCache PeerId Ban
deriving Inhabited

namespace Blacklist

/-- The blacklist of nobody. -/
def empty : Blacklist := ⟨∅⟩

/-- Bans a peer; a peer that is banned already keeps the longer span. -/
def ban (b : Blacklist) (now : Instant) (p : PeerId) (entry : Ban) (span : Span) : Blacklist :=
  if p.isEmpty then b else ⟨b.bans.upsert now p entry span⟩

/-- Is the peer banned? -/
def has (b : Blacklist) (p : PeerId) : Bool := b.bans.has p

/-- The ban of a peer. -/
def get? (b : Blacklist) (p : PeerId) : Option Ban := b.bans.get? p

/-- The time left on a ban. -/
def remaining? (b : Blacklist) (now : Instant) (p : PeerId) : Option Span := b.bans.remaining? now p

/-- Lifts a ban. -/
def remove (b : Blacklist) (p : PeerId) : Blacklist := ⟨b.bans.remove p⟩

/-- The number of bans. -/
def size (b : Blacklist) : Nat := b.bans.size

/-- The banned peers in the order of their identifiers. -/
def peers (b : Blacklist) : List PeerId := b.bans.keys.mergeSort fun p q => (compare p q).isLE

/-- Lifts the bans that have run out. -/
def sweep (b : Blacklist) (now : Instant) : Blacklist := ⟨b.bans.sweep now⟩

/-- The number of bans that a sweep lifts. -/
def expired (b : Blacklist) (now : Instant) : Nat := b.bans.expired now

end Blacklist

/-- The banned public keys. -/
abbrev KeyBlacklist := TimeCache PublicKey Unit

/-- The two caches by which connections are denied. -/
structure Denials where
  peers : Blacklist
  keys : KeyBlacklist
deriving Inhabited

namespace Denials

/-- Is the peer banned, or the key that the directory knows for it? -/
def isDenied (d : Denials) (directory : Directory) (p : PeerId) : Bool :=
  d.peers.has p || ((directory p).publicKey.map d.keys.has).getD false

/-- Bans a peer and the key that the directory knows for it. -/
def deny (d : Denials) (directory : Directory) (now : Instant) (p : PeerId) (reason : String)
    (span : Span) : Denials :=
  if p.isEmpty then d
  else
    { peers := d.peers.ban now p ⟨reason, Ban.external⟩ span
      keys :=
        match (directory p).publicKey with
        | some key => d.keys.add now key () span
        | none => d.keys }

end Denials

end Floodgate
