import Floodgate.Clock
import Floodgate.Keyed

/-! # Time caches

A time cache keeps values under leases. A lease runs for a span from the moment it was last
refreshed; looking a value up never drops it, so a lease that has run out stays visible until the
next sweep. `add` starts a lease afresh, `upsert` refreshes it and keeps the longer span. -/

namespace Floodgate

/-- A value that is kept for a span. -/
structure Lease (α : Type) where
  refreshedAt : Instant
  span : Span
  value : α
deriving DecidableEq

namespace Lease

variable {α : Type}

/-- The instant the lease runs out, if that can be represented. -/
def finish? (l : Lease α) : Option Instant := Instant.plus? l.refreshedAt l.span

/-- Has the lease run out? -/
def isExpired (l : Lease α) (now : Instant) : Bool := Instant.reached now l.finish?

/-- The time until the lease runs out. -/
def remaining (l : Lease α) (now : Instant) : Span := Instant.timeLeft now l.finish?

end Lease

/-- Values under leases, by key. -/
structure TimeCache (κ α : Type) where
  leases : Keyed κ (Lease α)

namespace TimeCache

variable {κ α : Type}

/-- The cache without leases. -/
def empty : TimeCache κ α := ⟨∅⟩

instance : EmptyCollection (TimeCache κ α) := ⟨empty⟩

instance : Inhabited (TimeCache κ α) := ⟨empty⟩

/-- The number of leases, those that have run out included. -/
def size (c : TimeCache κ α) : Nat := c.leases.size

/-- The keys with a lease. -/
def keys (c : TimeCache κ α) : List κ := c.leases.keys

/-- Drops every lease that has run out. -/
def sweep (c : TimeCache κ α) (now : Instant) : TimeCache κ α :=
  ⟨c.leases.keep fun _ l => !l.isExpired now⟩

/-- The number of leases that a sweep drops. -/
def expired (c : TimeCache κ α) (now : Instant) : Nat := c.size - (c.sweep now).size

variable [DecidableEq κ]

/-- Starts a lease of `span`, whatever was there. -/
def add (c : TimeCache κ α) (now : Instant) (k : κ) (a : α) (span : Span) : TimeCache κ α :=
  ⟨c.leases.insert k ⟨now, span, a⟩⟩

/-- Starts a lease, or refreshes the one that is there with a new value and the longer span. -/
def upsert (c : TimeCache κ α) (now : Instant) (k : κ) (a : α) (span : Span) : TimeCache κ α :=
  match c.leases.get? k with
  | none => c.add now k a span
  | some l => c.add now k a (max l.span span)

/-- Does the key have a lease? -/
def has (c : TimeCache κ α) (k : κ) : Bool := c.leases.contains k

/-- The value of a key. -/
def get? (c : TimeCache κ α) (k : κ) : Option α := (c.leases.get? k).map (·.value)

/-- The time left to a key before a sweep drops it. -/
def remaining? (c : TimeCache κ α) (now : Instant) (k : κ) : Option Span :=
  (c.leases.get? k).map (·.remaining now)

/-- Ends the lease of a key. -/
def remove (c : TimeCache κ α) (k : κ) : TimeCache κ α := ⟨c.leases.erase k⟩

end TimeCache

end Floodgate
