import Floodgate.Blacklist
import Mathlib.Tactic.SplitIfs

/-! # Leases

The view of a time cache is the lease of each key, and each operation is described by what it does
to that view. An instant before the end of a span finds the lease running, also if that end cannot
be represented (`Lease.isExpired_eq_false`). -/

namespace Floodgate

variable {κ α : Type}

theorem Lease.isExpired_eq_false {l : Lease α} {now : Instant} (h : now < l.refreshedAt + l.span) :
    l.isExpired now = false := by
  unfold isExpired finish? Instant.plus?
  split_ifs
  · exact decide_eq_false (Nat.not_le.mpr h)
  · rfl

theorem Lease.isExpired_iff {l : Lease α} {now : Instant} :
    l.isExpired now = true ↔
      Span.seconds (l.refreshedAt + l.span) ≤ Instant.lastSecond ∧
        l.refreshedAt + l.span ≤ now := by
  unfold isExpired finish? Instant.plus?
  split_ifs with h <;> simp [Instant.reached, h]

theorem Lease.remaining_eq (l : Lease α) (now : Instant) :
    l.remaining now =
      if Span.seconds (l.refreshedAt + l.span) ≤ Instant.lastSecond then
        l.refreshedAt + l.span - now
      else Span.longest := by
  unfold remaining finish? Instant.plus?
  split_ifs <;> rfl

namespace TimeCache

variable [DecidableEq κ] (c : TimeCache κ α) (now : Instant) (k q : κ) (a : α) (span : Span)

/-- The lease of a key. -/
def lease? (c : TimeCache κ α) (k : κ) : Option (Lease α) := c.leases.get? k

theorem lease?_add :
    (c.add now k a span).lease? q = if q = k then some ⟨now, span, a⟩ else c.lease? q := by
  unfold lease? add
  rw [Keyed.get?_insert]

theorem lease?_empty : (∅ : TimeCache κ α).lease? q = none := rfl

theorem has_eq : c.has k = (c.lease? k).isSome := rfl

theorem get?_eq : c.get? k = (c.lease? k).map (·.value) := rfl

theorem remaining?_eq : c.remaining? now k = (c.lease? k).map (·.remaining now) := rfl

/-- An upsert starts a lease, or refreshes the one that is there for the longer span. -/
theorem lease?_upsert :
    (c.upsert now k a span).lease? q =
      if q = k then some ⟨now, (c.lease? k).elim span fun l => max l.span span, a⟩
      else c.lease? q := by
  unfold upsert
  rcases h : c.leases.get? k with _ | l
  · rw [lease?_add, lease?, lease?, h, Option.elim_none]
  · rw [lease?_add, lease?, lease?, h, Option.elim_some]

theorem lease?_sweep :
    (c.sweep now).lease? q = (c.lease? q).filter fun l => !l.isExpired now := by
  unfold lease? sweep
  rw [Keyed.get?_keep]

theorem lease?_remove :
    (c.remove k).lease? q = if q = k then none else c.lease? q := by
  unfold lease? remove
  rw [Keyed.get?_erase]

end TimeCache

namespace Blacklist

variable (b : Blacklist) (now : Instant) (peer q : PeerId) (entry : Ban) (span : Span)

/-- The lease of a ban. -/
def lease? (b : Blacklist) (peer : PeerId) : Option (Lease Ban) := b.bans.lease? peer

theorem lease?_ban (h : peer.isEmpty = false) :
    (b.ban now peer entry span).lease? q =
      if q = peer then some ⟨now, (b.lease? peer).elim span fun l => max l.span span, entry⟩
      else b.lease? q := by
  unfold ban lease?
  rw [h, if_neg Bool.false_ne_true]
  exact TimeCache.lease?_upsert _ _ _ _ _ _

theorem lease?_sweep :
    (b.sweep now).lease? q = (b.lease? q).filter fun l => !l.isExpired now :=
  TimeCache.lease?_sweep _ _ _

theorem has_eq : b.has peer = (b.lease? peer).isSome := rfl

theorem has_ban (h : peer.isEmpty = false) : (b.ban now peer entry span).has peer = true := by
  rw [has_eq, lease?_ban _ _ _ _ _ _ h, if_pos rfl, Option.isSome_some]

theorem lease?_ban_of_ne (h : q ≠ peer) : (b.ban now peer entry span).lease? q = b.lease? q := by
  cases hid : peer.isEmpty with
  | false => rw [lease?_ban _ _ _ _ _ _ hid, if_neg h]
  | true => rw [ban, if_pos hid]

theorem get?_eq : b.get? peer = (b.lease? peer).map (·.value) := rfl

theorem lease?_remove_of_ne (h : q ≠ peer) : (b.remove peer).lease? q = b.lease? q :=
  (TimeCache.lease?_remove _ _ _).trans (if_neg h)

theorem get?_eq_none_iff : b.get? peer = none ↔ b.has peer = false := by
  rw [get?_eq, has_eq, Option.map_eq_none_iff, Option.isSome_eq_false_iff,
    Option.isNone_iff_eq_none]

end Blacklist

end Floodgate
