import Floodgate.Proofs.Cache.Lease
import Mathlib.Data.List.Induction
import Mathlib.Data.List.Pairwise
import Mathlib.Order.Lattice

/-! # Denials

A denial bans a peer and, if the directory knows one, its key. The two are written by different
operations: the ban of a peer is refreshed and keeps the longer span, the lease of a key starts
afresh. So a denial shortens nothing but the lease of its own key, which has exactly the new span
left, and a key stays denied up to an instant as long as no later denial of the key ends before it
(`Denials.deny_shortens_only_key`). Several peers may have one key, and then a short denial of one
of them sets free the others before their time (`Denials.short_denial_frees_key`). -/

namespace Floodgate

namespace Lease

variable {α : Type} {l : Lease α} {now : Instant}

theorem remaining_fresh (span : Span) (a : α) :
    (⟨now, span, a⟩ : Lease α).remaining now =
      if Span.seconds (now + span) ≤ Instant.lastSecond then span else Span.longest := by
  rw [remaining_eq, Nat.add_sub_cancel_left]

/-- No time that is left exceeds the longest span, whether or not the end can be represented. -/
theorem le_longest_of_le {finish : Instant} (h : Span.seconds finish ≤ Instant.lastSecond) :
    finish ≤ Span.longest := by
  have hlast : (Instant.lastSecond + 1) * Span.second ≤ Span.longest := by decide
  have hlt : finish < (Instant.lastSecond + 1) * Span.second :=
    (Nat.div_lt_iff_lt_mul (by decide)).mp (Nat.lt_succ_of_le h)
  exact hlt.le.trans hlast

theorem le_remaining_fresh {asked span : Span} (hasked : asked ≤ span)
    (hlongest : asked ≤ Span.longest) (a : α) :
    asked ≤ (⟨now, span, a⟩ : Lease α).remaining now := by
  rw [remaining_fresh]
  split_ifs
  · exact hasked
  · exact hlongest

/-- **A lease that is refreshed for the longer span has no less time left.** -/
theorem remaining_le_refreshed (begun : l.refreshedAt ≤ now) (span : Span) (a : α) :
    l.remaining now ≤ (⟨now, max l.span span, a⟩ : Lease α).remaining now := by
  have hend : l.refreshedAt + l.span ≤ now + max l.span span :=
    Nat.add_le_add begun (le_max_left _ _)
  rw [remaining_fresh, remaining_eq]
  split_ifs with hold hnew hnew
  · exact Nat.sub_le_of_le_add (hend.trans (Nat.add_comm _ _).le)
  · exact (Nat.sub_le _ _).trans (le_longest_of_le hold)
  · exact absurd ((Nat.div_le_div_right hend).trans hnew) hold
  · exact le_rfl

end Lease

/-- A call on the two caches of denials. -/
inductive DenialCall where
  | deny (directory : Directory) (peer : PeerId) (reason : String) (span : Span)
  | sweepPeers
  | sweepKeys

/-- A denial of a key at an instant does not end before another instant. -/
def DenialCall.Reaches (key : PublicKey) (finish : Instant) : Instant × DenialCall → Prop
  | (now, deny directory peer _ span) =>
    peer.isEmpty = false → (directory peer).publicKey = some key → finish ≤ now + span
  | (_, sweepPeers) | (_, sweepKeys) => True

namespace Denials

/-- Nobody is denied. -/
def empty : Denials := ⟨.empty, ∅⟩

/-- The caches after a call at an instant. -/
def call (d : Denials) (now : Instant) : DenialCall → Denials
  | .deny directory peer reason span => d.deny directory now peer reason span
  | .sweepPeers => { d with peers := d.peers.sweep now }
  | .sweepKeys => { d with keys := d.keys.sweep now }

/-- The caches after calls with their instants, in order. -/
def after (d : Denials) (calls : List (Instant × DenialCall)) : Denials :=
  calls.foldl (fun d x => d.call x.1 x.2) d

/-- The bans of peers have been written by now. -/
def Begun (d : Denials) (now : Instant) : Prop :=
  ∀ peer l, d.peers.lease? peer = some l → l.refreshedAt ≤ now

variable {d : Denials} {directory : Directory} {now : Instant} {peer : PeerId} {reason : String}
  {span : Span}

/-! ### One denial -/

theorem deny_peers (identified : peer.isEmpty = false) :
    (d.deny directory now peer reason span).peers =
      d.peers.ban now peer ⟨reason, Ban.external⟩ span := by
  rw [deny, identified, if_neg Bool.false_ne_true]

theorem deny_keys (identified : peer.isEmpty = false) (key : PublicKey) :
    (d.deny directory now peer reason span).keys.lease? key =
      if (directory peer).publicKey = some key then some ⟨now, span, ()⟩
      else d.keys.lease? key := by
  rw [deny, identified, if_neg Bool.false_ne_true]
  rcases (directory peer).publicKey with _ | known
  · rfl
  · simp only [TimeCache.lease?_add, Option.some.injEq, eq_comm]

theorem Begun.call (h : d.Begun now) {now' : Instant} (hle : now ≤ now') (e : DenialCall) :
    (d.call now' e).Begun now' := by
  intro q l hl
  cases e with
  | deny directory peer reason span =>
    rw [Denials.call] at hl
    cases identified : peer.isEmpty with
    | true =>
      rw [deny, identified, if_pos rfl] at hl
      exact (h q l hl).trans hle
    | false =>
      rw [deny_peers identified, Blacklist.lease?_ban _ _ _ _ _ _ identified] at hl
      split_ifs at hl
      · exact (congrArg Lease.refreshedAt (Option.some.inj hl)).ge
      · exact (h q l hl).trans hle
  | sweepPeers =>
    rw [Denials.call, Blacklist.lease?_sweep] at hl
    exact (h q l (Option.filter_eq_some_iff.mp hl).1).trans hle
  | sweepKeys => exact (h q l hl).trans hle

theorem begun_after {calls : List (Instant × DenialCall)}
    (hsorted : (calls.map Prod.fst).Pairwise (· ≤ ·)) (hnow : ∀ x ∈ calls, x.1 ≤ now) :
    (empty.after calls).Begun now := by
  induction calls using List.reverseRecOn generalizing now with
  | nil => exact fun q l hl => by cases hl
  | append_singleton calls x ih =>
    rw [List.map_append, List.pairwise_append] at hsorted
    obtain ⟨hinit, -, hlast⟩ := hsorted
    have hbegun : (empty.after calls).Begun x.1 :=
      ih hinit fun y hy => hlast _ (List.mem_map_of_mem hy) _ List.mem_cons_self
    rw [after, List.foldl_append]
    intro q l hl
    exact (hbegun.call le_rfl x.2 q l hl).trans (hnow x (by simp))

/-! ### Later calls -/

/-- The lease of a key runs at least to an instant. -/
def Holds (d : Denials) (key : PublicKey) (finish : Instant) : Prop :=
  ∃ l, d.keys.lease? key = some l ∧ finish ≤ l.refreshedAt + l.span

theorem Holds.call {key : PublicKey} {finish : Instant} (h : d.Holds key finish) {e : DenialCall}
    (hreaches : DenialCall.Reaches key finish (now, e)) (hnow : now < finish) :
    (d.call now e).Holds key finish := by
  obtain ⟨l, hl, hfinish⟩ := h
  cases e with
  | deny directory peer reason span =>
    rw [Denials.call]
    cases identified : peer.isEmpty with
    | true =>
      rw [deny, identified, if_pos rfl]
      exact ⟨l, hl, hfinish⟩
    | false =>
      unfold Holds
      rw [deny_keys identified]
      by_cases hkey : (directory peer).publicKey = some key
      · rw [if_pos hkey]
        exact ⟨_, rfl, hreaches identified hkey⟩
      · rw [if_neg hkey]
        exact ⟨l, hl, hfinish⟩
  | sweepPeers => exact ⟨l, hl, hfinish⟩
  | sweepKeys =>
    have hruns : l.isExpired now = false := Lease.isExpired_eq_false (hnow.trans_le hfinish)
    refine ⟨l, ?_, hfinish⟩
    rw [Denials.call, TimeCache.lease?_sweep, hl, Option.filter_some, hruns]
    rfl

/-- **A key stays denied up to an instant if no later denial of it ends before.** -/
theorem Holds.after {key : PublicKey} {finish : Instant} (h : d.Holds key finish)
    {calls : List (Instant × DenialCall)} (hreach : ∀ x ∈ calls, DenialCall.Reaches key finish x)
    (hnow : ∀ x ∈ calls, x.1 < finish) : (d.after calls).Holds key finish := by
  induction calls generalizing d with
  | nil => exact h
  | cons x calls ih =>
    rw [List.forall_mem_cons] at hreach hnow
    exact ih (h.call hreach.1 hnow.1) hreach.2 hnow.2

theorem Holds.isDenied {key : PublicKey} {finish : Instant} (h : d.Holds key finish)
    (hkey : (directory peer).publicKey = some key) : d.isDenied directory peer = true := by
  obtain ⟨l, hl, -⟩ := h
  have hhas : d.keys.has key = true := by rw [TimeCache.has_eq, hl, Option.isSome_some]
  rw [Denials.isDenied, hkey, Option.map_some, Option.getD_some, hhas, Bool.or_true]

/-- **A denial shortens nothing but the lease of its own key.** After a denial every banned peer has
at least the time left that it had, and its own peer at least the new span; every other key has the
time left that it had, and its own key exactly the new span (the longest, if the end cannot be
represented). In every run of denials and sweeps from then on, whoever has that key is denied
before the end of the denial, unless a later denial of the key ends earlier. -/
theorem deny_shortens_only_key (identified : peer.isEmpty = false) (begun : d.Begun now)
    (representable : span ≤ Span.longest) :
    let d' := d.deny directory now peer reason span
    (∀ q r, d.peers.remaining? now q = some r →
      ∃ r', d'.peers.remaining? now q = some r' ∧ r ≤ r') ∧
    (∃ r, d'.peers.remaining? now peer = some r ∧ span ≤ r) ∧
    (∀ key, (directory peer).publicKey ≠ some key →
      d'.keys.remaining? now key = d.keys.remaining? now key) ∧
    ∀ key, (directory peer).publicKey = some key →
      d'.keys.remaining? now key =
          some (if Span.seconds (now + span) ≤ Instant.lastSecond then span else Span.longest) ∧
        ∀ calls, (∀ x ∈ calls, DenialCall.Reaches key (now + span) x) →
          (∀ x ∈ calls, x.1 < now + span) →
          ∀ directory' q, (directory' q).publicKey = some key →
            (d'.after calls).isDenied directory' q = true := by
  intro d'
  have hpeers : ∀ q, d'.peers.remaining? now q =
      (if q = peer then
        some ⟨now, (d.peers.lease? peer).elim span fun l => max l.span span, ⟨reason, Ban.external⟩⟩
      else d.peers.lease? q).map (·.remaining now) := by
    intro q
    rw [← Blacklist.lease?_ban _ _ _ _ _ _ identified, ← deny_peers identified]
    rfl
  refine ⟨fun q r hr => ?_, ?_, fun key hkey => ?_, fun key hkey => ⟨?_, ?_⟩⟩
  · obtain ⟨l, hl, rfl⟩ := Option.map_eq_some_iff.mp hr
    rw [hpeers]
    split_ifs with hq
    · subst hq
      have hl' : d.peers.lease? q = some l := hl
      rw [hl', Option.elim_some]
      exact ⟨_, rfl, Lease.remaining_le_refreshed (begun q l hl) _ _⟩
    · exact ⟨_, hr, le_rfl⟩
  · rw [hpeers, if_pos rfl]
    refine ⟨_, rfl, Lease.le_remaining_fresh ?_ representable _⟩
    rcases d.peers.lease? peer with _ | l
    · exact le_rfl
    · exact le_max_right _ _
  · rw [TimeCache.remaining?_eq, TimeCache.remaining?_eq, deny_keys identified, if_neg hkey]
  · rw [TimeCache.remaining?_eq, deny_keys identified, if_pos hkey, Option.map_some,
      Lease.remaining_fresh]
  · intro calls hreach hnow directory' q hq
    have hholds : d'.Holds key (now + span) :=
      ⟨⟨now, span, ()⟩, by rw [deny_keys identified, if_pos hkey], le_rfl⟩
    exact (hholds.after hreach hnow).isDenied hq

/-- A directory in which every peer has the same key. -/
def shared : Directory := fun _ => { publicKey := some [7] }

/-- A peer is denied for ten seconds. -/
def tenSeconds : Denials := empty.after [(0, .deny shared ⟨[1]⟩ "double signing" (.ofSeconds 10))]

/-- Two sweeps, and a denial of the key that ends after seven seconds. -/
def laterCalls : List (Instant × DenialCall) :=
  [(Span.ofSeconds 3, .sweepKeys), (Span.ofSeconds 4, .deny shared ⟨[1]⟩ "spam" (.ofSeconds 3)),
    (Span.ofSeconds 6, .sweepKeys)]

/-- A denial after two seconds, for five, takes three of the key's ten and keeps the rest. -/
theorem shared_denied_for_the_rest :
    let d' := tenSeconds.deny shared (Span.ofSeconds 2) ⟨[2]⟩ "spam" (.ofSeconds 5)
    tenSeconds.Begun (Span.ofSeconds 2) ∧
      tenSeconds.keys.remaining? (Span.ofSeconds 2) [7] = some (.ofSeconds 8) ∧
      d'.keys.remaining? (Span.ofSeconds 2) [7] = some (.ofSeconds 5) ∧
      (d'.after laterCalls).isDenied shared ⟨[3]⟩ = true := by
  have begun : tenSeconds.Begun (Span.ofSeconds 2) := begun_after (by simp) (by simp)
  obtain ⟨-, -, -, hkey⟩ := @deny_shortens_only_key tenSeconds shared (Span.ofSeconds 2) ⟨[2]⟩
    "spam" (.ofSeconds 5) rfl begun (by decide)
  obtain ⟨hleft, hdenied⟩ := hkey [7] rfl
  refine ⟨begun, by decide +kernel, hleft, hdenied laterCalls ?_ ?_ shared ⟨[3]⟩ rfl⟩
  · simp only [laterCalls, List.forall_mem_cons, DenialCall.Reaches]
    exact ⟨trivial, fun _ _ => by decide, trivial, fun x hx => absurd hx List.not_mem_nil⟩
  · simp only [laterCalls, List.forall_mem_cons]
    exact ⟨by decide, by decide, by decide, fun x hx => absurd hx List.not_mem_nil⟩

/-- Of ten seconds for which a key is denied, a denial of another peer for one second leaves one:
the sweep after it sets the key free. -/
theorem short_denial_frees_key :
    let d' := tenSeconds.deny shared 0 ⟨[2]⟩ "spam" (.ofSeconds 1)
    tenSeconds.keys.remaining? 0 [7] = some (.ofSeconds 10) ∧
      d'.keys.remaining? 0 [7] = some (.ofSeconds 1) ∧
      (d'.after [(Span.ofSeconds 1, .sweepPeers), (Span.ofSeconds 1, .sweepKeys)]).isDenied shared
        ⟨[2]⟩ = false := by
  decide +kernel

end Denials

end Floodgate
