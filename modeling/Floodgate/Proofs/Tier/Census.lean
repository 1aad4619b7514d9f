import Floodgate.Metrics
import Floodgate.Proofs.Tier.Safety
import Mathlib.Algebra.BigOperators.Group.Finset.Piecewise
import Mathlib.Data.Finset.Lattice.Fold
import Mathlib.Order.Lattice.Nat

/-! # The totals of an interval

At the end of an interval a tier says what each active peer has sent, and the quotas are added up
one peer after the other. `Totals.of` says what the sum ought to be, from the rulings of the
interval alone: how many peers there are among the senders, how many messages and bytes, how many of
them admitted, and the most that came from one sender.

* `Totals.foldl_add`: adding up quotas is a sum over the set of peers that they belong to.
* `sum_rulingsOn`: a sum over the senders of what belongs to each is the sum over all rulings.
* `Tier.toFinset_active`: the active peers are exactly the senders of the interval, whatever
  records are kept from earlier ones or have been dropped.
* `Tier.totals_active`: the totals of an interval in which no counter is full are exact. -/

namespace Floodgate

/-- The rulings on the messages of one peer. -/
def rulingsOn (peer : PeerId) (rs : List Ruling) : List Ruling := rs.filter fun r => r.peer = peer

/-- The senders of messages. -/
def senders (rs : List Ruling) : Finset PeerId := (rs.map Ruling.peer).toFinset

namespace Totals

/-- What rulings come to. -/
def of (rs : List Ruling) : Totals where
  peers := (senders rs).card
  received := rs.length
  receivedSize := bytesOf rs
  admitted := (admittedOf rs).length
  admittedSize := bytesOf (admittedOf rs)
  peakReceived := (senders rs).sup fun p => (rulingsOn p rs).length
  peakReceivedSize := (senders rs).sup fun p => bytesOf (rulingsOn p rs)

/-- What the quotas of a set of peers come to. -/
def ofQuotas (ps : Finset PeerId) (f : PeerId → Quota) : Totals where
  peers := ps.card
  received := ∑ p ∈ ps, (f p).received
  receivedSize := ∑ p ∈ ps, (f p).receivedSize
  admitted := ∑ p ∈ ps, (f p).admitted
  admittedSize := ∑ p ∈ ps, (f p).admittedSize
  peakReceived := ps.sup fun p => (f p).received
  peakReceivedSize := ps.sup fun p => (f p).receivedSize

/-! ### Sums over peers -/

theorem ofQuotas_insert {ps : Finset PeerId} {p : PeerId} (hp : p ∉ ps) (f : PeerId → Quota) :
    ofQuotas (insert p ps) f = (ofQuotas ps f).add (f p) := by
  simp only [ofQuotas, add, Finset.card_insert_of_notMem hp, Finset.sum_insert hp,
    Finset.sup_insert, Totals.mk.injEq, true_and]
  refine ⟨by omega, by omega, by omega, by omega, ?_, ?_⟩
  · exact max_comm _ _
  · exact max_comm _ _

theorem foldl_add (f : PeerId → Quota) {es : List (PeerId × Quota)}
    (hnodup : (es.map Prod.fst).Nodup) (hf : ∀ e ∈ es, e.2 = f e.1) :
    es.foldl (fun t e => t.add e.2) {} = ofQuotas (es.map Prod.fst).toFinset f := by
  induction es using List.reverseRecOn with
  | nil => rfl
  | append_singleton es e ih =>
    rw [List.map_append, List.map_singleton, List.nodup_append] at hnodup
    obtain ⟨hinit, -, hnew⟩ := hnodup
    have hlast : e.1 ∉ (es.map Prod.fst).toFinset := by
      intro hmem
      exact hnew e.1 (List.mem_toFinset.mp hmem) e.1 (List.mem_singleton.mpr rfl) rfl
    have hkeys : ((es ++ [e]).map Prod.fst).toFinset = insert e.1 (es.map Prod.fst).toFinset := by
      ext p
      simp
    rw [hkeys, ofQuotas_insert hlast, List.foldl_append, ih hinit fun e he => hf e (by simp [he]),
      ← hf e (by simp)]
    rfl

end Totals

/-! ### Rulings by their senders -/

theorem mem_senders {p : PeerId} {rs : List Ruling} : p ∈ senders rs ↔ rulingsOn p rs ≠ [] := by
  simp [senders, rulingsOn, List.filter_eq_nil_iff]

theorem peer_mem_senders {r : Ruling} {rs : List Ruling} (hr : r ∈ rs) : r.peer ∈ senders rs :=
  List.mem_toFinset.mpr (List.mem_map_of_mem hr)

/-- **What belongs to each sender adds up to what belongs to all.** -/
theorem sum_rulingsOn {ps : Finset PeerId} {rs : List Ruling} (h : ∀ r ∈ rs, r.peer ∈ ps)
    (g : Ruling → Nat) : ∑ p ∈ ps, ((rulingsOn p rs).map g).sum = (rs.map g).sum := by
  induction rs with
  | nil => simp [rulingsOn]
  | cons r rs ih =>
    have hfirst : ∀ p, ((rulingsOn p (r :: rs)).map g).sum =
        (if p = r.peer then g r else 0) + ((rulingsOn p rs).map g).sum := by
      intro p
      unfold rulingsOn
      by_cases hp : r.peer = p
      · simp [hp]
      · simp [hp, Ne.symm hp]
    have hrest := ih fun r' hr' => h r' (List.mem_cons_of_mem _ hr')
    have hmem : r.peer ∈ ps := h r List.mem_cons_self
    rw [Finset.sum_congr rfl fun p _ => hfirst p, Finset.sum_add_distrib, hrest,
      Finset.sum_ite_eq' ps r.peer, if_pos hmem, List.map_cons, List.sum_cons]

theorem sum_length_rulingsOn {ps : Finset PeerId} {rs : List Ruling} (h : ∀ r ∈ rs, r.peer ∈ ps) :
    ∑ p ∈ ps, (rulingsOn p rs).length = rs.length := by
  simpa using sum_rulingsOn h fun _ => 1

theorem admittedOf_rulingsOn (p : PeerId) (rs : List Ruling) :
    admittedOf (rulingsOn p rs) = rulingsOn p (admittedOf rs) := by
  unfold admittedOf rulingsOn
  rw [List.filter_filter, List.filter_filter]
  exact List.filter_congr fun r _ => Bool.and_comm _ _

theorem bytesOf_rulingsOn_le (p : PeerId) (rs : List Ruling) :
    bytesOf (rulingsOn p rs) ≤ bytesOf rs :=
  List.Sublist.sum_le_sum (List.filter_sublist.map _) fun _ _ => Nat.zero_le _

theorem length_rulingsOn_of_sent {rs : List Ruling} {sent : List (PeerId × Nat)}
    (h : rs.map (fun r => (r.peer, r.size)) = sent) (peer : PeerId) :
    (rulingsOn peer rs).length = sent.countP (·.1 = peer) := by
  rw [← h, List.countP_map, rulingsOn, ← List.countP_eq_length_filter]
  rfl

theorem bytesOf_of_sent {rs : List Ruling} {sent : List (PeerId × Nat)}
    (h : rs.map (fun r => (r.peer, r.size)) = sent) : bytesOf rs = (sent.map Prod.snd).sum := by
  rw [← h, List.map_map]
  rfl

/-- A quota that counts rulings to the last message and byte. -/
structure Quota.Counts (q : Quota) (rs : List Ruling) : Prop where
  received : q.received = rs.length
  receivedSize : q.receivedSize = bytesOf rs
  admitted : q.admitted = (admittedOf rs).length
  admittedSize : q.admittedSize = bytesOf (admittedOf rs)

theorem Totals.ofQuotas_eq {rs : List Ruling} {f : PeerId → Quota}
    (h : ∀ p, (f p).Counts (rulingsOn p rs)) : ofQuotas (senders rs) f = of rs := by
  have hmem : ∀ r ∈ rs, r.peer ∈ senders rs := fun r hr => peer_mem_senders hr
  have hmem' : ∀ r ∈ admittedOf rs, r.peer ∈ senders rs :=
    fun r hr => hmem r (List.mem_filter.mp hr).1
  simp only [ofQuotas, of, (h _).received, (h _).receivedSize, (h _).admitted, (h _).admittedSize,
    admittedOf_rulingsOn, sum_length_rulingsOn hmem, sum_length_rulingsOn hmem', bytesOf,
    sum_rulingsOn hmem, sum_rulingsOn hmem']

/-! ### The end of an interval -/

namespace Tier

variable (p : Policy) (calls : List TierCall)

/-- What a quota says to be admitted is admitted, as far as its counters reach. -/
theorem admitted_transcript (peer : PeerId) :
    let s := (new p).transcript calls
    (s.quota peer).admitted = min (admittedOf (s.own peer)).length countLimit ∧
      (s.quota peer).admittedSize = min (bytesOf (admittedOf (s.own peer))) sizeLimit := by
  refine Transcript.own_induction
    (P := fun q rs => q.admitted = min (admittedOf rs).length countLimit ∧
      q.admittedSize = min (bytesOf (admittedOf rs)) sizeLimit)
    (fun c => ⟨rfl, rfl⟩) (fun q rs c size h => ?_) calls
  obtain ⟨hcount, hsize⟩ := h
  rw [admittedOf_append]
  rcases Policy.judge_cases p c size q with ⟨e, -, hj⟩ | ⟨-, hj⟩
  · have hno : (p.ruling c peer size q).admission.isAdmitted = false := by
      rw [Policy.ruling, hj]
      rfl
    rw [hno, if_neg Bool.false_ne_true, hj]
    exact ⟨hcount, hsize⟩
  · have hyes : (p.ruling c peer size q).admission.isAdmitted = true := by
      rw [Policy.ruling, hj]
      rfl
    rw [hyes, if_pos rfl, hj, List.length_append, bytesOf_append, List.length_singleton]
    show addCount q.admitted 1 = _ ∧ addSize q.admittedSize size = min (_ + size) sizeLimit
    rw [hcount, hsize, addCount, addSize]
    constructor <;> omega

/-- **The quota of a peer is exact while no counter is full.** -/
theorem counts_transcript {peer : PeerId}
    (hcount : (((new p).transcript calls).own peer).length ≤ countLimit)
    (hsize : bytesOf (((new p).transcript calls).own peer) ≤ sizeLimit) :
    (((new p).transcript calls).quota peer).Counts (((new p).transcript calls).own peer) := by
  have hacc := accounted_transcript p calls peer
  obtain ⟨hadmitted, hadmittedSize⟩ := admitted_transcript p calls peer
  have hle : (admittedOf (((new p).transcript calls).own peer)).length ≤ _ :=
    List.length_filter_le _ _
  have hbytes := bytesOf_admittedOf_le (((new p).transcript calls).own peer)
  exact ⟨by rw [hacc.received]; omega, by rw [hacc.receivedSize]; omega, by omega, by omega⟩

theorem received_eq_zero_iff (peer : PeerId) :
    (((new p).transcript calls).quota peer).received = 0 ↔
      ((new p).transcript calls).own peer = [] := by
  have hpos : 0 < countLimit := by decide
  rw [(accounted_transcript p calls peer).received, ← List.length_eq_zero_iff]
  omega

theorem mem_active_iff (t : Tier) (peer : PeerId) (q : Quota) :
    (peer, q) ∈ t.active ↔ t.quota? peer = some q ∧ q.received ≠ 0 := by
  rw [active, List.mem_filter, t.records.mem_entries_iff]
  simp [Quota.isIdle, quota?]

/-- **The active peers are the senders of the interval.** -/
theorem toFinset_active :
    let s := (new p).transcript calls
    (s.tier.active.map Prod.fst).toFinset = senders s.rulings := by
  intro s
  ext peer
  have hown : rulingsOn peer s.rulings = s.own peer := rfl
  rw [List.mem_toFinset, mem_senders, hown, Ne, ← received_eq_zero_iff]
  show _ ↔ (s.quota peer).received ≠ 0
  constructor
  · intro hmem
    obtain ⟨⟨_, q⟩, he, rfl⟩ := List.mem_map.mp hmem
    obtain ⟨hq, hpos⟩ := (mem_active_iff _ _ _).mp he
    rwa [Transcript.quota, hq, Option.getD_some]
  · intro hpos
    rcases hq : s.tier.quota? peer with _ | q
    · -- a newcomer has sent nothing
      rw [Transcript.quota, hq] at hpos
      exact absurd rfl hpos
    · rw [Transcript.quota, hq, Option.getD_some] at hpos
      exact List.mem_map.mpr ⟨(peer, q), (mem_active_iff _ _ _).mpr ⟨hq, hpos⟩, rfl⟩

/-- **The totals of an interval are exact** while no counter is full: they are what the rulings of
the interval come to. -/
theorem totals_active
    (hcount : ∀ peer, (((new p).transcript calls).own peer).length ≤ countLimit)
    (hsize : bytesOf ((new p).transcript calls).rulings ≤ sizeLimit) :
    ((new p).transcript calls).tier.active.foldl (fun t e => t.add e.2) {} =
      Totals.of ((new p).transcript calls).rulings := by
  have hnodup : (((new p).transcript calls).tier.active.map Prod.fst).Nodup :=
    (List.filter_sublist.map Prod.fst).nodup ((new p).transcript calls).tier.records.nodup
  have hquota : ∀ e ∈ ((new p).transcript calls).tier.active,
      e.2 = ((new p).transcript calls).quota e.1 := by
    intro e he
    obtain ⟨hq, -⟩ := (mem_active_iff _ e.1 e.2).mp he
    rw [Transcript.quota, hq, Option.getD_some]
  rw [Totals.foldl_add _ hnodup hquota, toFinset_active]
  refine Totals.ofQuotas_eq fun peer => ?_
  exact counts_transcript p calls (hcount peer) ((bytesOf_rulingsOn_le peer _).trans hsize)

end Tier

end Floodgate
