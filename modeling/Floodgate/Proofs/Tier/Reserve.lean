import Floodgate.Proofs.Tier.Steady

/-! # What the reserved share is worth

A validator has the whole budget and everyone else a share of it, so a message that fits behind
others for everyone else fits for a validator as long as both have earned the same. But the increase
is earned by a share of the class's own budget: a peer with the smaller budget earns it sooner, and
its increased budget may be larger than the whole plain one. A validator then falls behind exactly
on a leap: a message before which the peer has not reached the share of the base, neither in number
nor in bytes, and with which it exceeds the base in bytes (`fits_reserved_iff`). Without a leap a
validator is admitted wherever everyone else is (`Tier.reserved_admitted_iff`). -/

namespace Floodgate

namespace Policy

/-- Does a message take a peer from below the share of the base that earns the increase to above the
base? -/
def leaps (p : Policy) (before : List Nat) (size : Nat) : Bool :=
  match p.threshold with
  | none => false
  | some x =>
    !reaches x before.length p.messages && !reaches x before.sum p.totalSize &&
      p.totalSize < addSize before.sum size

variable {p : Policy} {c : PeerClass}

theorem fits_iff {before : List Nat} {size : Nat} :
    p.Fits c before size ↔
      size ≤ (p.budget c (p.earnedBy c before)).maxSize ∧
        min (before.length + 1) countLimit ≤ (p.budget c (p.earnedBy c before)).maxMessages ∧
        min (before.sum + size) sizeLimit ≤ (p.budget c (p.earnedBy c before)).maxSize := by
  rw [Fits, excess?_eq_none_iff]
  simp [Quota.ofAdmitted]

theorem Fits.of_le {p' : Policy} {d : PeerClass} {before : List Nat} {size : Nat}
    (h : p.Fits d before size)
    (hle : p.budget d (p.earnedBy d before) ≤ p'.budget c (p'.earnedBy c before)) :
    p'.Fits c before size := by
  rw [fits_iff] at h ⊢
  exact ⟨h.1.trans hle.2, h.2.1.trans hle.1, h.2.2.trans hle.2⟩

/-- A counter that reaches to the number at least shows whether a share of the number is reached. -/
theorem reaches_min {x : Double} {n max limit : Nat} (hx : x.within .zero (.ofNat 1) = true)
    (hmax : max ≤ sizeLimit) (hlimit : max ≤ limit) :
    reaches x (min n limit) max = reaches x n max := by
  rcases Nat.le_total n limit with hle | hle
  · rw [Nat.min_eq_left hle]
  · rw [Nat.min_eq_right hle, reaches_of_le hx hmax hlimit,
      reaches_of_le hx hmax (hlimit.trans hle)]

theorem earnedBy_reserved (hp : p.Valid) (hs : p.SoundShare) {x : Double}
    (hx : p.threshold = some x) (before : List Nat) :
    p.earnedBy .reserved before =
      (reaches x before.length p.messages || reaches x before.sum p.totalSize) := by
  have hshare := hs x hx
  simp only [earnedBy, earned, hx, budget_base hp, Quota.ofAdmitted]
  rw [reaches_min hshare (hp.messages_le.trans countLimit_le_sizeLimit) hp.messages_le,
    reaches_min hshare hp.totalSize_le hp.totalSize_le]

/-- **A message that fits for everyone else fits for a validator, unless it is a leap.** -/
theorem fits_reserved_iff (hp : p.Valid) (hs : p.SoundShare) {before : List Nat} {size : Nat}
    (hsize : size ≤ sizeLimit) (h : p.Fits .normal before size) :
    p.Fits .reserved before size ↔ p.leaps before size = false := by
  rcases hx : p.threshold with _ | x
  · -- nobody earns the increase
    have hplain : ∀ c, p.earnedBy c before = false := fun c => by
      rw [earnedBy, earned, hx]
    have hfits : p.Fits .reserved before size := by
      refine h.of_le ?_
      rw [hplain, hplain]
      exact budget_plain_le hp .normal
    exact ⟨fun _ => by rw [leaps, hx], fun _ => hfits⟩
  · have hearned := earnedBy_reserved hp hs hx before
    have hleaps : p.leaps before size =
        (!p.earnedBy .reserved before && decide (p.totalSize < addSize before.sum size)) := by
      rw [hearned, Bool.not_or]
      simp only [leaps, hx]
    rw [hleaps]
    rcases hr : p.earnedBy .reserved before with _ | _
    · -- below the share of the base there is room for one more message
      rw [hr] at hearned
      have hcount : before.length < p.messages := by
        by_contra hge
        rw [reaches_of_le (hs x hx) (hp.messages_le.trans countLimit_le_sizeLimit)
          (not_lt.mp hge)] at hearned
        cases hearned
      rw [fits_iff, hr, budget_base hp]
      rw [Bool.not_false, Bool.true_and, decide_eq_false_iff_not, not_lt, addSize]
      constructor
      · exact fun hfits => hfits.2.2
      · intro hle
        refine ⟨?_, ?_, hle⟩
        · show size ≤ p.totalSize
          omega
        · show min (before.length + 1) countLimit ≤ p.messages
          omega
    · -- an increased budget of a validator is the largest
      have hfits : p.Fits .reserved before size := by
        refine h.of_le ?_
        rw [hr]
        exact budget_le_increased hp .normal _
      exact ⟨fun _ => rfl, fun _ => hfits⟩

theorem decisions_reserved_iff (hp : p.Valid) (hs : p.SoundShare) {sizes : List Nat}
    (hsizes : ∀ n ∈ sizes, n ≤ sizeLimit) {i : Nat}
    (h : (p.decisions {} (sizes.map (.normal, ·)))[i]? = some .admitted) :
    (p.decisions {} (sizes.map (.reserved, ·)))[i]? = some .admitted ↔
      ∀ j ≤ i, ∀ size, sizes[j]? = some size → p.leaps (sizes.take j) size = false := by
  rw [decisions_steady hsizes, allFit_take] at h ⊢
  obtain ⟨hlt, hfits⟩ := h
  have hiff : ∀ j ≤ i, ∀ size, sizes[j]? = some size →
      (p.Fits .reserved (sizes.take j) size ↔ p.leaps (sizes.take j) size = false) :=
    fun j hj size hsize =>
      fits_reserved_iff hp hs (hsizes size (List.mem_of_getElem? hsize)) (hfits j hj size hsize)
  constructor
  · rintro ⟨-, hall⟩ j hj size hsize
    exact (hiff j hj size hsize).mp (hall j hj size hsize)
  · exact fun hno => ⟨hlt, fun j hj size hsize => (hiff j hj size hsize).mpr (hno j hj size hsize)⟩

end Policy

namespace Tier

/-- **A validator is admitted wherever everyone else is, but for leaps.** If a peer that is no
validator throughout an interval has a message admitted, then a validator that sends the same sizes
in an interval of the same tier has that message admitted exactly if none of the messages up to it
is a leap. -/
theorem reserved_admitted_iff {speed : Speed} {cfg : TierConfig} {cache : CacheConfig} {t : Tier}
    (ht : make? speed cfg cache = .ok t) (calls calls' : List TierCall) (peer validator : PeerId)
    (sizes : List UInt64) (hpeer : window peer calls = sizes.map fun n => (.normal, n.toNat))
    (hvalidator : window validator calls' = sizes.map fun n => (.reserved, n.toNat)) (i : Nat)
    (hadmitted : (((t.transcript calls).own peer).map (·.admission))[i]? = some .admitted) :
    (((t.transcript calls').own validator).map (·.admission))[i]? = some .admitted ↔
      ∀ j ≤ i, ∀ n, sizes[j]? = some n →
        t.policy.leaps ((sizes.take j).map UInt64.toNat) n.toNat = false := by
  obtain ⟨hrules, rfl⟩ := make?_eq_ok_iff.mp ht
  have hrules' := fun r hr => hrules r (List.mem_append_left _ hr)
  have hp := Policy.valid_ofConfig cache hrules'
  have hs := Policy.soundShare_ofConfig cache hrules'
  have hsizes : ∀ n ∈ sizes.map UInt64.toNat, n ≤ sizeLimit := by
    intro n hn
    obtain ⟨m, -, rfl⟩ := List.mem_map.mp hn
    exact Nat.le_sub_one_of_lt m.toNat_lt
  have hwindow : ∀ c : PeerClass, (sizes.map fun n => (c, n.toNat)) =
      (sizes.map UInt64.toNat).map (c, ·) := by
    intro c
    rw [List.map_map]
    rfl
  rw [own_admissions, hpeer, hwindow] at hadmitted
  rw [own_admissions, hvalidator, hwindow, Policy.decisions_reserved_iff hp hs hsizes hadmitted]
  refine forall₂_congr fun j _ => ?_
  rw [← List.map_take]
  constructor
  · exact fun hno n hn => hno n.toNat (by rw [List.getElem?_map, hn]; rfl)
  · intro hno size hsize
    rw [List.getElem?_map] at hsize
    obtain ⟨n, hn, rfl⟩ := Option.map_eq_some_iff.mp hsize
    exact hno n hn

/-- A peer and a validator that send the same three sizes, the last beyond the base. -/
def twinCalls : List TierCall :=
  [.message .normal ⟨[1]⟩ 72, .message .reserved ⟨[2]⟩ 72, .message .normal ⟨[1]⟩ 20,
    .message .reserved ⟨[2]⟩ 20, .message .normal ⟨[1]⟩ 28, .message .reserved ⟨[2]⟩ 28]

/-- The validator reaches the share of the base with the second message, and so the third is no
leap. -/
theorem twinCalls_admitted :
    make? .fast narrowConfig {} = .ok narrow ∧
      (((narrow.transcript twinCalls).own ⟨[1]⟩).map (·.admission))[2]? = some .admitted ∧
      (((narrow.transcript twinCalls).own ⟨[2]⟩).map (·.admission))[2]? = some .admitted := by
  have hadmitted : (((narrow.transcript twinCalls).own ⟨[1]⟩).map (·.admission))[2]? =
      some .admitted := by decide +kernel
  refine ⟨make?_narrow, hadmitted, ?_⟩
  refine (reserved_admitted_iff make?_narrow twinCalls twinCalls ⟨[1]⟩ ⟨[2]⟩ [72, 20, 28]
    (by decide) (by decide) 2 hadmitted).mpr ?_
  have hno : ∀ j : Fin 3,
      narrow.policy.leaps (([72, 20, 28] : List UInt64).take j |>.map UInt64.toNat)
        ([72, 20, 28] : List UInt64)[j].toNat = false := by decide +kernel
  intro j hj n hn
  obtain ⟨hlt, rfl⟩ := List.getElem?_eq_some_iff.mp hn
  exact hno ⟨j, hlt⟩

/-- A peer and a validator that send the same two sizes, the second a leap. -/
def leapCalls : List TierCall :=
  [.message .normal ⟨[1]⟩ 72, .message .reserved ⟨[2]⟩ 72, .message .normal ⟨[1]⟩ 48,
    .message .reserved ⟨[2]⟩ 48]

/-- **A validator may be refused what everyone else is allowed.** The peer has earned the increase
of its smaller budget with the first message, the validator has not. -/
theorem leap_refused_for_validator :
    make? .fast narrowConfig {} = .ok narrow ∧
      window ⟨[1]⟩ leapCalls = [(.normal, 72), (.normal, 48)] ∧
      window ⟨[2]⟩ leapCalls = [(.reserved, 72), (.reserved, 48)] ∧
      ((narrow.transcript leapCalls).own ⟨[1]⟩).map (·.admission) = [.admitted, .admitted] ∧
      ((narrow.transcript leapCalls).own ⟨[2]⟩).map (·.admission) =
        [.admitted, .rejected (.totalSize 120 100)] :=
  ⟨make?_narrow, by decide, by decide, by decide +kernel, by decide +kernel⟩

end Tier

end Floodgate
