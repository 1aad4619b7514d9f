import Floodgate.Proofs.Tier.Reserve
import Mathlib.Algebra.Order.BigOperators.Group.List

/-! # How many messages a peer may send

A peer that keeps its class and stays within the bytes of its plain budget is only counted by its
messages. If the increase can be earned at all, it has been earned by the time the plain budget runs
out, for the messages of the plain budget reach every share of it; so nothing is refused before the
increased budget runs out, and nothing is admitted behind it (`Policy.fits_iff_lt`). The number of
admitted messages follows by induction on the messages (`Tier.length_admittedOf_eq`). -/

namespace Floodgate

namespace Policy

variable {p : Policy} {c : PeerClass}

/-! ### Messages that are only counted -/

/-- **Whoever has had the messages of the plain budget admitted has earned the increase.** -/
theorem earnedBy_of_le (hs : p.SoundShare) (hactive : p.threshold.isSome = true)
    {before : List Nat} (h : (p.budget c false).maxMessages ≤ before.length) :
    p.earnedBy c before = true := by
  obtain ⟨x, hx⟩ := Option.isSome_iff_exists.mp hactive
  have hlimit : (p.budget c false).maxMessages ≤ countLimit := Nat.min_le_right _ _
  have hreach : reaches x (min before.length countLimit) (p.budget c false).maxMessages = true :=
    reaches_of_le (hs x hx) (hlimit.trans (by decide)) (Nat.le_min.mpr ⟨h, hlimit⟩)
  simp only [earnedBy, earned, hx, Quota.ofAdmitted, hreach, Bool.true_or]

/-- **A message within the bytes of the plain budget fits as long as there are messages left**, in
the increased budget if the increase can be earned. -/
theorem fits_iff_lt (hp : p.Valid) (hs : p.SoundShare) {before : List Nat} {size : Nat}
    (few : before.length < countLimit)
    (light : (before ++ [size]).sum ≤ (p.budget c false).maxSize) :
    p.Fits c before size ↔
      before.length < (p.budget c p.threshold.isSome).maxMessages := by
  have hsize := (budget_plain_le_budget hp c (p.earnedBy c before)).2
  rw [List.sum_append, List.sum_singleton] at light
  have hcount : p.Fits c before size ↔
      before.length < (p.budget c (p.earnedBy c before)).maxMessages := by
    rw [fits_iff]
    omega
  rw [hcount]
  cases hearned : p.earnedBy c before with
  | true => rw [isSome_of_earnedBy hearned]
  | false =>
    cases hactive : p.threshold.isSome with
    | false => exact Iff.rfl
    | true =>
      -- the plain budget has not run out, or the increase would have been earned
      have hleft : before.length < (p.budget c false).maxMessages := by
        by_contra hout
        rw [earnedBy_of_le hs hactive (not_lt.mp hout)] at hearned
        cases hearned
      exact iff_of_true hleft (hleft.trans_le (budget_plain_le_budget hp c true).1)

theorem allFit_iff_le (hp : p.Valid) (hs : p.SoundShare) {sizes : List Nat}
    (few : sizes.length ≤ countLimit) (light : sizes.sum ≤ (p.budget c false).maxSize) :
    p.AllFit c sizes ↔ sizes.length ≤ (p.budget c p.threshold.isSome).maxMessages := by
  induction sizes using List.reverseRecOn with
  | nil => exact iff_of_true allFit_nil (Nat.zero_le _)
  | append_singleton sizes size ih =>
    rw [List.length_append, List.length_singleton] at few ⊢
    have hfits : p.Fits c sizes size ↔ _ := fits_iff_lt hp hs (by omega) light
    rw [allFit_append, hfits]
    rw [List.sum_append, List.sum_singleton] at light
    rw [ih (by omega) (by omega)]
    omega

theorem countP_decisions (hp : p.Valid) (hs : p.SoundShare) {sizes : List Nat}
    (few : sizes.length ≤ countLimit) (light : sizes.sum ≤ (p.budget c false).maxSize) :
    (p.decisions {} (sizes.map (c, ·))).countP Admission.isAdmitted =
      min sizes.length (p.budget c p.threshold.isSome).maxMessages := by
  induction sizes using List.reverseRecOn with
  | nil => exact (Nat.zero_min _).symm
  | append_singleton sizes size ih =>
    have hbound : ∀ n ∈ sizes ++ [size], n ≤ sizeLimit := fun n hn =>
      (List.le_sum_of_mem hn).trans (light.trans (scale_le _ _ _))
    have hlast := (judge_sustain_steady (p := p) (c := c) hbound).trans
      (allFit_iff_le hp hs few light)
    rw [List.length_append, List.length_singleton] at few hlast ⊢
    rw [List.sum_append, List.sum_singleton] at light
    rw [List.map_append, List.map_singleton, decisions_append, List.countP_append,
      ih (by omega) (by omega)]
    show _ + [(p.judge c size (p.sustain {} (sizes.map (c, ·)))).2].countP _ = _
    simp only [List.countP_singleton, Admission.isAdmitted_iff, hlast]
    split_ifs <;> omega

end Policy

namespace Tier

/-- **The exact number of messages a peer may send.** In every run of a tier that was built from
settings, if a peer has had one class since the last reset and has sent no more bytes than its plain
budget allows, then as many of its messages have been admitted as its budget has, the increased one
if the increase is active, or all of them if there are fewer. -/
theorem length_admittedOf_eq {speed : Speed} {cfg : TierConfig} {cache : CacheConfig} {t : Tier}
    (ht : make? speed cfg cache = .ok t) (calls : List TierCall) (peer : PeerId) (c : PeerClass)
    (steady : ∀ x ∈ window peer calls, x.1 = c) (few : (window peer calls).length < 2 ^ 32)
    (light : ((window peer calls).map Prod.snd).sum ≤ (t.policy.budget c false).maxSize) :
    (admittedOf ((t.transcript calls).own peer)).length =
      min (window peer calls).length
        (t.policy.budget c cfg.input.increase.isActive).maxMessages := by
  obtain ⟨hrules, rfl⟩ := make?_eq_ok_iff.mp ht
  have hrules' := fun r hr => hrules r (List.mem_append_left _ hr)
  have hp := Policy.valid_ofConfig cache hrules'
  have hs := Policy.soundShare_ofConfig cache hrules'
  have hwindow : ((window peer calls).map Prod.snd).map (c, ·) = window peer calls := by
    have hkept : ∀ x ∈ window peer calls, ((c, ·) ∘ Prod.snd) x = id x :=
      fun x hx => Prod.ext (steady x hx).symm rfl
    rw [List.map_map, List.map_congr_left hkept, List.map_id]
  have hfew : ((window peer calls).map Prod.snd).length ≤ countLimit := by
    rw [List.length_map]
    exact Nat.le_sub_one_of_lt few
  have hcount := Policy.countP_decisions (c := c) hp hs hfew light
  rw [hwindow, ← own_admissions, List.countP_map, List.length_map,
    Policy.isSome_threshold_ofConfig] at hcount
  exact List.countP_eq_length_filter.symm.trans hcount

/-- A peer of a class with a budget of two messages, or three with the increase, sends four. -/
def eagerCalls : List TierCall :=
  [.message .normal ⟨[1]⟩ 10, .reset, .message .normal ⟨[1]⟩ 20, .message .reserved ⟨[2]⟩ 99,
    .message .normal ⟨[1]⟩ 0, .message .normal ⟨[1]⟩ 30, .message .normal ⟨[1]⟩ 30]

/-- Two messages earn the increase, and so three of the four are admitted. -/
theorem eagerCalls_admitted :
    make? .fast narrowConfig {} = .ok narrow ∧
      window ⟨[1]⟩ eagerCalls = [(.normal, 20), (.normal, 0), (.normal, 30), (.normal, 30)] ∧
      narrow.policy.budget .normal false = ⟨2, 80⟩ ∧
      narrow.policy.budget .normal narrowConfig.input.increase.isActive = ⟨3, 120⟩ ∧
      (admittedOf ((narrow.transcript eagerCalls).own ⟨[1]⟩)).length = 3 := by
  have hwindow : window ⟨[1]⟩ eagerCalls =
      [(.normal, 20), (.normal, 0), (.normal, 30), (.normal, 30)] := by decide
  have hplain : narrow.policy.budget .normal false = ⟨2, 80⟩ := by decide +kernel
  have hincreased : narrow.policy.budget .normal narrowConfig.input.increase.isActive =
      ⟨3, 120⟩ := by decide +kernel
  have hcount := length_admittedOf_eq make?_narrow eagerCalls ⟨[1]⟩ .normal
    (by rw [hwindow]; decide) (by rw [hwindow]; decide) (by rw [hwindow, hplain]; decide)
  rw [hwindow, hincreased] at hcount
  exact ⟨make?_narrow, hwindow, hplain, hincreased, hcount⟩

end Tier

end Floodgate
