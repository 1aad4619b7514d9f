import Floodgate.Proofs.Tier.Census
import Floodgate.Proofs.Tier.Window
import Mathlib.Data.Set.Card

/-! # What a reset drops

A reset renews the quotas of all peers that it keeps. Which ones it drops is settled before it
starts: none in a tier that tracks no more peers than it keeps when idle, and in a crowded tier
those whose quota counts no message (`Tier.quota?_reset`). A quota counts no message exactly if its
peer has sent nothing since the last reset, although the counters of a renewed quota and of one that
has never been used look the same (`Tier.isIdle_transcript`). So a crowded tier is left with the
senders of the interval, and the number of records is bounded at every reset of every run
(`Tier.reset_spares_senders`). -/

namespace Floodgate

/-- The number of idle peers that settings allow: one for every 128 bytes, if a size is set. -/
theorem Policy.capacityOf_eq (cache : CacheConfig) :
    capacityOf cache =
      if 0 < cache.sizeInBytes.toNat then
        min cache.capacity.toNat (max 1 (cache.sizeInBytes.toNat / 128))
      else cache.capacity.toNat := by
  have hset : cache.sizeInBytes ≠ 0 ↔ 0 < cache.sizeInBytes.toNat := by
    rw [Nat.pos_iff_ne_zero, Ne, ← UInt64.toNat_inj, UInt64.toNat_zero]
  rw [capacityOf, ← if_congr hset rfl rfl, ite_not]
  rfl

namespace Tier

/-! ### One reset -/

theorem quota?_reset (t : Tier) (peer : PeerId) :
    t.reset.quota? peer =
      ((t.quota? peer).filter fun q => !(q.isIdle && t.isCrowded)).map Quota.renewed := by
  rw [quota?, reset, Keyed.get?_map, Keyed.get?_keep]
  rfl

theorem tracked_reset (t : Tier) :
    t.reset.tracked = if t.isCrowded then t.active.length else t.tracked := by
  have hkept : t.reset.tracked =
      (t.records.entries.filter fun e => !(e.2.isIdle && t.isCrowded)).length :=
    List.length_map _
  rw [hkept]
  cases t.isCrowded with
  | true =>
    simp only [Bool.and_true]
    rfl
  | false =>
    simp only [Bool.and_false, Bool.not_false, List.filter_true]
    rfl

/-! ### Senders and idle peers -/

variable (p : Policy) (calls : List TierCall) (peer : PeerId)

/-- **A quota is idle exactly if its peer has sent nothing since the last reset.** -/
theorem isIdle_transcript :
    (((new p).transcript calls).quota peer).isIdle = true ↔ window peer calls = [] := by
  rw [Quota.isIdle, decide_eq_true_iff, received_eq_zero_iff, window_eq_map_own p,
    List.map_eq_nil_iff]

theorem exists_quota_of_window (h : window peer calls ≠ []) :
    ∃ q, ((new p).transcript calls).tier.quota? peer = some q := by
  rcases hq : ((new p).transcript calls).tier.quota? peer with _ | q
  · -- the quota of a newcomer is idle
    have hidle : (((new p).transcript calls).quota peer).isIdle = true := by
      rw [Transcript.quota, hq]
      rfl
    exact absurd ((isIdle_transcript p calls peer).mp hidle) h
  · exact ⟨q, rfl⟩

theorem length_active :
    ((new p).transcript calls).tier.active.length = {peer | window peer calls ≠ []}.ncard := by
  have hnodup : (((new p).transcript calls).tier.active.map Prod.fst).Nodup :=
    (List.filter_sublist.map Prod.fst).nodup ((new p).transcript calls).tier.records.nodup
  have hsenders : {peer | window peer calls ≠ []} =
      (senders ((new p).transcript calls).rulings : Set PeerId) := by
    ext peer
    have hown : rulingsOn peer ((new p).transcript calls).rulings =
        ((new p).transcript calls).own peer := rfl
    rw [Set.mem_ofPred_eq, Finset.mem_coe, mem_senders, hown, Ne, window_eq_map_own p,
      List.map_eq_nil_iff]
  rw [hsenders, Set.ncard_coe_finset, ← toFinset_active p calls, List.toFinset_card_of_nodup hnodup,
    List.length_map]

/-- **A reset of a run drops the peers that have sent nothing, if the tier is crowded.** -/
theorem quota?_reset_transcript :
    let s := (new p).transcript calls
    s.tier.reset.quota? peer =
      if s.tier.isCrowded = true ∧ window peer calls = [] then none
      else (s.tier.quota? peer).map Quota.renewed := by
  intro s
  have hidle := (isIdle_transcript p calls peer).symm
  rw [quota?_reset, if_congr (and_congr_right fun _ => hidle) rfl rfl]
  rcases hq : s.tier.quota? peer with _ | q
  · exact (ite_self _).symm
  · have hquota : ((new p).transcript calls).quota peer = q := by
      rw [Transcript.quota, hq, Option.getD_some]
    rw [hquota]
    cases s.tier.isCrowded <;> cases hq : q.isIdle <;> simp [hq, Option.filter]

/-- **A reset spares the senders of its interval.** In every run of a tier that was built from
settings, let the tier track some peers when its interval ends. Whoever has sent a message in the
interval has a record. The reset drops nobody if no more peers are tracked than the settings allow
when idle, and otherwise exactly those who have sent nothing in the interval; of every other record
it keeps the class and nothing else, so that nothing is counted and no increase is left. So the tier
then tracks no more peers than the settings allow or than have sent something in the interval,
whichever is more. -/
theorem reset_spares_senders {speed : Speed} {cfg : TierConfig} {cache : CacheConfig} {t : Tier}
    (ht : make? speed cfg cache = .ok t) (calls : List TierCall) :
    let before := (t.transcript calls).tier
    let after := (t.transcript (calls ++ [.reset])).tier
    let capacity :=
      if 0 < cache.sizeInBytes.toNat then
        min cache.capacity.toNat (max 1 (cache.sizeInBytes.toNat / 128))
      else cache.capacity.toNat
    (∀ peer, window peer calls ≠ [] → ∃ q, before.quota? peer = some q) ∧
    (∀ peer, after.quota? peer =
      if capacity < before.tracked ∧ window peer calls = [] then none
      else (before.quota? peer).map fun q => { peerClass := q.peerClass }) ∧
    after.tracked ≤ max capacity {peer | window peer calls ≠ []}.ncard := by
  intro before after capacity
  obtain ⟨-, rfl⟩ := make?_eq_ok_iff.mp ht
  have hafter : after = before.reset := by
    show (Transcript.tier _) = _
    rw [Transcript.transcript_append]
    rfl
  have hcapacity : before.policy.capacity = capacity := by
    rw [Transcript.policy_transcript]
    exact Policy.capacityOf_eq cache
  have hcrowded : before.isCrowded = true ↔ capacity < before.tracked := by
    rw [isCrowded, decide_eq_true_iff, hcapacity]
  refine ⟨fun peer h => exists_quota_of_window _ calls peer h, fun peer => ?_, ?_⟩
  · rw [hafter, if_congr (and_congr_left fun _ => hcrowded.symm) rfl rfl]
    exact quota?_reset_transcript _ calls peer
  · rw [hafter, tracked_reset]
    split_ifs with h
    · rw [length_active]
      exact le_max_right _ _
    · exact (not_lt.mp fun hlt => h (hcrowded.mpr hlt)).trans (le_max_left _ _)

/-- The tier of the narrow budget with room for two idle peers. -/
def compact : Tier := new (.ofConfig .fast narrowConfig { sizeInBytes := 300 })

/-- Three peers send something, and only one of them does so again in the next interval. -/
def thinningCalls : List TierCall :=
  [.message .normal ⟨[1]⟩ 10, .message .normal ⟨[2]⟩ 20, .message .reserved ⟨[3]⟩ 30, .reset,
    .message .reserved ⟨[1]⟩ 90]

/-- The first reset drops nobody, and the second one the two peers that have fallen silent, although
there is room for one of them. -/
theorem thinningCalls_dropped :
    let first := compact.transcript (thinningCalls.take 4)
    let second := compact.transcript (thinningCalls ++ [.reset])
    make? .fast narrowConfig { sizeInBytes := 300 } = .ok compact ∧
      first.tier.tracked = 3 ∧
      window ⟨[1]⟩ thinningCalls = [(.reserved, 90)] ∧ window ⟨[2]⟩ thinningCalls = [] ∧
      second.tier.quota? ⟨[1]⟩ = some { peerClass := .reserved } ∧
      second.tier.quota? ⟨[2]⟩ = none ∧ second.tier.tracked ≤ 2 := by
  intro first second
  have hmake : make? .fast narrowConfig { sizeInBytes := 300 } = .ok compact :=
    make?_eq_ok_iff.mpr ⟨by decide +kernel, rfl⟩
  have hsent : window ⟨[1]⟩ thinningCalls = [(.reserved, 90)] := by decide
  have hsilent : window ⟨[2]⟩ thinningCalls = [] := by decide
  have htracked : (compact.transcript thinningCalls).tier.tracked = 3 := by decide +kernel
  have hquota : (compact.transcript thinningCalls).tier.quota? ⟨[1]⟩ =
      some ⟨1, 90, 1, 90, .reserved, false⟩ := by decide +kernel
  have hsenders : {peer | window peer thinningCalls ≠ []}.ncard = 1 := by
    rw [← length_active (.ofConfig .fast narrowConfig { sizeInBytes := 300 })]
    decide +kernel
  obtain ⟨-, hquotas, hbound⟩ := reset_spares_senders hmake thinningCalls
  refine ⟨hmake, by decide +kernel, hsent, hsilent, ?_, ?_, ?_⟩
  · have hkept := hquotas ⟨[1]⟩
    rw [if_neg (by rw [hsent]; exact fun h => List.cons_ne_nil _ _ h.2), hquota] at hkept
    exact hkept
  · have hdropped := hquotas ⟨[2]⟩
    rwa [if_pos ⟨by rw [htracked]; decide, hsilent⟩] at hdropped
  · rw [hsenders] at hbound
    exact hbound

end Tier

end Floodgate
