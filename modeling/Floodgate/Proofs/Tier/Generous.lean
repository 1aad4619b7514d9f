import Floodgate.Proofs.Tier.Reserve

/-! # More generous increases

Of two policies with the same plain budget let one have the more generous increase: it is earned by
no larger share, and worth no smaller multiple, or the other one has no increase at all
(`Policy.LessGenerous`). Peers of one class that send the same to both are treated alike up to the
first refusal of the less generous one: up to there all their messages are admitted, so what earns
the increase there earns it here (`LessGenerous.earned`), and each message is held against a budget
that is no smaller (`LessGenerous.budget_le`). Behind that refusal nothing is admitted there. So
everything that is admitted there is admitted here (`Tier.generous_increase_admits`). -/

namespace Floodgate

namespace Policy

variable {p p' : Policy} {c : PeerClass} {before : List Nat} {size : Nat}

/-- Another policy has the same plain budget, and its increase is earned no later and worth no
less. -/
structure LessGenerous (p p' : Policy) : Prop where
  messages : p.messages = p'.messages
  totalSize : p.totalSize = p'.totalSize
  normalShare : p.normalShare = p'.normalShare
  /-- What reaches the share that earns the increase reaches the share of the other policy. -/
  reaches : ∀ x, p.threshold = some x → ∃ x', p'.threshold = some x' ∧
    ∀ n max, max ≤ sizeLimit → reaches x n max = true → Policy.reaches x' n max = true
  factor : p.threshold.isSome = true → p.factor ≤ p'.factor

namespace LessGenerous

theorem share_eq (h : p.LessGenerous p') (c : PeerClass) : p.share c = p'.share c := by
  cases c with
  | reserved => rfl
  | normal => exact h.normalShare

theorem budget_plain (h : p.LessGenerous p') (c : PeerClass) :
    p.budget c false = p'.budget c false := by
  simp only [budget, h.messages, h.totalSize, h.share_eq, Bool.false_eq_true, if_false]

/-- **What earns the increase earns the more generous one.** -/
theorem earned (h : p.LessGenerous p') {q : Quota} (hq : p.earned c q = true) :
    p'.earned c q = true := by
  have hmessages : (p'.budget c false).maxMessages ≤ sizeLimit :=
    (Nat.min_le_right _ _).trans countLimit_le_sizeLimit
  have hsize : (p'.budget c false).maxSize ≤ sizeLimit := scale_le _ _ _
  cases hx : p.threshold with
  | none =>
    rw [Policy.earned, hx] at hq
    cases hq
  | some x =>
    obtain ⟨x', hx', hreach⟩ := h.reaches x hx
    simp only [Policy.earned, hx, hx', h.budget_plain, Bool.or_eq_true] at hq ⊢
    exact hq.imp (hreach _ _ hmessages) (hreach _ _ hsize)

/-- **The budget of the more generous policy is no smaller**, whatever has been admitted. -/
theorem budget_le (h : p.LessGenerous p') (hp' : p'.Valid) (c : PeerClass) (before : List Nat) :
    p.budget c (p.earnedBy c before) ≤ p'.budget c (p'.earnedBy c before) := by
  cases hearned : p.earnedBy c before with
  | false =>
    rw [h.budget_plain]
    exact budget_plain_le_budget hp' c _
  | true =>
    have hearned' : p'.earnedBy c before = true := h.earned hearned
    rw [hearned']
    exact budget_mono h.messages.le h.totalSize.le (h.share_eq c).le
      (h.factor (isSome_of_earnedBy hearned))

theorem allFit (h : p.LessGenerous p') (hp' : p'.Valid) {sizes : List Nat}
    (hfit : p.AllFit c sizes) : p'.AllFit c sizes :=
  fun j size hsize => (hfit j size hsize).of_le (h.budget_le hp' c _)

end LessGenerous

theorem factor_within_of_rules {speed : Speed} {c : TierConfig}
    (h : ∀ r ∈ c.rules speed, r.1 = true) :
    c.input.increase.factor.within (.ofNat 1) (.ofNat Config.maxFactor) = true := by
  simp only [TierConfig.rules, List.map_cons, List.map_nil, List.forall_mem_cons] at h
  obtain ⟨-, -, -, -, -, hfactor, -⟩ := h
  exact hfactor

/-- **Settings that lower the share or raise the multiplier of the increase**, or that turn the
increase on, describe a more generous policy. -/
theorem lessGenerous_ofConfig {speed : Speed} {cfg : TierConfig} (cache : CacheConfig)
    {increase : IncreaseConfig} (hrules : ∀ r ∈ cfg.rules speed, r.1 = true)
    (hrules' : ∀ r ∈ ({ cfg with input := { cfg.input with increase } } : TierConfig).rules speed,
      r.1 = true)
    (active : increase.isActive = true)
    (hmore : cfg.input.increase.isActive = false ∨
      Double.le increase.threshold cfg.input.increase.threshold = true ∧
        Double.le cfg.input.increase.factor increase.factor = true) :
    (ofConfig speed cfg cache).LessGenerous
      (ofConfig speed { cfg with input := { cfg.input with increase } } cache) := by
  -- without an increase there is nothing to compare
  have hboth : (ofConfig speed cfg cache).threshold.isSome = true →
      Double.le increase.threshold cfg.input.increase.threshold = true ∧
        Double.le cfg.input.increase.factor increase.factor = true := by
    rw [isSome_threshold_ofConfig]
    intro hon
    exact hmore.resolve_left (ne_false_of_eq_true hon)
  refine ⟨rfl, rfl, rfl, fun x hx => ?_, fun hon => ?_⟩
  · obtain ⟨hshare, -⟩ := hboth (by rw [hx]; rfl)
    have hsound := soundShare_ofConfig cache hrules x hx
    obtain rfl : cfg.input.increase.threshold = x := by
      simp only [ofConfig] at hx
      split_ifs at hx
      exact Option.some.inj hx
    have hpos : Double.lt .zero increase.threshold = true := by
      rw [IncreaseConfig.isActive, Bool.and_eq_true] at active
      exact active.1
    refine ⟨increase.threshold, if_pos active, fun n max hmax hr => ?_⟩
    have hle : max ≤ 2 ^ 64 := by
      unfold sizeLimit at hmax
      omega
    exact Double.mul_ofNat_le_of_le hpos hshare hsound hle hr
  · obtain ⟨-, hfactor⟩ := hboth hon
    exact factor_mono (factor_within_of_rules hrules) (factor_within_of_rules hrules') hfactor

end Policy

namespace Tier

/-- **A more generous increase never refuses more.** Let two tiers be built from settings that
differ in the increase only, the increase of the second one being active, and that of the first one
either not active or earned by no smaller share and worth no larger multiple. If a peer that keeps
its class has sent messages to the first tier since its last reset, and a peer of that class the
same messages to the second one, then each message that the first tier has admitted has been
admitted by the second. -/
theorem generous_increase_admits {speed : Speed} {cfg : TierConfig} {cache : CacheConfig}
    {increase : IncreaseConfig} {t t' : Tier} (ht : make? speed cfg cache = .ok t)
    (ht' : make? speed { cfg with input := { cfg.input with increase } } cache = .ok t')
    (active : increase.isActive = true)
    (hmore : cfg.input.increase.isActive = false ∨
      Double.le increase.threshold cfg.input.increase.threshold = true ∧
        Double.le cfg.input.increase.factor increase.factor = true)
    (calls calls' : List TierCall) (peer peer' : PeerId) (c : PeerClass) (sizes : List UInt64)
    (hpeer : window peer calls = sizes.map fun n => (c, n.toNat))
    (hpeer' : window peer' calls' = sizes.map fun n => (c, n.toNat)) (i : Nat)
    (hadmitted : (((t.transcript calls).own peer).map (·.admission))[i]? = some .admitted) :
    (((t'.transcript calls').own peer').map (·.admission))[i]? = some .admitted := by
  obtain ⟨hrules, rfl⟩ := make?_eq_ok_iff.mp ht
  obtain ⟨hrules', rfl⟩ := make?_eq_ok_iff.mp ht'
  have hrules := fun r hr => hrules r (List.mem_append_left _ hr)
  have hrules' := fun r hr => hrules' r (List.mem_append_left _ hr)
  have hless := Policy.lessGenerous_ofConfig cache hrules hrules' active hmore
  have hvalid := Policy.valid_ofConfig cache hrules'
  obtain ⟨hlt, hfit⟩ := (admitted_iff_allFit hpeer i).mp hadmitted
  exact (admitted_iff_allFit hpeer' i).mpr ⟨hlt, hless.allFit hvalid hfit⟩

/-- An increase that half of the budget earns and that doubles it. -/
def handsome : IncreaseConfig := { threshold := .ofDecimal false 5 (-1), factor := .ofNat 2 }

/-- The tier of the narrow budget with that increase. -/
def lavish : Tier :=
  new (.ofConfig .fast
    { narrowConfig with input := { narrowConfig.input with increase := handsome } } {})

/-- A peer fills three quarters of its budget and goes on. -/
def climbingCalls : List TierCall :=
  [.message .normal ⟨[1]⟩ 60, .message .normal ⟨[1]⟩ 15, .message .normal ⟨[1]⟩ 40,
    .message .normal ⟨[1]⟩ 10]

/-- The narrow tier admits three messages, and the one with the handsome increase these and one
more. -/
theorem climbingCalls_admitted :
    make? .fast narrowConfig {} = .ok narrow ∧
      make? .fast { narrowConfig with input := { narrowConfig.input with increase := handsome } }
        {} = .ok lavish ∧
      ((narrow.transcript climbingCalls).own ⟨[1]⟩).map (·.admission) =
        [.admitted, .admitted, .admitted, .rejected (.messages 4 3)] ∧
      (((lavish.transcript climbingCalls).own ⟨[1]⟩).map (·.admission))[2]? = some .admitted ∧
      (((lavish.transcript climbingCalls).own ⟨[1]⟩).map (·.admission))[3]? = some .admitted := by
  have hnarrow : ((narrow.transcript climbingCalls).own ⟨[1]⟩).map (·.admission) =
      [.admitted, .admitted, .admitted, .rejected (.messages 4 3)] := by decide +kernel
  have hlavish : make? .fast
      { narrowConfig with input := { narrowConfig.input with increase := handsome } } {} =
        .ok lavish := make?_eq_ok_iff.mpr ⟨by decide +kernel, rfl⟩
  refine ⟨make?_narrow, hlavish, hnarrow, ?_, by decide +kernel⟩
  exact generous_increase_admits make?_narrow hlavish (by decide +kernel)
    (.inr ⟨by decide +kernel, by decide +kernel⟩) climbingCalls climbingCalls ⟨[1]⟩ ⟨[1]⟩ .normal
    [60, 15, 40, 10] (by decide) (by decide) 2 (by rw [hnarrow]; rfl)

end Tier

end Floodgate
