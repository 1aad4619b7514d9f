import Floodgate.Proofs.Tier.Budget
import Mathlib.Algebra.Order.Floor.Semifield
import Mathlib.Data.Rat.Floor

/-! # The arithmetic of budgets

A budget is a product of a base, a share in basis points and a factor in thousandths, computed in
naturals below `2 ^ 128` and stopped at the largest value of its counter. In the ranges of a valid
policy none of the products reaches that bound (`Policy.product_lt`), so a budget is the exact
product of rationals, rounded down, as far as its counter reaches (`Policy.budget_exact`). -/

namespace Floodgate

namespace Policy

variable {value share factor : ℕ}

/-- The factor of a budget in thousandths, plain or increased. -/
def multiplier (p : Policy) (increased : Bool) : ℕ := if increased then p.factor else plainFactor

theorem multiplier_le {p : Policy} (hp : p.Valid) (increased : Bool) :
    p.multiplier increased ≤ Config.maxFactor * plainFactor := by
  cases increased with
  | false => exact hp.plainFactor_le.trans hp.factor_le
  | true => exact hp.factor_le

/-- What a share and a factor leave of a value, before it is rounded down. -/
def portion (value share factor : ℕ) : ℚ := value * share * factor / 10 ^ 7

theorem floor_portion (value share factor : ℕ) :
    ⌊portion value share factor⌋₊ = value * share * factor / (wholeShare * plainFactor) := by
  have hunit : (10 ^ 7 : ℚ) = ((wholeShare * plainFactor : ℕ) : ℚ) := by
    norm_num [wholeShare, plainFactor]
  rw [portion, hunit, ← Nat.cast_mul, ← Nat.cast_mul, Nat.floor_div_eq_div]

/-- **No product of a budget reaches the bound** in the ranges of a valid policy. -/
theorem product_lt (hvalue : value ≤ sizeLimit) (hshare : share ≤ wholeShare)
    (hfactor : factor ≤ Config.maxFactor * plainFactor) :
    value * share < productBound ∧ value * share * factor < productBound := by
  have hpart : value * share ≤ sizeLimit * wholeShare := Nat.mul_le_mul hvalue hshare
  have hwhole : value * share * factor ≤
      sizeLimit * wholeShare * (Config.maxFactor * plainFactor) := Nat.mul_le_mul hpart hfactor
  exact ⟨hpart.trans_lt (by decide), hwhole.trans_lt (by decide)⟩

/-- **A scaled value is the exact product, rounded down**, as far as the counter reaches. -/
theorem scale_exact (hvalue : value ≤ sizeLimit) (hshare : share ≤ wholeShare)
    (hfactor : factor ≤ Config.maxFactor * plainFactor) :
    scale value share factor = min sizeLimit ⌊portion value share factor⌋₊ := by
  rw [scale, if_pos (product_lt hvalue hshare hfactor), floor_portion, min_comm]

/-- **The budget of a valid policy is exact.** The settings that pass the rules give a policy whose
share and factor lie in their ranges. In these ranges no product reaches `2 ^ 128`, and a budget is
what the share of the class and the factor leave of the base, rounded down and stopped at the
largest values of the counters. So the plain budget of a validator is the base, everyone else has no
more than a validator, the increase takes nothing away, and both limits are monotone in the base,
the share and the factor. -/
theorem budget_exact :
    (∀ speed cfg cache t, Tier.make? speed cfg cache = .ok t →
      t.policy.Valid ∧ t.policy.messages = cfg.input.messages.toNat ∧
        t.policy.totalSize = cfg.input.totalSize.toNat) ∧
    ∀ p : Policy, p.Valid →
      (∀ base ∈ [p.messages, p.totalSize], ∀ c increased,
        base * p.share c < productBound ∧
          base * p.share c * p.multiplier increased < productBound) ∧
      (∀ c increased, p.budget c increased =
        ⟨min countLimit ⌊portion p.messages (p.share c) (p.multiplier increased)⌋₊,
          min sizeLimit ⌊portion p.totalSize (p.share c) (p.multiplier increased)⌋₊⟩) ∧
      p.budget .reserved false = ⟨p.messages, p.totalSize⟩ ∧
      (∀ increased, p.budget .normal increased ≤ p.budget .reserved increased) ∧
      (∀ c, p.budget c false ≤ p.budget c true) ∧
      ∀ (p' : Policy) c c' increased increased', p.share c ≤ p'.share c' →
        p.multiplier increased ≤ p'.multiplier increased' →
        (p.messages ≤ p'.messages →
          (p.budget c increased).maxMessages ≤ (p'.budget c' increased').maxMessages) ∧
        (p.totalSize ≤ p'.totalSize →
          (p.budget c increased).maxSize ≤ (p'.budget c' increased').maxSize) := by
  constructor
  · intro speed cfg cache t ht
    obtain ⟨-, rfl⟩ := Tier.make?_eq_ok_iff.mp ht
    exact ⟨Tier.valid_of_make? ht, rfl, rfl⟩
  · intro p hp
    have hmessages : p.messages ≤ sizeLimit := hp.messages_le.trans countLimit_le_sizeLimit
    refine ⟨?_, ?_, budget_base hp, ?_, fun c => budget_plain_le_budget hp c true, ?_⟩
    · intro base hbase c increased
      have hle : base ≤ sizeLimit := by
        rcases List.mem_pair.mp hbase with rfl | rfl
        · exact hmessages
        · exact hp.totalSize_le
      exact product_lt hle (share_le hp c) (multiplier_le hp increased)
    · intro c increased
      have hcount := scale_exact hmessages (share_le hp c) (multiplier_le hp increased)
      have hsize := scale_exact hp.totalSize_le (share_le hp c) (multiplier_le hp increased)
      show Budget.mk (min (scale _ _ (p.multiplier increased)) countLimit)
        (scale _ _ (p.multiplier increased)) = _
      rw [hcount, hsize, min_right_comm, min_eq_right countLimit_le_sizeLimit]
    · exact fun increased => budget_mono le_rfl le_rfl hp.normalShare_le le_rfl
    · intro p' c c' increased increased' hshare hfactor
      exact ⟨fun h => min_le_min_right _ (scale_mono h hshare hfactor),
        fun h => scale_mono h hshare hfactor⟩

/-- The fast tier for production with the largest base, of which everyone else has seven
tenths and the increase makes a thousand times as much. -/
def vastConfig : TierConfig :=
  { Config.production.tiers.fast with
    reservedPercent := .ofNat 30
    input := ⟨0xffffffff, 0xffffffffffffffff, ⟨.ofNat 1, .ofNat 1000⟩⟩ }

/-- The policy of the largest base. -/
def vast : Policy := .ofConfig .fast vastConfig {}

/-- Seven tenths of the largest base are rounded down, and the increase stops at both bounds. -/
theorem vast_budget_stops :
    Tier.make? .fast vastConfig {} = .ok (.new vast) ∧ vast.Valid ∧
      vast.budget .reserved false = ⟨countLimit, sizeLimit⟩ ∧
      vast.budget .normal false =
        ⟨min countLimit ⌊portion countLimit 7000 1000⌋₊,
          min sizeLimit ⌊portion sizeLimit 7000 1000⌋₊⟩ ∧
      vast.budget .normal false = ⟨3006477106, 12912720851596686130⟩ ∧
      vast.budget .normal true = ⟨countLimit, sizeLimit⟩ := by
  have hmake : Tier.make? .fast vastConfig {} = .ok (.new vast) :=
    Tier.make?_eq_ok_iff.mpr ⟨by decide +kernel, rfl⟩
  obtain ⟨hconfig, hexact⟩ := budget_exact
  obtain ⟨hvalid, -, -⟩ := hconfig _ _ _ _ hmake
  obtain ⟨-, hbudget, hbase, -⟩ := hexact vast hvalid
  refine ⟨hmake, hvalid, hbase, ?_, by decide +kernel, by decide +kernel⟩
  have hshare : vast.share .normal = 7000 := by decide +kernel
  have hnormal := hbudget .normal false
  rw [hshare] at hnormal
  exact hnormal

end Policy

end Floodgate
