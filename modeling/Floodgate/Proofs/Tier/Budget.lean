import Floodgate.Tier
import Floodgate.Proofs.Double.Rounding

/-! # Budgets of valid policies

The settings that pass the rules give a policy whose shares and factors lie in their ranges
(`Tier.valid_of_make?`). Budgets are monotone in the value, the share and the factor
(`Policy.scale_mono`), so in a valid policy every budget lies below the increased budget of a
validator (`Policy.budget_le_increased`) and every plain one below the configured base
(`Policy.budget_plain_le`, `Policy.budget_base`). -/

namespace Floodgate

namespace Policy

/-- The ranges in which the numbers of a checked policy lie. -/
structure Valid (p : Policy) : Prop where
  messages_pos : 0 < p.messages
  messages_le : p.messages ≤ countLimit
  totalSize_pos : 0 < p.totalSize
  totalSize_le : p.totalSize ≤ sizeLimit
  normalShare_le : p.normalShare ≤ wholeShare
  plainFactor_le : plainFactor ≤ p.factor
  factor_le : p.factor ≤ Config.maxFactor * plainFactor

/-! ### Settings that pass the rules -/

theorem normalShare_le_of_within {x : Double}
    (h : x.within .zero (.ofNat 100) = true) :
    (((Double.ofNat 100).sub x).mul (.ofNat 100)).toNat sizeLimit ≤ wholeShare := by
  obtain ⟨b, hb, hu⟩ := Double.ofNat_eq (k := 100) (by norm_num)
  rw [hb, Double.zero] at h
  obtain ⟨r, m, rfl, h0, hle⟩ := Double.finite_of_within h
  have h0' : 0 ≤ Double.signedUnits r m := by
    simpa [Double.signedUnits, Magnitude.units, Magnitude.zero] using h0
  obtain ⟨d, hd, hdu⟩ := Double.sub_le hu (by norm_num) h0' hle
  obtain ⟨e, he, heu⟩ := Double.mul_le (n := wholeShare) hdu hu.le rfl (by norm_num [wholeShare])
  rw [hb, hd, he]
  exact Double.toNat_le sizeLimit heu

theorem factor_of_within {x : Double}
    (h : x.within (.ofNat 1) (.ofNat Config.maxFactor) = true) :
    plainFactor ≤ (x.mul (.ofNat 1000)).toNat (productBound - 1) ∧
      (x.mul (.ofNat 1000)).toNat (productBound - 1) ≤ Config.maxFactor * plainFactor := by
  obtain ⟨m, rfl, hge, hle⟩ := Double.magnitude_of_within (by norm_num [Config.maxFactor]) h
  obtain ⟨t, ht, htu⟩ := Double.ofNat_eq (k := 1000) (by norm_num)
  obtain ⟨e, he, heu⟩ := Double.mul_le (n := Config.maxFactor * plainFactor) hle htu.le rfl
    (by norm_num [Config.maxFactor, plainFactor])
  have hlow : plainFactor * Magnitude.unitsInOne ≤ e.units :=
    Double.le_mul hge htu.ge rfl (by norm_num [plainFactor]) he
  rw [ht, he]
  exact ⟨Double.le_toNat (by norm_num [plainFactor, productBound]) hlow, Double.toNat_le _ heu⟩

theorem factor_mono {x y : Double} (hx : x.within (.ofNat 1) (.ofNat Config.maxFactor) = true)
    (hy : y.within (.ofNat 1) (.ofNat Config.maxFactor) = true) (h : Double.le x y = true) :
    (x.mul (.ofNat 1000)).toNat (productBound - 1) ≤
      (y.mul (.ofNat 1000)).toNat (productBound - 1) := by
  obtain ⟨a, rfl, -, -⟩ := Double.magnitude_of_within (by norm_num [Config.maxFactor]) hx
  obtain ⟨b, rfl, -, hb⟩ := Double.magnitude_of_within (by norm_num [Config.maxFactor]) hy
  obtain ⟨t, ht, htu⟩ := Double.ofNat_eq (k := 1000) (by norm_num)
  simp only [Double.le, decide_eq_true_eq] at h
  obtain ⟨e, he, -⟩ := Double.mul_le (n := Config.maxFactor * plainFactor) hb htu.le rfl
    (by norm_num [Config.maxFactor, plainFactor])
  obtain ⟨d, hd, hle⟩ := Double.mul_mono (Int.ofNat_le.mp h) he
  rw [ht, hd, he]
  exact Double.toNat_mono _ hle

/-- **The settings that pass the rules describe a valid policy.** -/
theorem valid_ofConfig {speed : Speed} {c : TierConfig} (cache : CacheConfig)
    (h : ∀ r ∈ c.rules speed, r.1 = true) : (ofConfig speed c cache).Valid := by
  simp only [TierConfig.rules, List.map_cons, List.map_nil, List.forall_mem_cons, bne_iff_ne] at h
  obtain ⟨-, hpercent, hmessages, hsize, -, hfactor, -⟩ := h
  have hshare := normalShare_le_of_within hpercent
  have hf := factor_of_within hfactor
  unfold ofConfig
  exact
    { messages_pos := Nat.pos_of_ne_zero fun h0 => hmessages (UInt32.toNat_inj.mp h0)
      messages_le := Nat.le_sub_one_of_lt c.input.messages.toNat_lt
      totalSize_pos := Nat.pos_of_ne_zero fun h0 => hsize (UInt64.toNat_inj.mp h0)
      totalSize_le := Nat.le_sub_one_of_lt c.input.totalSize.toNat_lt
      normalShare_le := by dsimp only; exact hshare
      plainFactor_le := hf.1
      factor_le := hf.2 }

/-! ### Budgets -/

theorem scale_le (value share factor : Nat) : scale value share factor ≤ sizeLimit := by
  unfold scale
  split_ifs <;> omega

theorem scale_mono {v v' s s' f f' : Nat} (hv : v ≤ v') (hs : s ≤ s') (hf : f ≤ f') :
    scale v s f ≤ scale v' s' f' := by
  have hvs : v * s ≤ v' * s' := Nat.mul_le_mul hv hs
  have hvsf : v * s * f ≤ v' * s' * f' := Nat.mul_le_mul hvs hf
  by_cases h : v' * s' < productBound ∧ v' * s' * f' < productBound
  · have hdiv := Nat.div_le_div_right (c := wholeShare * plainFactor) hvsf
    unfold scale
    rw [if_pos h, if_pos ⟨by omega, by omega⟩]
    omega
  · calc scale v s f ≤ sizeLimit := scale_le v s f
      _ = scale v' s' f' := by rw [scale, if_neg h]

theorem scale_whole {value : Nat} (h : value ≤ sizeLimit) :
    scale value wholeShare plainFactor = value := by
  have hbound : value * wholeShare < productBound ∧
      value * wholeShare * plainFactor < productBound := by
    unfold sizeLimit at h
    unfold wholeShare plainFactor productBound
    omega
  rw [scale, if_pos hbound, Nat.mul_assoc, Nat.mul_div_cancel _ (by decide)]
  exact Nat.min_eq_left h

theorem share_le {p : Policy} (hp : p.Valid) (c : PeerClass) : p.share c ≤ wholeShare := by
  cases c with
  | reserved => exact le_rfl
  | normal => exact hp.normalShare_le

end Policy

/-- One budget allows no more than another. -/
instance : LE Budget := ⟨fun a b => a.maxMessages ≤ b.maxMessages ∧ a.maxSize ≤ b.maxSize⟩

namespace Policy

/-- **A larger base, share or factor gives no smaller budget.** -/
theorem budget_mono {p p' : Policy} {c d : PeerClass} {i j : Bool}
    (hmessages : p.messages ≤ p'.messages) (hsize : p.totalSize ≤ p'.totalSize)
    (hshare : p.share c ≤ p'.share d)
    (hfactor : (if i then p.factor else plainFactor) ≤ if j then p'.factor else plainFactor) :
    p.budget c i ≤ p'.budget d j :=
  ⟨min_le_min_right _ (scale_mono hmessages hshare hfactor), scale_mono hsize hshare hfactor⟩

theorem budget_le_increased {p : Policy} (hp : p.Valid) (c : PeerClass) (increased : Bool) :
    p.budget c increased ≤ p.budget .reserved true := by
  refine budget_mono le_rfl le_rfl (share_le hp c) ?_
  cases increased with
  | false => exact hp.plainFactor_le
  | true => exact le_rfl

theorem budget_plain_le {p : Policy} (hp : p.Valid) (c : PeerClass) :
    p.budget c false ≤ p.budget .reserved false :=
  budget_mono le_rfl le_rfl (share_le hp c) le_rfl

/-- **The increase takes nothing away.** -/
theorem budget_plain_le_budget {p : Policy} (hp : p.Valid) (c : PeerClass) (increased : Bool) :
    p.budget c false ≤ p.budget c increased := by
  refine budget_mono le_rfl le_rfl le_rfl ?_
  cases increased with
  | false => exact le_rfl
  | true => exact hp.plainFactor_le

theorem budget_base {p : Policy} (hp : p.Valid) :
    p.budget .reserved false = ⟨p.messages, p.totalSize⟩ := by
  have hm := scale_whole (hp.messages_le.trans countLimit_le_sizeLimit)
  have hs := scale_whole hp.totalSize_le
  simp only [budget, share, Bool.false_eq_true, if_false, hm, hs, Nat.min_eq_left hp.messages_le]

end Policy

namespace Tier

theorem make?_eq_ok_iff {speed : Speed} {c : TierConfig} {cache : CacheConfig} {t : Tier} :
    make? speed c cache = .ok t ↔
      (∀ r ∈ c.rules speed ++ cache.rules, r.1 = true) ∧ t = new (.ofConfig speed c cache) := by
  rw [← Rule.check_eq_ok_iff, make?]
  cases hcheck : Rule.check (c.rules speed ++ cache.rules) with
  | error f => simp
  | ok u => simp [eq_comm]

/-- The fast tier for production with a budget of three messages and a hundred bytes. -/
def narrowConfig : TierConfig :=
  { Config.production.tiers.fast with
    input := { Config.production.tiers.fast.input with messages := 3, totalSize := 100 } }

/-- The tier of the narrow budget that has seen nobody. -/
def narrow : Tier := new (.ofConfig .fast narrowConfig {})

theorem make?_narrow : make? .fast narrowConfig {} = .ok narrow :=
  make?_eq_ok_iff.mpr ⟨by decide +kernel, rfl⟩

theorem valid_of_make? {speed : Speed} {c : TierConfig} {cache : CacheConfig} {t : Tier}
    (h : make? speed c cache = .ok t) : t.policy.Valid := by
  obtain ⟨hrules, rfl⟩ := make?_eq_ok_iff.mp h
  exact Policy.valid_ofConfig cache fun r hr => hrules r (List.mem_append_left _ hr)

end Tier

end Floodgate
