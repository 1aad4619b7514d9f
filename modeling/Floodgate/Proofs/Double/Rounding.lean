import Floodgate.Double
import Mathlib.Data.Nat.Log
import Mathlib.Tactic.Linarith
import Mathlib.Tactic.Ring

/-! # Rounding keeps the order

A magnitude that results from rounding has `rounded n d` units (`units_round`), and there is one
exactly if its exponent is in range (`isSome_round_iff`). `rounded` is monotone in the quotient
(`rounded_mono`) and exact on what needs no more than 53 bits (`rounded_exact`), so a product or a
difference of doubles lies between the products or differences of bounds that are exact. -/

namespace Floodgate

namespace Magnitude

/-! ### The units of a rounded quotient -/

/-- The units of the magnitude nearest to `n / d`, if exponents had no bound. -/
def rounded (n d : Nat) : Nat :=
  roundQuotient n (d * 2 ^ exponentNear n d) * 2 ^ exponentNear n d

theorem roundQuotient_eq (n d : Nat) :
    roundQuotient n d =
      if 2 * (n % d) < d then n / d
      else if d < 2 * (n % d) then n / d + 1 else n / d + n / d % 2 := rfl

theorem roundQuotient_le (n d : Nat) : roundQuotient n d ≤ n / d + 1 := by
  rw [roundQuotient_eq]
  split_ifs <;> omega

theorem le_roundQuotient (n d : Nat) : n / d ≤ roundQuotient n d := by
  rw [roundQuotient_eq]
  split_ifs <;> omega

theorem roundQuotient_mul (q : Nat) {d : Nat} (hd : 0 < d) : roundQuotient (q * d) d = q := by
  rw [roundQuotient_eq, Nat.mul_mod_left, Nat.mul_div_cancel _ hd, if_pos (by omega)]

theorem roundQuotient_mono {n n' : Nat} (d : Nat) (h : n ≤ n') :
    roundQuotient n d ≤ roundQuotient n' d := by
  have hq : n / d ≤ n' / d := Nat.div_le_div_right h
  rcases Nat.lt_or_eq_of_le hq with hlt | heq
  · have h1 := roundQuotient_le n d
    have h2 := le_roundQuotient n' d
    omega
  · -- of two numbers with one quotient the larger one has the larger remainder
    have hr : n % d ≤ n' % d := by
      have h1 := Nat.div_add_mod n d
      have h2 := Nat.div_add_mod n' d
      rw [heq] at h1
      omega
    rw [roundQuotient_eq, roundQuotient_eq, heq]
    split_ifs <;> omega

theorem div_scale_lt (n d : Nat) : n / (d * 2 ^ exponentNear n d) < 2 ^ 53 := by
  rw [← Nat.div_div_eq_div_mul, Nat.div_lt_iff_lt_mul (Nat.two_pow_pos _), ← Nat.pow_add]
  refine lt_of_lt_of_le Nat.lt_log2_self (Nat.pow_le_pow_right (by norm_num) ?_)
  unfold exponentNear
  omega

/-- Above the least exponent the significand before rounding has 53 bits. -/
theorem le_div_scale {n d : Nat} (he : 0 < exponentNear n d) :
    2 ^ 52 ≤ n / (d * 2 ^ exponentNear n d) := by
  have hlog : (n / d).log2 = exponentNear n d + 52 := by
    unfold exponentNear at he ⊢
    omega
  have hne : n / d ≠ 0 := by
    intro h0
    rw [h0] at hlog
    simp at hlog
  rw [← Nat.div_div_eq_div_mul, Nat.le_div_iff_mul_le (Nat.two_pow_pos _), ← Nat.pow_add]
  have := Nat.log2_self_le hne
  rw [hlog] at this
  simpa [Nat.add_comm] using this

theorem significand_le (n d : Nat) : roundQuotient n (d * 2 ^ exponentNear n d) ≤ 2 ^ 53 := by
  have h1 := roundQuotient_le n (d * 2 ^ exponentNear n d)
  have h2 := div_scale_lt n d
  omega

theorem le_significand {n d : Nat} (he : 0 < exponentNear n d) :
    2 ^ 52 ≤ roundQuotient n (d * 2 ^ exponentNear n d) :=
  (le_div_scale he).trans (le_roundQuotient _ _)

theorem exponentNear_mono {n n' : Nat} (d : Nat) (h : n ≤ n') :
    exponentNear n d ≤ exponentNear n' d := by
  have hq : n / d ≤ n' / d := Nat.div_le_div_right h
  have hlog : (n / d).log2 ≤ (n' / d).log2 := by
    rw [Nat.log2_eq_log_two, Nat.log2_eq_log_two]
    exact Nat.log_mono_right hq
  unfold exponentNear
  omega

/-- **Rounding keeps the order.** -/
theorem rounded_mono {n n' : Nat} (d : Nat) (h : n ≤ n') : rounded n d ≤ rounded n' d := by
  rcases Nat.lt_or_eq_of_le (exponentNear_mono d h) with hlt | heq
  · -- the smaller quotient rounds to at most `2 ^ 53` of its steps, the larger one to at least
    -- `2 ^ 52` of its own, which are at least twice as wide
    have hpos : 0 < exponentNear n' d := by omega
    calc rounded n d ≤ 2 ^ 53 * 2 ^ exponentNear n d := Nat.mul_le_mul_right _ (significand_le n d)
      _ = 2 ^ 52 * 2 ^ (exponentNear n d + 1) := by rw [Nat.pow_succ]; ring
      _ ≤ 2 ^ 52 * 2 ^ exponentNear n' d :=
          Nat.mul_le_mul_left _ (Nat.pow_le_pow_right (by norm_num) hlt)
      _ ≤ rounded n' d := Nat.mul_le_mul_right _ (le_significand hpos)
  · unfold rounded
    rw [heq]
    exact Nat.mul_le_mul_right _ (roundQuotient_mono _ h)

/-- A quotient that needs no more than 53 bits is not changed. -/
theorem rounded_exact {q d : Nat} (hd : 0 < d) (h : 2 ^ (q.log2 - 52) ∣ q) :
    rounded (q * d) d = q := by
  have he : exponentNear (q * d) d = q.log2 - 52 := by
    unfold exponentNear
    rw [Nat.mul_div_cancel _ hd]
  obtain ⟨s, hs⟩ := h
  have hs' : q * d = s * (d * 2 ^ (q.log2 - 52)) := by
    conv_lhs => rw [hs]
    ring
  unfold rounded
  rw [he]
  conv_lhs => rw [hs', roundQuotient_mul s (by positivity)]
  rw [Nat.mul_comm]
  exact hs.symm

/-! ### The magnitude of a rounded quotient -/

theorem units_of?_eq {s e : Nat} {m : Magnitude} (h : of? s e = some m) : m.units = s * 2 ^ e := by
  unfold of? at h
  split_ifs at h with hc
  simp only [Option.some.injEq] at h
  rw [← h, units]

theorem units_round {n d : Nat} {m : Magnitude} (h : round n d = some m) :
    m.units = rounded n d := by
  unfold round at h
  simp only at h
  split_ifs at h with hs
  · exact units_of?_eq h
  · have hle := significand_le n d
    have hs' : roundQuotient n (d * 2 ^ exponentNear n d) = 2 ^ 53 := by omega
    rw [units_of?_eq h, rounded, hs', Nat.pow_succ 2 (exponentNear n d)]
    ring

theorem isSome_of?_iff {s e : Nat} :
    (of? s e).isSome = true ↔ s < 2 ^ 53 ∧ e ≤ 2045 ∧ (e = 0 ∨ 2 ^ 52 ≤ s) := by
  unfold of?
  split_ifs with hc
  · exact ⟨fun _ => hc, fun _ => rfl⟩
  · exact ⟨fun h => absurd h Bool.false_ne_true, fun h => absurd h hc⟩

theorem isSome_round_iff {n d : Nat} :
    (round n d).isSome = true ↔
      exponentNear n d + (if roundQuotient n (d * 2 ^ exponentNear n d) < 2 ^ 53 then 0 else 1) ≤
        2045 := by
  unfold round
  simp only
  split_ifs with hs
  · rw [isSome_of?_iff]
    constructor
    · exact fun h => h.2.1
    · intro h
      refine ⟨hs, h, ?_⟩
      rcases Nat.eq_zero_or_pos (exponentNear n d) with he | he
      · exact Or.inl he
      · exact Or.inr (le_significand he)
  · rw [isSome_of?_iff]
    constructor
    · exact fun h => h.2.1
    · exact fun h => ⟨by norm_num, h, Or.inr le_rfl⟩

theorem exists_round_of_le {n n' d : Nat} {m' : Magnitude} (h : n ≤ n')
    (hm : round n' d = some m') : ∃ m, round n d = some m ∧ m.units ≤ m'.units := by
  have hin : (round n' d).isSome = true := by rw [hm]; rfl
  have hsome : (round n d).isSome = true := by
    rw [isSome_round_iff] at hin ⊢
    rcases Nat.lt_or_eq_of_le (exponentNear_mono d h) with hlt | heq
    · split_ifs at hin ⊢ <;> omega
    · have hq := roundQuotient_mono (d * 2 ^ exponentNear n' d) h
      rw [heq]
      split_ifs at hin ⊢ <;> omega
  obtain ⟨m, hm'⟩ := Option.isSome_iff_exists.mp hsome
  refine ⟨m, hm', ?_⟩
  rw [units_round hm', units_round hm]
  exact rounded_mono d h

theorem unitsInOne_pos : 0 < unitsInOne := by
  unfold unitsInOne
  exact Nat.two_pow_pos 1074

/-- A significand below `2 ^ 53` fits wherever its unit lies. -/
theorem log2_mul_pow_le {k : Nat} (hk : k < 2 ^ 53) (e : Nat) : (k * 2 ^ e).log2 - 52 ≤ e := by
  rcases Nat.eq_zero_or_pos k with rfl | hpos
  · simp
  · have hne : k * 2 ^ e ≠ 0 := by positivity
    have hlt : k * 2 ^ e < 2 ^ (53 + e) := by
      rw [Nat.pow_add]
      exact Nat.mul_lt_mul_of_pos_right hk (Nat.two_pow_pos _)
    have := (Nat.log2_lt hne).mpr hlt
    omega

theorem pow_dvd_mul_pow {k : Nat} (hk : k < 2 ^ 53) (e : Nat) :
    2 ^ ((k * 2 ^ e).log2 - 52) ∣ k * 2 ^ e :=
  (Nat.pow_dvd_pow 2 (log2_mul_pow_le hk e)).trans (Nat.dvd_mul_left _ _)

theorem exists_round_ones {k d : Nat} (hd : 0 < d) (hk : k < 2 ^ 53) :
    ∃ m, round (k * unitsInOne * d) d = some m ∧ m.units = k * unitsInOne := by
  have hlog : (k * unitsInOne).log2 - 52 ≤ 1074 := by
    unfold unitsInOne
    apply log2_mul_pow_le hk
  have hdvd : 2 ^ ((k * unitsInOne).log2 - 52) ∣ k * unitsInOne := by
    unfold unitsInOne
    apply pow_dvd_mul_pow hk
  have hin : (round (k * unitsInOne * d) d).isSome = true := by
    rw [isSome_round_iff]
    have he : exponentNear (k * unitsInOne * d) d ≤ 1074 := by
      unfold exponentNear
      rw [Nat.mul_div_cancel _ hd]
      exact hlog
    split_ifs <;> omega
  obtain ⟨m, hm⟩ := Option.isSome_iff_exists.mp hin
  exact ⟨m, hm, by rw [units_round hm, rounded_exact hd hdvd]⟩

end Magnitude

namespace Double

open Magnitude

/-! ### Order -/

theorem finite_of_within {x : Double} {s t : Bool} {a b : Magnitude}
    (h : x.within (.finite s a) (.finite t b) = true) :
    ∃ r m, x = .finite r m ∧ signedUnits s a ≤ signedUnits r m ∧
      signedUnits r m ≤ signedUnits t b := by
  simp only [within, Bool.and_eq_true] at h
  rcases x with _ | r | ⟨r, m⟩
  · simp [le] at h
  · cases r <;> simp [le] at h
  · simp only [le, decide_eq_true_eq] at h
    exact ⟨r, m, rfl, h.1, h.2⟩

theorem signedUnits_pos {r : Bool} {m : Magnitude} (h : 0 < signedUnits r m) : r = false := by
  cases r with
  | false => rfl
  | true => simp only [signedUnits, if_true] at h; omega

/-! ### Small natural numbers -/

theorem ofNat_eq {k : Nat} (hk : k < 2 ^ 53) :
    ∃ m, ofNat k = .finite false m ∧ m.units = k * unitsInOne := by
  obtain ⟨m, hm, hu⟩ := exists_round_ones Nat.one_pos hk
  rw [Nat.mul_one] at hm
  exact ⟨m, by rw [ofNat, ofFraction, hm, signed], hu⟩

theorem magnitude_of_within {x : Double} {k : Nat} (hk : k < 2 ^ 53)
    (h : x.within (.ofNat 1) (.ofNat k) = true) :
    ∃ m, x = .finite false m ∧ 1 * unitsInOne ≤ m.units ∧ m.units ≤ k * unitsInOne := by
  obtain ⟨a, ha, hau⟩ := ofNat_eq (k := 1) (by norm_num)
  obtain ⟨b, hb, hbu⟩ := ofNat_eq hk
  rw [ha, hb] at h
  obtain ⟨r, m, rfl, hlow, hhigh⟩ := finite_of_within h
  have hone := unitsInOne_pos
  have hlow' : ((1 * unitsInOne : Nat) : Int) ≤ signedUnits r m := hau ▸ hlow
  obtain rfl : r = false := signedUnits_pos (lt_of_lt_of_le (by omega) hlow')
  have hm : signedUnits false m = (m.units : Int) := rfl
  have hbound : signedUnits false b = (b.units : Int) := rfl
  exact ⟨m, rfl, by omega, by omega⟩

/-! ### Products and differences between bounds -/

theorem mul_le {a b : Magnitude} {j k n : Nat} (ha : a.units ≤ j * unitsInOne)
    (hb : b.units ≤ k * unitsInOne) (hn : j * k = n) (hlt : n < 2 ^ 53) :
    ∃ m, (finite false a).mul (finite false b) = .finite false m ∧ m.units ≤ n * unitsInOne := by
  obtain ⟨m', hm', hu⟩ := exists_round_ones unitsInOne_pos hlt
  have hle : a.units * b.units ≤ n * unitsInOne * unitsInOne := by
    calc a.units * b.units ≤ (j * unitsInOne) * (k * unitsInOne) := Nat.mul_le_mul ha hb
      _ = n * unitsInOne * unitsInOne := by rw [← hn]; ring
  obtain ⟨m, hm, hmu⟩ := exists_round_of_le hle hm'
  exact ⟨m, by simp only [mul, hm, signed, Bool.xor_false], hu ▸ hmu⟩

theorem le_mul {a b m : Magnitude} {j k n : Nat} (ha : j * unitsInOne ≤ a.units)
    (hb : k * unitsInOne ≤ b.units) (hn : j * k = n) (hlt : n < 2 ^ 53)
    (hm : (finite false a).mul (finite false b) = .finite false m) :
    n * unitsInOne ≤ m.units := by
  obtain ⟨m', hm', hu⟩ := exists_round_ones unitsInOne_pos hlt
  have hle : n * unitsInOne * unitsInOne ≤ a.units * b.units := by
    calc n * unitsInOne * unitsInOne = (j * unitsInOne) * (k * unitsInOne) := by rw [← hn]; ring
      _ ≤ a.units * b.units := Nat.mul_le_mul ha hb
  rcases hr : round (a.units * b.units) unitsInOne with _ | m₁
  · simp [mul, hr, signed] at hm
  · obtain ⟨m₂, hm₂, hmu⟩ := exists_round_of_le hle hr
    simp only [mul, hr, signed, Bool.xor_false, finite.injEq, true_and] at hm
    rw [hm', Option.some.injEq] at hm₂
    rw [← hu, ← hm, hm₂]
    exact hmu

/-- **A smaller magnitude gives no larger product.** -/
theorem mul_mono {a a' b m : Magnitude} (h : a'.units ≤ a.units)
    (hm : (finite false a).mul (finite false b) = .finite false m) :
    ∃ m', (finite false a').mul (finite false b) = .finite false m' ∧ m'.units ≤ m.units := by
  rcases hr : round (a.units * b.units) unitsInOne with _ | m₁
  · simp [mul, hr, signed] at hm
  · obtain ⟨m', hm', hle⟩ := exists_round_of_le (Nat.mul_le_mul_right b.units h) hr
    simp only [mul, hr, signed, Bool.xor_false, finite.injEq, true_and] at hm
    exact ⟨m', by simp only [mul, hm', signed, Bool.xor_false], hm ▸ hle⟩

/-- What remains of `k` after a number between zero and `k` is between zero and `k`. -/
theorem sub_le {a b : Magnitude} {r : Bool} {k : Nat} (hb : b.units = k * unitsInOne)
    (hk : k < 2 ^ 53) (h0 : 0 ≤ signedUnits r a) (hle : signedUnits r a ≤ signedUnits false b) :
    ∃ m, (finite false b).sub (finite r a) = .finite false m ∧ m.units ≤ k * unitsInOne := by
  obtain ⟨m', hm', hu⟩ := exists_round_ones Nat.one_pos hk
  rw [Nat.mul_one] at hm'
  have hd : (signedUnits false b - signedUnits r a).natAbs ≤ k * unitsInOne := by
    have : signedUnits false b = (b.units : Int) := rfl
    omega
  obtain ⟨m, hm, hmu⟩ := exists_round_of_le hd hm'
  have hs : (if signedUnits false b - signedUnits r a = 0 then false && !r
      else decide (signedUnits false b - signedUnits r a < 0)) = false := by
    split_ifs
    · rfl
    · exact decide_eq_false (by omega)
  exact ⟨m, by simp only [sub, hs, hm, signed], hu ▸ hmu⟩

/-! ### Rounding to natural numbers -/

theorem toNat_mono {a b : Magnitude} (limit : Nat) (h : a.units ≤ b.units) :
    (finite false a).toNat limit ≤ (finite false b).toNat limit := by
  have hdiv : (2 * a.units + unitsInOne) / (2 * unitsInOne) ≤
      (2 * b.units + unitsInOne) / (2 * unitsInOne) := Nat.div_le_div_right (by omega)
  simp only [toNat, Bool.false_eq_true, if_false]
  omega

theorem toNat_le {m : Magnitude} {k : Nat} (limit : Nat) (h : m.units ≤ k * unitsInOne) :
    (finite false m).toNat limit ≤ k := by
  have hone := unitsInOne_pos
  have hdiv : (2 * m.units + unitsInOne) / (2 * unitsInOne) < k + 1 := by
    rw [Nat.div_lt_iff_lt_mul (by omega)]
    calc 2 * m.units + unitsInOne ≤ 2 * (k * unitsInOne) + unitsInOne := by omega
      _ < (k + 1) * (2 * unitsInOne) := by nlinarith
  simp only [toNat, Bool.false_eq_true, if_false]
  omega

theorem le_toNat {m : Magnitude} {k limit : Nat} (hk : k ≤ limit)
    (h : k * unitsInOne ≤ m.units) : k ≤ (finite false m).toNat limit := by
  have hone := unitsInOne_pos
  have hdiv : k ≤ (2 * m.units + unitsInOne) / (2 * unitsInOne) := by
    rw [Nat.le_div_iff_mul_le (by omega)]
    calc k * (2 * unitsInOne) = 2 * (k * unitsInOne) := by ring
      _ ≤ 2 * m.units + unitsInOne := by omega
  simp only [toNat, Bool.false_eq_true, if_false]
  omega

end Double

end Floodgate
