import Floodgate.Proofs.Double.Rounding

/-! # Shares of natural numbers

Whether a number reaches a share of another is decided in doubles: the larger number is rounded and
multiplied by the share, the smaller one is rounded, and the two are compared. A larger number
reaches what a smaller one reaches (`le_ofNat_mono`), and every number reaches each share of
itself between zero and one (`mul_ofNat_le`). -/

namespace Floodgate

namespace Magnitude

theorem isSome_round_of_lt {n d k : Nat} (hk : k ≤ 2096) (h : n / d < 2 ^ k) :
    (round n d).isSome = true := by
  have hlog : (n / d).log2 ≤ k := by
    rcases Nat.eq_zero_or_pos (n / d) with h0 | hpos
    · rw [h0, Nat.log2_zero]
      exact Nat.zero_le k
    · exact ((Nat.log2_lt hpos.ne').mpr h).le
  rw [isSome_round_iff]
  unfold exponentNear
  split_ifs <;> omega

theorem exists_unitsInOne_eq : ∃ e ≤ 1074, unitsInOne = 2 ^ e := by
  refine ⟨1074, le_rfl, ?_⟩
  unfold unitsInOne
  generalize 1074 = e
  rfl

end Magnitude

namespace Double

open Magnitude

theorem le_ofNat_mono {y : Double} {n n' : Nat} (h : n ≤ n') (hy : le y (ofNat n) = true) :
    le y (ofNat n') = true := by
  rcases hr' : round (n' * unitsInOne) 1 with _ | m'
  · rw [ofNat, ofFraction, hr', signed]
    rcases y with _ | r | ⟨r, a⟩
    · cases hy
    · cases r <;> rfl
    · rfl
  · obtain ⟨m, hr, hle⟩ := exists_round_of_le (Nat.mul_le_mul_right unitsInOne h) hr'
    rw [ofNat, ofFraction, hr, signed] at hy
    rw [ofNat, ofFraction, hr', signed]
    rcases y with _ | r | ⟨r, a⟩
    · cases hy
    · cases r
      · cases hy
      · rfl
    · simp only [le, signedUnits, Bool.false_eq_true, if_false, decide_eq_true_eq] at hy ⊢
      omega

/-- What a counter can hold is a finite double, of no more units than a power of two in range. -/
theorem exists_ofNat {n : Nat} (hn : n ≤ 2 ^ 64) :
    ∃ m k, ofNat n = .finite false m ∧ m.units < 2 ^ k ∧ k ≤ 1139 := by
  obtain ⟨e, he, hu⟩ := exists_unitsInOne_eq
  have hle : n * unitsInOne ≤ 1 * 2 ^ (64 + e) := by
    rw [hu, Nat.one_mul, Nat.pow_add]
    exact Nat.mul_le_mul_right _ hn
  have hlt : 1 * 2 ^ (64 + e) < 2 ^ (65 + e) := by
    rw [Nat.one_mul]
    exact Nat.pow_lt_pow_right (by norm_num) (by omega)
  have hsome : (round (n * unitsInOne) 1).isSome = true := by
    refine isSome_round_of_lt (k := 65 + e) (by omega) ?_
    rw [Nat.div_one]
    exact hle.trans_lt hlt
  obtain ⟨m, hm⟩ := Option.isSome_iff_exists.mp hsome
  have hexact := rounded_exact Nat.one_pos (pow_dvd_mul_pow (k := 1) (by norm_num) (64 + e))
  rw [Nat.mul_one] at hexact
  refine ⟨m, 65 + e, by rw [ofNat, ofFraction, hm, signed], ?_, by omega⟩
  calc m.units = rounded (n * unitsInOne) 1 := units_round hm
    _ ≤ rounded (1 * 2 ^ (64 + e)) 1 := rounded_mono 1 hle
    _ = 1 * 2 ^ (64 + e) := hexact
    _ < 2 ^ (65 + e) := hlt

/-- **A share between zero and one of a number does not exceed the number.** -/
theorem mul_ofNat_le {x : Double} {n : Nat} (hx : x.within .zero (.ofNat 1) = true)
    (hn : n ≤ 2 ^ 64) : le (x.mul (ofNat n)) (ofNat n) = true := by
  obtain ⟨one, hone, hunits⟩ := ofNat_eq (k := 1) (by norm_num)
  rw [hone, zero] at hx
  obtain ⟨r, a, rfl, hlow, hhigh⟩ := finite_of_within hx
  obtain ⟨b, k, hb, hbound, hk⟩ := exists_ofNat hn
  have ha : a.units ≤ unitsInOne := by
    have h0 : Magnitude.zero.units = 0 := rfl
    simp only [signedUnits, Bool.false_eq_true, if_false] at hlow hhigh
    split_ifs at hlow hhigh <;> omega
  have hprod : a.units * b.units ≤ b.units * unitsInOne := by
    rw [Nat.mul_comm b.units]
    exact Nat.mul_le_mul_right _ ha
  have hlt : a.units * b.units / unitsInOne < 2 ^ k := by
    calc a.units * b.units / unitsInOne ≤ b.units * unitsInOne / unitsInOne :=
          Nat.div_le_div_right hprod
      _ = b.units := Nat.mul_div_cancel _ unitsInOne_pos
      _ < 2 ^ k := hbound
  obtain ⟨m, hm⟩ := Option.isSome_iff_exists.mp (isSome_round_of_lt (by omega) hlt)
  have hle : m.units ≤ b.units := by
    calc m.units = rounded (a.units * b.units) unitsInOne := units_round hm
      _ ≤ rounded (b.units * unitsInOne) unitsInOne := rounded_mono _ hprod
      _ = b.units := rounded_exact unitsInOne_pos (pow_dvd_mul_pow b.significand_lt b.exponent)
  rw [hb]
  simp only [mul, hm, signed, le, signedUnits, Bool.xor_false, Bool.false_eq_true, if_false,
    decide_eq_true_eq]
  split_ifs <;> omega

theorem exists_magnitude {x : Double} {t : Bool} {b : Magnitude} (hpos : lt .zero x = true)
    (h : le x (.finite t b) = true) : ∃ a, x = .finite false a ∧ 0 < a.units := by
  rcases x with _ | r | ⟨r, a⟩
  · cases h
  · cases r with
    | true => cases hpos
    | false => cases h
  · have hzero : signedUnits false .zero = 0 := rfl
    simp only [lt, zero, le, hzero, Bool.and_eq_true, Bool.not_eq_true', decide_eq_false_iff_not,
      not_le] at hpos
    obtain rfl : r = false := signedUnits_pos hpos.2
    exact ⟨a, rfl, Int.natCast_pos.mp hpos.2⟩

theorem unitsInOne_le_ofNat {n : Nat} {b : Magnitude} (hn : 0 < n)
    (hb : ofNat n = .finite false b) : unitsInOne ≤ b.units := by
  obtain ⟨one, hone, hunits⟩ := exists_round_ones (k := 1) Nat.one_pos (by norm_num)
  rw [Nat.one_mul] at hunits
  rcases hr : round (n * unitsInOne) 1 with _ | b'
  · rw [ofNat, ofFraction, hr] at hb
    cases hb
  · rw [ofNat, ofFraction, hr, signed, finite.injEq] at hb
    have hle : 1 * unitsInOne * 1 ≤ n * unitsInOne := by
      rw [Nat.mul_one]
      exact Nat.mul_le_mul_right _ hn
    obtain ⟨m, hm, hmb⟩ := exists_round_of_le hle hr
    rw [hone, Option.some.injEq] at hm
    rw [← hunits, hm, ← hb.2]
    exact hmb

/-- **A positive share of a positive number is positive**, however small the share. -/
theorem mul_ofNat_pos {x : Double} {n : Nat} (hpos : lt .zero x = true)
    (hx : x.within .zero (.ofNat 1) = true) (hn0 : 0 < n) (hn : n ≤ 2 ^ 64) :
    le (x.mul (ofNat n)) (ofNat 0) = false := by
  obtain ⟨one, hone, -⟩ := ofNat_eq (k := 1) (by norm_num)
  obtain ⟨nought, hnought, hunits⟩ := ofNat_eq (k := 0) (by norm_num)
  rw [within, hone, Bool.and_eq_true] at hx
  obtain ⟨a, rfl, ha⟩ := exists_magnitude hpos hx.2
  obtain ⟨b, -, hb, -⟩ := exists_ofNat hn
  rw [hb, hnought, mul]
  rcases hr : round (a.units * b.units) unitsInOne with _ | m
  · rfl
  · -- the product is no less than the share itself, which is a double
    have hle : a.units ≤ m.units := by
      calc a.units = rounded (a.units * unitsInOne) unitsInOne :=
            (rounded_exact unitsInOne_pos (pow_dvd_mul_pow a.significand_lt a.exponent)).symm
        _ ≤ rounded (a.units * b.units) unitsInOne :=
            rounded_mono _ (Nat.mul_le_mul_left _ (unitsInOne_le_ofNat hn0 hb))
        _ = m.units := (units_round hr).symm
    simp only [signed, le, signedUnits, Bool.xor_false, Bool.false_eq_true, if_false,
      decide_eq_false_iff_not]
    omega

/-- **What reaches a share of a number reaches every smaller positive share of it.** -/
theorem mul_ofNat_le_of_le {x x' y : Double} {n : Nat} (hpos : lt .zero x' = true)
    (h : le x' x = true) (hx : x.within .zero (.ofNat 1) = true) (hn : n ≤ 2 ^ 64)
    (hy : le (x.mul (ofNat n)) y = true) : le (x'.mul (ofNat n)) y = true := by
  obtain ⟨one, hone, -⟩ := ofNat_eq (k := 1) (by norm_num)
  rw [hone, zero] at hx
  obtain ⟨r, a, rfl, -, -⟩ := finite_of_within hx
  obtain ⟨a', rfl, ha'⟩ := exists_magnitude hpos h
  simp only [le, decide_eq_true_eq] at h
  obtain rfl : r = false := signedUnits_pos ((Int.natCast_pos.mpr ha').trans_le h)
  obtain ⟨b, -, hb, -⟩ := exists_ofNat hn
  rw [hb] at hy ⊢
  rcases hr : round (a.units * b.units) unitsInOne with _ | m
  · -- only infinity is above an infinite product, and it is above every product
    simp only [mul, hr, signed, Bool.xor_false] at hy ⊢
    obtain rfl : y = .infinite false := by
      rcases y with _ | s | ⟨t, c⟩
      · cases hy
      · cases s with
        | false => rfl
        | true => cases hy
      · cases hy
    cases round (a'.units * b.units) unitsInOne <;> rfl
  · obtain ⟨m', hm', hle⟩ := mul_mono (Int.ofNat_le.mp h) (by rw [mul, hr]; rfl)
    rw [hm']
    simp only [mul, hr, signed, Bool.xor_false] at hy
    rcases y with _ | s | ⟨t, c⟩
    · cases hy
    · cases s with
      | false => rfl
      | true => cases hy
    · simp only [le, signedUnits, Bool.false_eq_true, if_false, decide_eq_true_eq] at hy ⊢
      omega

end Double

end Floodgate
