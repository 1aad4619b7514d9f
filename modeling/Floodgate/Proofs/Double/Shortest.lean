import Floodgate.Double.Text
import Floodgate.Proofs.Decimal
import Floodgate.Proofs.Double.Rounding

/-! # The shortest decimal reads back

The decimal with which a magnitude is written has been tried (`readBack_shortest`): it comes from a
grid on which a multiple reads back, or it is the magnitude written out to the last digit, which
reads back without rounding (`readBack_exactDecimal`). A decimal is read with either sign alike
(`ofDecimal_negative`), and a fraction of zero makes no difference (`ofDecimal_point_zero`). -/

namespace Floodgate

namespace Magnitude

/-! ### Rounding what needs none -/

/-- A magnitude is determined by its units, and the rounding of its own units gives it back. -/
theorem round_units (m : Magnitude) {d : Nat} (hd : 0 < d) : round (m.units * d) d = some m := by
  have hexponent : exponentNear (m.units * d) d = m.exponent := by
    unfold exponentNear
    rw [Nat.mul_div_cancel _ hd]
    have hle := log2_mul_pow_le m.significand_lt m.exponent
    rcases m.leading with hzero | hleading
    · rw [units]
      omega
    · have hlog : 52 + m.exponent ≤ m.units.log2 := by
        have hpow : 2 ^ (52 + m.exponent) ≤ m.units := by
          rw [Nat.pow_add]
          exact Nat.mul_le_mul_right _ hleading
        have hne : m.units ≠ 0 := by
          have hpos : 0 < 2 ^ (52 + m.exponent) := Nat.two_pow_pos _
          omega
        exact (Nat.le_log2 hne).mpr hpow
      rw [units] at hlog ⊢
      omega
  have hsignificand : roundQuotient (m.units * d) (d * 2 ^ m.exponent) = m.significand := by
    have hunits : m.units * d = m.significand * (d * 2 ^ m.exponent) := by
      rw [units]
      ring
    rw [hunits, roundQuotient_mul _ (Nat.mul_pos hd (Nat.two_pow_pos _))]
  unfold round
  simp only [hexponent, hsignificand]
  rw [if_pos m.significand_lt, of?, dif_pos ⟨m.significand_lt, m.exponent_le, m.leading⟩]

theorem roundQuotient_scale (n d : Nat) {a : Nat} (ha : 0 < a) :
    roundQuotient (n * a) (d * a) = roundQuotient n d := by
  have hquotient : n * a / (d * a) = n / d := Nat.mul_div_mul_right n d ha
  have hremainder : n * a % (d * a) = n % d * a := Nat.mul_mod_mul_right a n d
  have hbelow : 2 * (n % d * a) < d * a ↔ 2 * (n % d) < d := by
    rw [← Nat.mul_assoc]
    exact Nat.mul_lt_mul_right ha
  have habove : d * a < 2 * (n % d * a) ↔ d < 2 * (n % d) := by
    rw [← Nat.mul_assoc]
    exact Nat.mul_lt_mul_right ha
  rw [roundQuotient_eq, roundQuotient_eq, hquotient, hremainder, if_congr hbelow rfl rfl,
    if_congr habove rfl rfl]

theorem round_scale (n d : Nat) {a : Nat} (ha : 0 < a) : round (n * a) (d * a) = round n d := by
  have hexponent : exponentNear (n * a) (d * a) = exponentNear n d := by
    unfold exponentNear
    rw [Nat.mul_div_mul_right n d ha]
  have hsignificand : roundQuotient (n * a) (d * a * 2 ^ exponentNear n d) =
      roundQuotient n (d * 2 ^ exponentNear n d) := by
    rw [Nat.mul_right_comm, roundQuotient_scale n _ ha]
  unfold round
  simp only [hexponent, hsignificand]

/-! ### The shortest decimal -/

theorem units_eq_zero_iff {m : Magnitude} : m.units = 0 ↔ m = zero := by
  constructor
  · intro h
    have hpos : 0 < 2 ^ m.exponent := Nat.two_pow_pos _
    have hsignificand : m.significand = 0 := by
      rcases Nat.mul_eq_zero.mp h with hs | he
      · exact hs
      · omega
    have hexponent : m.exponent = 0 := by
      have hleading := m.leading
      omega
    cases m
    simp only at hsignificand hexponent
    subst hsignificand hexponent
    rfl
  · rintro rfl
    rfl

theorem units_lt {m : Magnitude} {k : Nat} (h : m.exponent ≤ k) : m.units < 2 ^ (53 + k) := by
  have hpow : 2 ^ m.exponent ≤ 2 ^ k := Nat.pow_le_pow_right Nat.two_pos h
  have hlt : m.units < 2 ^ 53 * 2 ^ m.exponent :=
    Nat.mul_lt_mul_of_pos_right m.significand_lt (Nat.two_pow_pos _)
  rw [Nat.pow_add]
  exact hlt.trans_le (Nat.mul_le_mul_left _ hpow)

/-- A magnitude that is written out with all its decimal places is not rounded. -/
theorem round_places (m : Magnitude) (k : Nat) :
    round (m.units * 5 ^ k * 2 ^ k) (10 ^ k) = some m := by
  have hten : m.units * 5 ^ k * 2 ^ k = m.units * 10 ^ k := by
    rw [Nat.mul_assoc, ← Nat.mul_pow]
  rw [hten]
  exact round_units m (Nat.pow_pos (by decide))

theorem length_digits_units {m : Magnitude} (h : 0 < m.units) {k five low high : Nat}
    (hexponent : m.exponent ≤ k) (hlow : 10 ^ low ≤ five)
    (hhigh : 2 ^ (53 + k) * five ≤ 10 ^ (high + 1)) :
    low < (Decimal.digits (m.units * five)).length ∧
      (Decimal.digits (m.units * five)).length ≤ high + 1 := by
  have hpos : 0 < five := (Nat.pow_pos (by decide)).trans_le hlow
  have hmany : 10 ^ low ≤ m.units * five := hlow.trans (Nat.le_mul_of_pos_left _ h)
  have hfew : m.units * five < 10 ^ (high + 1) :=
    (Nat.mul_lt_mul_of_pos_right (units_lt hexponent) hpos).trans_le hhigh
  exact ⟨Decimal.lt_length_digits hmany, Decimal.length_digits_le hfew⟩

theorem length_exactDecimal {m : Magnitude} (h : 0 < m.units) :
    674 < (Decimal.digits m.exactDecimal.1).length ∧
      (Decimal.digits m.exactDecimal.1).length ≤ 1474 := by
  have hbounds : ∀ five : Nat, 10 ^ (674 : Nat) ≤ five →
      2 ^ (53 + 2045 : Nat) * five ≤ 10 ^ (1473 + 1 : Nat) →
      674 < (Decimal.digits (m.units * five)).length ∧
        (Decimal.digits (m.units * five)).length ≤ 1474 := fun five hlow hhigh =>
    length_digits_units h m.exponent_le hlow hhigh
  exact hbounds _ (by decide +kernel) (by decide +kernel)

end Magnitude

namespace Double

open Magnitude in
/-- What a decimal stands for whose places can be rounded at once. -/
theorem ofDecimal_places {c k : Nat} {m : Magnitude} (hc : c ≠ 0)
    (hmany : k ≤ (Decimal.digits c).length + 400) (hfew : (Decimal.digits c).length ≤ k + 400)
    (hround : round (c * unitsInOne) (10 ^ k) = some m) (negative : Bool) :
    ofDecimal negative c (-(k : Int)) = .finite negative m := by
  have hlow : ¬ (c = 0 ∨ -(k : Int) + (Decimal.digits c).length < -decimalReach) := by
    unfold decimalReach
    omega
  have hhigh : ¬ decimalReach < -(k : Int) + (Decimal.digits c).length := by
    unfold decimalReach
    omega
  have hwhole : (-(k : Int)).toNat = 0 := by omega
  have hplaces : (- -(k : Int)).toNat = k := by omega
  simp only [ofDecimal]
  rw [if_neg hlow, if_neg hhigh, hwhole, hplaces, Nat.pow_zero, Nat.mul_one, hround]
  rfl

theorem ofDecimal_negative {c : Nat} {k : Int} {m : Magnitude}
    (h : ofDecimal false c k = .finite false m) (negative : Bool) :
    ofDecimal negative c k = .finite negative m := by
  simp only [ofDecimal] at h ⊢
  split_ifs at h ⊢ with hzero hlarge
  · cases h
    rfl
  · generalize Magnitude.round _ _ = r at h ⊢
    cases r with
    | none => cases h
    | some m' =>
      cases h
      rfl

theorem ofDecimal_point_zero {c : Nat} (hc : 0 < c) (k : Nat) (negative : Bool) :
    ofDecimal negative (c * 10 ^ k * 10) (-1) = ofDecimal negative c k := by
  have hpos : 0 < c * 10 ^ k := Nat.mul_pos hc (Nat.pow_pos (by decide))
  have hlength : (Decimal.digits (c * 10 ^ k * 10)).length = (Decimal.digits c).length + k + 1 := by
    rw [Decimal.length_digits_mul_ten hpos, Decimal.length_digits_mul_pow hc]
  have htop : (-1 : Int) + ((Decimal.digits c).length + k + 1 : Nat) =
      (k : Int) + (Decimal.digits c).length := by omega
  have hne : c * 10 ^ k * 10 ≠ 0 := by omega
  have hround := Magnitude.round_scale (c * 10 ^ k * Magnitude.unitsInOne) 1 (a := 10) (by decide)
  rw [Nat.mul_right_comm, Nat.one_mul] at hround
  simp only [ofDecimal, hlength, htop]
  have hplace : (- (-1 : Int)).toNat = 1 := rfl
  have hwhole : (k : Int).toNat = k := Int.toNat_natCast k
  have hnone : (-(k : Int)).toNat = 0 := by omega
  have hzero : (-1 : Int).toNat = 0 := rfl
  rw [hwhole, hnone, hzero, hplace, Nat.pow_zero, Nat.mul_one, Nat.pow_one, hround]
  have hiff : (c * 10 ^ k * 10 = 0 ∨ (k : Int) + (Decimal.digits c).length < -decimalReach) ↔
      (c = 0 ∨ (k : Int) + (Decimal.digits c).length < -decimalReach) := by
    rw [or_congr_left]
    omega
  rw [if_congr hiff rfl rfl]

end Double

namespace Magnitude

theorem exactDecimal_fst (m : Magnitude) : m.exactDecimal.1 = m.units * 5 ^ (1074 : Nat) := rfl

theorem readBack_exactDecimal (m : Magnitude) :
    m.readBack m.exactDecimal.1 m.exactDecimal.2 = true := by
  refine decide_eq_true ?_
  -- zero is read apart; above it the number of digits keeps clear of what is read as zero or as
  -- infinite
  rcases Nat.eq_zero_or_pos m.units with hzero | hpos
  · have hcoefficient : m.exactDecimal.1 = 0 := Nat.mul_eq_zero.mpr (Or.inl hzero)
    rw [Double.ofDecimal, if_pos (Or.inl hcoefficient), units_eq_zero_iff.mp hzero]
  · obtain ⟨hmany, hfew⟩ := length_exactDecimal hpos
    have hround : round (m.exactDecimal.1 * unitsInOne) (10 ^ (1074 : Nat)) = some m := by
      have hplaces := round_places m 1074
      rwa [← exactDecimal_fst, ← unitsInOne] at hplaces
    have hne : m.exactDecimal.1 ≠ 0 := by
      intro hzero
      rw [hzero, Decimal.digits] at hmany
      exact absurd hmany (by decide)
    exact Double.ofDecimal_places hne (by omega) (by omega) hround false

/-- What is taken from a grid has been tried. -/
theorem readBack_of_onGrid {m : Magnitude} {k : Int} {t : Nat × Int} (h : m.onGrid k = some t) :
    m.readBack t.1 t.2 = true := by
  simp only [onGrid] at h
  split at h
  · rename_i hlow hhigh
    obtain rfl := Option.some.inj h
    split_ifs
    · exact hlow
    · exact hhigh
  · rename_i hlow _
    obtain rfl := Option.some.inj h
    exact hlow
  · rename_i _ hhigh
    obtain rfl := Option.some.inj h
    exact hhigh
  · cases h

/-- **The decimal with which a magnitude is written reads back.** -/
theorem readBack_shortest (m : Magnitude) : m.readBack m.shortest.1 m.shortest.2 = true := by
  unfold shortest
  cases hfound : m.grids.findSome? m.onGrid with
  | none => exact m.readBack_exactDecimal
  | some t =>
    obtain ⟨k, -, hgrid⟩ := List.exists_of_findSome?_eq_some hfound
    exact readBack_of_onGrid hgrid

end Magnitude

end Floodgate
