import Floodgate.Decimal
import Floodgate.Power
import Mathlib.Tactic.SplitIfs

/-! # The digits of a number

A numeral has no leading zero, reads back as its number (`read_numeral`), and has as many digits as
the number needs (`length_digits_le`, `lt_length_digits`). Zeros at the front of digits do not
count, and each zero at their end is a factor of ten (`read_zeros_append`, `read_append_zeros`). -/

namespace Floodgate.Decimal

theorem digits_lt (n : Nat) : ∀ d ∈ digits n, d < 10 := by
  induction n using Nat.strongRecOn with
  | ind n ih =>
    rw [digits]
    split_ifs with h
    · simpa using h
    · intro d hd
      rcases List.mem_append.mp hd with hd | hd
      · exact ih (n / 10) (by omega) d hd
      · rw [List.mem_singleton.mp hd]
        exact Nat.mod_lt n (by omega)

theorem digits_ne_nil (n : Nat) : digits n ≠ [] := by
  rw [digits]
  split_ifs <;> simp

theorem head?_digits {n : Nat} (h : 0 < n) : ∃ d, (digits n).head? = some d ∧ d ≠ 0 := by
  induction n using Nat.strongRecOn with
  | ind n ih =>
    rw [digits]
    split_ifs with hn
    · exact ⟨n, rfl, by omega⟩
    · obtain ⟨d, hd, hpos⟩ := ih (n / 10) (by omega) (by omega)
      refine ⟨d, ?_, hpos⟩
      rw [List.head?_append, hd]
      rfl

theorem digit?_digitChar : ∀ d < 10, digit? (digitChar d) = some d := by decide

theorem isDigit_digitChar {d : Nat} (h : d < 10) : isDigit (digitChar d) = true := by
  rw [isDigit, digit?_digitChar d h]
  rfl

theorem isDigit_numeral (n : Nat) : ∀ c ∈ numeral n, isDigit c = true := by
  intro c hc
  obtain ⟨d, hd, rfl⟩ := List.mem_map.mp hc
  exact isDigit_digitChar (digits_lt n d hd)

theorem numeral_ne_nil (n : Nat) : numeral n ≠ [] := by
  simpa [numeral] using digits_ne_nil n

/-- **A numeral reads back as its number.** -/
theorem read_numeral (n : Nat) : read (numeral n) = n := by
  have hdigits : ∀ ds : List Nat, (∀ d ∈ ds, d < 10) →
      (ds.map digitChar).filterMap digit? = ds := by
    intro ds hds
    induction ds with
    | nil => rfl
    | cons d ds ih =>
      obtain ⟨hd, hds⟩ := List.forall_mem_cons.mp hds
      rw [List.map_cons, List.filterMap_cons_some (digit?_digitChar d hd), ih hds]
  rw [read, numeral, hdigits _ (digits_lt n), value_digits]

theorem numeral_zero : numeral 0 = ['0'] := by
  rw [numeral, digits]
  rfl

theorem head?_numeral {n : Nat} (h : 0 < n) : (numeral n).head? ≠ some '0' := by
  obtain ⟨d, hd, hpos⟩ := head?_digits h
  have hlt : d < 10 := digits_lt n d (List.mem_of_mem_head? hd)
  rw [numeral, List.head?_map, hd, Option.map_some]
  intro hzero
  have hchar : digit? (digitChar d) = some 0 := by rw [Option.some.inj hzero]; rfl
  rw [digit?_digitChar d hlt] at hchar
  exact hpos (Option.some.inj hchar)

/-! ### How many digits -/

theorem length_digits_pos (n : Nat) : 0 < (digits n).length :=
  List.length_pos_iff.mpr (digits_ne_nil n)

theorem length_digits_le {k n : Nat} (h : n < 10 ^ (k + 1)) : (digits n).length ≤ k + 1 := by
  induction k generalizing n with
  | zero =>
    rw [digits, if_pos (by simpa using h)]
    simp
  | succ k ih =>
    rw [digits]
    split_ifs with hn
    · simp
    · have hdiv : n / 10 < 10 ^ (k + 1) := by
        rw [Nat.div_lt_iff_lt_mul (by decide)]
        rwa [Nat.pow_succ] at h
      have hlength := ih hdiv
      simp only [List.length_append, List.length_singleton]
      omega

theorem lt_length_digits {k n : Nat} (h : 10 ^ k ≤ n) : k < (digits n).length := by
  induction k generalizing n with
  | zero => exact length_digits_pos n
  | succ k ih =>
    have hten : 10 * 10 ^ k ≤ n := by rwa [Nat.pow_succ, Nat.mul_comm] at h
    have hone : 1 ≤ 10 ^ k := Nat.pow_pos (by decide)
    have hdiv : 10 ^ k ≤ n / 10 := by omega
    have hlength := ih hdiv
    rw [digits, if_neg (by omega)]
    simp only [List.length_append, List.length_singleton]
    omega

theorem length_digits_mul_ten {n : Nat} (h : 0 < n) :
    (digits (n * 10)).length = (digits n).length + 1 := by
  rw [digits, if_neg (by omega), Nat.mul_div_cancel n (by decide)]
  simp

theorem length_digits_mul_pow {n : Nat} (h : 0 < n) (k : Nat) :
    (digits (n * 10 ^ k)).length = (digits n).length + k := by
  induction k with
  | zero => simp
  | succ k ih =>
    have hpos : 0 < n * 10 ^ k := Nat.mul_pos h (Nat.pow_pos (by decide))
    rw [Nat.pow_succ, ← Nat.mul_assoc, length_digits_mul_ten hpos, ih]
    omega

/-! ### Zeros -/

theorem digit?_zero : digit? '0' = some 0 := rfl

theorem read_zeros_append (k : Nat) (cs : List Char) :
    read (List.replicate k '0' ++ cs) = read cs := by
  induction k with
  | zero => rfl
  | succ k ih =>
    rw [List.replicate_succ, List.cons_append]
    show value ((('0' :: _) : List Char).filterMap digit?) = _
    rw [List.filterMap_cons_some digit?_zero]
    exact ih

theorem read_append_zeros (cs : List Char) (k : Nat) :
    read (cs ++ List.replicate k '0') = read cs * 10 ^ k := by
  induction k with
  | zero => simp
  | succ k ih =>
    have hlast : read (cs ++ List.replicate k '0' ++ ['0']) =
        10 * read (cs ++ List.replicate k '0') := by
      unfold read
      rw [List.filterMap_append, List.filterMap_cons_some digit?_zero, List.filterMap_nil,
        value_append_singleton, Nat.add_zero]
    rw [List.replicate_succ', ← List.append_assoc, hlast, ih, Nat.pow_succ]
    rw [Nat.mul_comm 10, Nat.mul_assoc]

end Floodgate.Decimal
