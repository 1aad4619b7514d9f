import Floodgate.Clock
import Mathlib.Data.List.Chain
import Mathlib.Data.List.Range
import Mathlib.Tactic.SplitIfs

/-! # The stops of a clock

A clock that moves on rests at every whole second behind its start and at its target
(`Instant.mem_stops`), the stops follow one another (`Instant.pairwise_stops`), and none skips a
whole second (`Instant.isChain_stops`). -/

namespace Floodgate

namespace Instant

theorem mem_range_seconds {now target k : Nat} :
    k ∈ List.range' (now / Span.second + 1) (target / Span.second - now / Span.second) ↔
      now < k * Span.second ∧ k * Span.second ≤ target := by
  rw [List.mem_range'_1]
  unfold Span.second
  omega

theorem mem_stops {now target t : Nat} :
    t ∈ stops now target ↔
      (now < t ∧ t ≤ target ∧ t % Span.second = 0) ∨ (t = target ∧ target % Span.second ≠ 0) := by
  have hlast : t ∈ (if target % Span.second = 0 then [] else [target]) ↔
      t = target ∧ target % Span.second ≠ 0 := by
    by_cases h : target % Span.second = 0 <;> simp [h]
  rw [stops, List.mem_append, hlast, List.mem_map]
  refine or_congr_left ⟨?_, ?_⟩
  · rintro ⟨k, hk, rfl⟩
    obtain ⟨hnow, hle⟩ := mem_range_seconds.mp hk
    exact ⟨hnow, hle, Nat.mul_mod_left _ _⟩
  · rintro ⟨hnow, hle, hwhole⟩
    have ht : t / Span.second * Span.second = t :=
      Nat.div_mul_cancel (Nat.dvd_of_mod_eq_zero hwhole)
    exact ⟨t / Span.second, mem_range_seconds.mpr (by rw [ht]; exact ⟨hnow, hle⟩), ht⟩

/-- **The clock never goes back.** -/
theorem pairwise_stops {now target : Nat} (h : now ≤ target) :
    (now :: stops now target).Pairwise (· ≤ ·) := by
  rw [List.pairwise_cons]
  constructor
  · intro t ht
    rcases mem_stops.mp ht with ⟨hnow, -, -⟩ | ⟨rfl, -⟩
    · exact Nat.le_of_lt hnow
    · exact h
  · rw [stops, List.pairwise_append]
    refine ⟨?_, ?_, ?_⟩
    · rw [List.pairwise_map]
      refine List.Pairwise.imp (fun hlt => ?_) (List.pairwise_lt_range' 1)
      exact Nat.mul_le_mul_right _ (Nat.le_of_lt hlt)
    · split_ifs
      · exact List.Pairwise.nil
      · exact List.pairwise_singleton _ _
    · intro t ht u hu
      obtain ⟨k, hk, rfl⟩ := List.mem_map.mp ht
      obtain ⟨-, hle⟩ := mem_range_seconds.mp hk
      split_ifs at hu
      · exact absurd hu List.not_mem_nil
      · rw [List.mem_singleton.mp hu]
        exact hle

/-- The clock goes on from one instant to another without skipping a whole second. -/
def Near (now now' : Instant) : Prop :=
  now ≤ now' ∧ ∀ k, now < k * Span.second → now' ≤ k * Span.second

/-- The clock skips no multiple of a number of whole seconds: it rests at the one that it passes. -/
theorem Near.dvd {now now' : Instant} (h : Near now now') {n : Nat} (hn : 0 < n)
    (hpassed : now / Span.ofSeconds n < now' / Span.ofSeconds n) : Span.ofSeconds n ∣ now' := by
  have hpos : 0 < Span.ofSeconds n := Nat.mul_pos hn (by decide)
  have hlt : now < now' / Span.ofSeconds n * n * Span.second := by
    rw [Nat.mul_assoc]
    exact (Nat.div_lt_iff_lt_mul hpos).mp hpassed
  have hle : now' ≤ now' / Span.ofSeconds n * n * Span.second := h.2 _ hlt
  rw [Nat.mul_assoc] at hle
  exact ⟨_, (hle.antisymm (Nat.div_mul_le_self _ _)).trans (Nat.mul_comm _ _)⟩

theorem le_of_mem_stops {now target t : Instant} (h : now ≤ target)
    (ht : t ∈ now :: stops now target) : now ≤ t ∧ t ≤ target := by
  rcases List.mem_cons.mp ht with rfl | ht
  · exact ⟨Nat.le_refl _, h⟩
  · rcases mem_stops.mp ht with ⟨hnow, hle, -⟩ | ⟨rfl, -⟩
    · exact ⟨hnow.le, hle⟩
    · exact ⟨h, Nat.le_refl _⟩

/-- **A clock that moves on skips no whole second.** -/
theorem isChain_stops {now target : Instant} (h : now ≤ target) :
    (now :: stops now target).IsChain Near := by
  rw [List.isChain_iff_getElem]
  intro i hi
  have hsorted := List.pairwise_iff_getElem.mp (pairwise_stops h)
  refine ⟨hsorted i (i + 1) _ hi (Nat.lt_succ_self i), fun k hk => ?_⟩
  by_contra hskipped
  -- a whole second on the way is a stop itself
  have hmem : k * Span.second ∈ now :: stops now target := by
    refine List.mem_cons_of_mem _ (mem_stops.mpr (.inl ⟨?_, ?_, Nat.mul_mod_left _ _⟩))
    · exact (le_of_mem_stops h (List.getElem_mem _)).1.trans_lt hk
    · exact (Nat.lt_of_not_le hskipped).le.trans (le_of_mem_stops h (List.getElem_mem _)).2
  obtain ⟨n, hn, hnk⟩ := List.getElem_of_mem hmem
  rcases Nat.lt_trichotomy n i with hlt | rfl | hgt
  · exact Nat.lt_irrefl _ (hk.trans_le (hnk ▸ hsorted n i hn _ hlt))
  · exact Nat.lt_irrefl _ (hnk ▸ hk)
  · rcases Nat.eq_or_lt_of_le hgt with rfl | hgt
    · exact hskipped hnk.le
    · exact hskipped ((hsorted (i + 1) n hi hn hgt).trans hnk.le)

end Instant

end Floodgate
