import Floodgate.Clock
import Mathlib.Algebra.Order.Floor.Div
import Mathlib.Data.List.Nodup

/-! # Instants in different periods

If no two instants lie in the same period of a length, then few of them lie in a window of time: at
most one more than the periods that the window takes to pass (`Instant.length_window_le`), and one
fewer if the instants are multiples of the length (`Instant.length_window_le_of_dvd`). -/

namespace Floodgate

namespace Instant

variable {ts : List Instant} {p : Span} {start : Instant} {width : Span}

/-- The instants that lie in the window that starts at an instant and has a width. -/
def window (start : Instant) (width : Span) (ts : List Instant) : List Instant :=
  ts.filter fun t => start ≤ t ∧ t < start + width

theorem window_append (start : Instant) (width : Span) (ts us : List Instant) :
    window start width (ts ++ us) = window start width ts ++ window start width us :=
  List.filter_append ..

theorem window_eq_self (h : ∀ t ∈ ts, start ≤ t ∧ t < start + width) :
    window start width ts = ts :=
  List.filter_eq_self.mpr fun t ht => decide_eq_true (h t ht)

theorem window_eq_nil (h : ∀ t ∈ ts, t < start ∨ start + width ≤ t) :
    window start width ts = [] := by
  refine List.filter_eq_nil_iff.mpr fun t ht hwindow => ?_
  obtain ⟨hlow, hhigh⟩ := of_decide_eq_true hwindow
  rcases h t ht with hlt | hle
  · exact Nat.not_le_of_lt hlt hlow
  · exact Nat.not_lt_of_le hle hhigh

/-- Instants, each of which lies in a later period than the one before it. -/
def Apart (p : Span) (ts : List Instant) : Prop := ts.Pairwise fun t u => t / p < u / p

theorem length_window_le_of_range (h : Apart p ts) (first : Nat) {n : Nat}
    (hrange : ∀ t ∈ ts, start ≤ t → t < start + width → first ≤ t / p ∧ t / p < first + n) :
    (window start width ts).length ≤ n := by
  have hnodup : ((window start width ts).map (· / p)).Nodup :=
    List.pairwise_map.mpr ((h.filter _).imp fun hlt => hlt.ne)
  have hsubset : (window start width ts).map (· / p) ⊆ List.range' first n := by
    intro k hk
    obtain ⟨t, ht, rfl⟩ := List.mem_map.mp hk
    obtain ⟨hmem, hwindow⟩ := List.mem_filter.mp ht
    obtain ⟨hlow, hhigh⟩ := of_decide_eq_true hwindow
    exact List.mem_range'_1.mpr (hrange t hmem hlow hhigh)
  have hle := (List.subperm_of_subset hnodup hsubset).length_le
  rwa [List.length_map, List.length_range'] at hle

theorem le_ceilDiv_mul (hp : 0 < p) (n : Nat) : n ≤ n ⌈/⌉ p * p := by
  have hle : n ≤ p • (n ⌈/⌉ p) := le_smul_ceilDiv hp
  rwa [smul_eq_mul, Nat.mul_comm] at hle

/-- **Few instants of different periods lie in a window.** -/
theorem length_window_le (h : Apart p ts) (hp : 0 < p) (start : Instant) (width : Span) :
    (window start width ts).length ≤ width ⌈/⌉ p + 1 := by
  refine length_window_le_of_range h (start / p) fun t _ hlow hhigh => ?_
  refine ⟨Nat.div_le_div_right hlow, (Nat.div_lt_iff_lt_mul hp).mpr ?_⟩
  calc t < start + width := hhigh
    _ ≤ (start / p + 1) * p + width ⌈/⌉ p * p :=
      Nat.add_le_add ((Nat.div_lt_iff_lt_mul hp).mp (Nat.lt_succ_self _)).le
        (le_ceilDiv_mul hp width)
    _ = (start / p + (width ⌈/⌉ p + 1)) * p := by
      rw [← Nat.add_mul, Nat.add_assoc, Nat.add_comm 1]

/-- **Even fewer multiples of the period do.** -/
theorem length_window_le_of_dvd (h : Apart p ts) (hp : 0 < p) (hdvd : ∀ t ∈ ts, p ∣ t)
    (start : Instant) (width : Span) : (window start width ts).length ≤ width ⌈/⌉ p := by
  refine length_window_le_of_range h (start ⌈/⌉ p) fun t ht hlow hhigh => ?_
  obtain ⟨k, rfl⟩ := hdvd t ht
  rw [Nat.mul_div_cancel_left k hp]
  refine ⟨(ceilDiv_le_iff_le_smul hp).mpr hlow, ?_⟩
  refine Nat.lt_of_mul_lt_mul_left (a := p) ?_
  calc p * k < start + width := hhigh
    _ ≤ start ⌈/⌉ p * p + width ⌈/⌉ p * p :=
      Nat.add_le_add (le_ceilDiv_mul hp start) (le_ceilDiv_mul hp width)
    _ = p * (start ⌈/⌉ p + width ⌈/⌉ p) := by rw [← Nat.add_mul, Nat.mul_comm]

end Instant

end Floodgate
