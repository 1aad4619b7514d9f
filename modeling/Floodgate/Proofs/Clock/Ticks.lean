import Floodgate.Schedule
import Mathlib.Order.Basic
import Mathlib.Tactic.SplitIfs

/-! # Loops on time

A loop that has started with the clock is due at the next multiple of its period, whenever and
however late the clock rests: this is `Loop.OnTime`, and a tick keeps it (`Loop.OnTime.tick`). The
loop is due at a rest iff a multiple of the period has been passed since the last one
(`Loop.OnTime.isDue_iff`). A schedule that keeps a job going does it exactly then
(`Schedule.Maintains.mem_due_iff`). -/

namespace Floodgate

namespace Loop

variable {J : Type} {l : Loop J} {now now' : Instant}

/-- The loop is due at the next multiple of its period. -/
def OnTime (l : Loop J) (now : Instant) : Prop := l.due = (now / l.period + 1) * l.period

/-- A loop whose period is a number of whole seconds does not skip within its tolerance. -/
theorem tolerance_lt_ofSeconds {n : Nat} (hn : 0 < n) : tolerance < Span.ofSeconds n :=
  calc tolerance < 1 * Span.second := by decide
    _ ≤ n * Span.second := Nat.mul_le_mul_right _ hn

theorem onTime_start (job : J) (period : Span) : (Loop.start 0 job period).OnTime 0 := by
  show 0 + period = (0 / period + 1) * period
  rw [Nat.zero_div, Nat.zero_add, Nat.zero_add, Nat.one_mul]

/-- **A loop is due once the clock has passed a multiple of its period.** -/
theorem OnTime.isDue_iff (h : l.OnTime now) (hpos : 0 < l.period) :
    l.isDue now' = true ↔ now / l.period < now' / l.period := by
  rw [isDue, decide_eq_true_iff, h, ← Nat.le_div_iff_mul_le hpos]
  exact Nat.succ_le_iff

theorem tick_job (l : Loop J) (now : Instant) : (l.tick now).job = l.job := by
  unfold tick
  split_ifs <;> rfl

theorem tick_period (l : Loop J) (now : Instant) : (l.tick now).period = l.period := by
  unfold tick
  split_ifs <;> rfl

/-- Both rules for the next due time, in time and late, name the next multiple of the period. -/
theorem OnTime.nextDue_eq (h : l.OnTime now) (hperiod : tolerance < l.period)
    (hdue : l.due ≤ now') : l.nextDue now' = (now' / l.period + 1) * l.period := by
  have hpos : 0 < l.period := Nat.zero_lt_of_lt hperiod
  -- the multiples of the period that have been passed since the loop was due
  obtain ⟨late, rfl⟩ := Nat.exists_eq_add_of_le hdue
  have hdiv : (l.due + late) / l.period = now / l.period + 1 + late / l.period := by
    rw [h, Nat.add_comm, Nat.add_mul_div_right _ _ hpos, Nat.add_comm]
  rw [hdiv, nextDue]
  split_ifs with hlate
  · have hzero : late / l.period = 0 :=
      Nat.div_eq_of_lt (Nat.lt_of_le_of_lt (Nat.le_of_add_le_add_left hlate) hperiod)
    rw [hzero, Nat.add_zero, Nat.succ_mul, ← h]
  · rw [Nat.add_sub_cancel_left]
    refine Nat.sub_eq_of_eq_add ?_
    calc l.due + late + l.period
      _ = l.due + (late % l.period + late / l.period * l.period) + l.period := by
        rw [Nat.mod_add_div']
      _ = l.due + late / l.period * l.period + l.period + late % l.period := by ac_rfl
      _ = (now / l.period + 1 + late / l.period + 1) * l.period + late % l.period := by
        rw [Nat.succ_mul, Nat.add_mul, ← h]

theorem OnTime.tick (h : l.OnTime now) (hperiod : tolerance < l.period) (hle : now ≤ now') :
    (l.tick now').OnTime now' := by
  have hpos : 0 < l.period := Nat.zero_lt_of_lt hperiod
  unfold Loop.tick
  cases hdue : l.isDue now' with
  | true =>
    rw [if_pos rfl]
    exact h.nextDue_eq hperiod (of_decide_eq_true hdue)
  | false =>
    have hsame : now / l.period = now' / l.period := by
      refine Nat.le_antisymm (Nat.div_le_div_right hle) (Nat.le_of_not_lt fun hlt => ?_)
      rw [(h.isDue_iff hpos).mpr hlt] at hdue
      cases hdue
    rw [if_neg Bool.false_ne_true, OnTime, ← hsame]
    exact h

end Loop

/-! ### Schedules -/

namespace Schedule

variable {J : Type} {s : Schedule J} {now now' : Instant} {j : J} {period : Span}

/-- A schedule that is not cancelled keeps a job going: its loops for it are on time. -/
structure Maintains (s : Schedule J) (now : Instant) (j : J) (period : Span) : Prop where
  running : s.cancelled = false
  exists_loop : ∃ l ∈ s.loops, l.job = j
  onTime : ∀ l ∈ s.loops, l.job = j → l.period = period ∧ l.OnTime now

theorem maintains_start {jobs : List (J × Span)} (hj : (j, period) ∈ jobs)
    (honly : ∀ p, (j, p) ∈ jobs → p = period) : (Schedule.start 0 jobs).Maintains 0 j period where
  running := rfl
  exists_loop := ⟨_, List.mem_map_of_mem hj, rfl⟩
  onTime l hl hjob := by
    obtain ⟨⟨j', p⟩, hmem, rfl⟩ := List.mem_map.mp hl
    cases hjob
    obtain rfl := honly p hmem
    exact ⟨rfl, Loop.onTime_start _ _⟩

theorem Maintains.mem_due_iff (h : s.Maintains now j period) (hpos : 0 < period) :
    j ∈ s.due now' ↔ now / period < now' / period := by
  rw [due, h.running, if_neg Bool.false_ne_true, List.mem_map]
  constructor
  · rintro ⟨l, hl, hjob⟩
    obtain ⟨hl, hdue⟩ := List.mem_filter.mp hl
    obtain ⟨rfl, hon⟩ := h.onTime l hl hjob
    exact (hon.isDue_iff hpos).mp hdue
  · intro hlt
    obtain ⟨l, hl, hjob⟩ := h.exists_loop
    obtain ⟨rfl, hon⟩ := h.onTime l hl hjob
    exact ⟨l, List.mem_filter.mpr ⟨hl, (hon.isDue_iff hpos).mpr hlt⟩, hjob⟩

theorem Maintains.tick (h : s.Maintains now j period) (hperiod : Loop.tolerance < period)
    (hle : now ≤ now') : (s.tick now').Maintains now' j period := by
  rw [Schedule.tick, h.running, if_neg Bool.false_ne_true]
  refine ⟨rfl, ?_, ?_⟩
  · obtain ⟨l, hl, hjob⟩ := h.exists_loop
    exact ⟨l.tick now', List.mem_map_of_mem hl, (l.tick_job now').trans hjob⟩
  · intro l' hl' hjob
    obtain ⟨l, hl, rfl⟩ := List.mem_map.mp hl'
    rw [Loop.tick_job] at hjob
    obtain ⟨rfl, hon⟩ := h.onTime l hl hjob
    exact ⟨l.tick_period now', hon.tick hperiod hle⟩

end Schedule

end Floodgate
