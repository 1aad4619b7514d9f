import Floodgate.Proofs.Clock.Ticks
import Mathlib.Data.List.Nodup
import Mathlib.Order.Lattice

/-! # Rounds of a schedule

What happens to a schedule is a list of turns: the clock rests and the jobs that are due are done,
or the schedule is cancelled. A list of turns is a log of the schedule if each rest does what is due
(`Schedule.Logs`). If a schedule that has started with the clock has one loop for a job
(`Schedule.Drives`), then a rest does the job once, if a multiple of the period has been passed
since the last rest and the schedule has not been cancelled, and not at all otherwise
(`Schedule.Logs.count_rest`). -/

namespace Floodgate

/-- What happens to a schedule. -/
inductive Turn (J : Type) where
  /-- The clock rests, and jobs are done. -/
  | rest (now : Instant) (done : List J)
  | cancel
deriving DecidableEq

/-- The instant of the last rest in a list of turns. -/
def lastRest {J : Type} (asked : Instant) (turns : List (Turn J)) : Instant :=
  turns.foldl
    (fun asked x =>
      match x with
      | .rest now _ => now
      | .cancel => asked)
    asked

theorem lastRest_append {J : Type} (asked : Instant) (before after : List (Turn J)) :
    lastRest asked (before ++ after) = lastRest (lastRest asked before) after :=
  List.foldl_append

namespace Schedule

variable {J : Type} {s : Schedule J} {asked now : Instant} {j : J} {period : Span}

/-- The schedule after a turn. -/
def turn (s : Schedule J) : Turn J → Schedule J
  | .rest now _ => s.tick now
  | .cancel => s.cancel

/-- The schedule after turns. -/
def follow (s : Schedule J) (turns : List (Turn J)) : Schedule J := turns.foldl turn s

/-- Turns that a schedule goes through after it was last asked: the clock does not go back, and the
jobs that are done at a rest are those that are due. -/
def Logs (s : Schedule J) (asked : Instant) : List (Turn J) → Prop
  | [] => True
  | .rest now done :: turns => asked ≤ now ∧ done = s.due now ∧ (s.tick now).Logs now turns
  | .cancel :: turns => s.cancel.Logs asked turns

theorem follow_append (s : Schedule J) (before after : List (Turn J)) :
    s.follow (before ++ after) = (s.follow before).follow after := List.foldl_append

theorem logs_append {before after : List (Turn J)} :
    s.Logs asked (before ++ after) ↔
      s.Logs asked before ∧ (s.follow before).Logs (lastRest asked before) after := by
  induction before generalizing s asked with
  | nil => exact (and_iff_right trivial).symm
  | cons x before ih =>
    cases x with
    | rest now done =>
      rw [List.cons_append, Logs, ih, Logs, and_assoc, and_assoc]
      rfl
    | cancel => exact ih

theorem Logs.le_lastRest {turns : List (Turn J)} (h : s.Logs asked turns) :
    asked ≤ lastRest asked turns ∧
      ∀ t done, .rest t done ∈ turns → t ≤ lastRest asked turns := by
  induction turns generalizing s asked with
  | nil => exact ⟨le_rfl, fun t done ht => absurd ht List.not_mem_nil⟩
  | cons x turns ih =>
    cases x with
    | rest now done =>
      obtain ⟨hle, -, h⟩ := h
      obtain ⟨hnow, hall⟩ := ih h
      refine ⟨hle.trans hnow, fun t done' ht => ?_⟩
      rcases List.mem_cons.mp ht with heq | ht
      · cases heq
        exact hnow
      · exact hall t done' ht
    | cancel =>
      obtain ⟨hle, hall⟩ := ih h
      refine ⟨hle, fun t done ht => ?_⟩
      rcases List.mem_cons.mp ht with heq | ht
      · cases heq
      · exact hall t done ht

theorem cancelled_follow [DecidableEq J] (s : Schedule J) (turns : List (Turn J)) :
    (s.follow turns).cancelled = false ↔ s.cancelled = false ∧ .cancel ∉ turns := by
  induction turns generalizing s with
  | nil => exact ⟨fun h => ⟨h, List.not_mem_nil⟩, fun h => h.1⟩
  | cons x turns ih =>
    have hmem : .cancel ∉ x :: turns ↔ x ≠ .cancel ∧ .cancel ∉ turns := by
      rw [List.mem_cons, not_or, ne_comm]
    rw [hmem]
    refine (ih (s.turn x)).trans ?_
    cases x with
    | rest now done =>
      have htick : (s.tick now).cancelled = s.cancelled := by
        unfold tick
        split_ifs <;> rfl
      rw [turn, htick]
      simp
    | cancel => simp [turn, Schedule.cancel]

/-! ### One loop for a job -/

/-- A schedule that was last asked at an instant has one loop for a job. It is on time until the
schedule is cancelled, and due at a multiple of its period even then. -/
structure Drives (s : Schedule J) (asked : Instant) (j : J) (period : Span) : Prop where
  single : (s.loops.map (·.job)).Nodup
  running : s.cancelled = false → s.Maintains asked j period
  multiple : ∀ l ∈ s.loops, l.job = j → period ∣ l.due

theorem drives_start {jobs : List (J × Span)} (hj : (j, period) ∈ jobs)
    (hnodup : (jobs.map Prod.fst).Nodup) : (Schedule.start 0 jobs).Drives 0 j period := by
  have honly : ∀ p, (j, p) ∈ jobs → p = period := fun p hp =>
    congrArg Prod.snd (List.inj_on_of_nodup_map hnodup hp hj rfl)
  refine ⟨?_, fun _ => maintains_start hj honly, fun l hl hjob => ?_⟩
  · rw [start, List.map_map]
    exact hnodup
  · obtain ⟨⟨j', p⟩, hmem, rfl⟩ := List.mem_map.mp hl
    cases hjob
    obtain rfl := honly p hmem
    exact ⟨1, by rw [Nat.mul_one]; exact Nat.zero_add p⟩

theorem Drives.cancel (h : s.Drives asked j period) : s.cancel.Drives asked j period :=
  ⟨h.single, fun hrun => Bool.noConfusion hrun, h.multiple⟩

theorem Drives.tick (h : s.Drives asked j period) (hperiod : Loop.tolerance < period)
    (hle : asked ≤ now) : (s.tick now).Drives now j period := by
  cases hrun : s.cancelled with
  | true =>
    have hsame : s.tick now = s := if_pos hrun
    rw [hsame]
    exact ⟨h.single, fun hno => Bool.noConfusion (hrun.symm.trans hno), h.multiple⟩
  | false =>
    have htick := (h.running hrun).tick hperiod hle
    refine ⟨?_, fun _ => htick, fun l hl hjob => ?_⟩
    · have hjobs : (s.tick now).loops.map (·.job) = s.loops.map (·.job) := by
        rw [Schedule.tick, hrun, if_neg Bool.false_ne_true, List.map_map]
        exact List.map_congr_left fun l _ => l.tick_job now
      rw [hjobs]
      exact h.single
    · obtain ⟨rfl, hon⟩ := htick.onTime l hl hjob
      exact ⟨now / l.period + 1, hon.trans (Nat.mul_comm _ _)⟩

/-- **The job is done once if the clock has passed a multiple of its period.** -/
theorem Drives.count_due [DecidableEq J] (h : s.Drives asked j period) (hpos : 0 < period) :
    (s.due now).count j =
      if s.cancelled = false ∧ asked / period < now / period then 1 else 0 := by
  cases hrun : s.cancelled with
  | true =>
    rw [due, if_pos hrun, if_neg fun hno => Bool.noConfusion hno.1]
    rfl
  | false =>
    have hnodup : (s.due now).Nodup := by
      rw [due, hrun, if_neg Bool.false_ne_true]
      exact h.single.sublist (List.filter_sublist.map _)
    rw [hnodup.count]
    exact if_congr (((h.running hrun).mem_due_iff hpos).trans (and_iff_right rfl).symm) rfl rfl

theorem Drives.follow (h : s.Drives asked j period) (hperiod : Loop.tolerance < period)
    {turns : List (Turn J)} (hlog : s.Logs asked turns) :
    (s.follow turns).Drives (lastRest asked turns) j period := by
  induction turns generalizing s asked with
  | nil => exact h
  | cons x turns ih =>
    cases x with
    | rest now done => exact ih (h.tick hperiod hlog.1) hlog.2.2
    | cancel => exact ih h.cancel hlog

/-- **A rest does the job once if a multiple of its period has been passed since the last rest**,
and not at all otherwise or once the schedule has been cancelled. -/
theorem Logs.count_rest [DecidableEq J] {before after : List (Turn J)} {done : List J}
    (hlog : s.Logs asked (before ++ .rest now done :: after)) (h : s.Drives asked j period)
    (hperiod : Loop.tolerance < period) :
    done.count j =
      if (s.cancelled = false ∧ .cancel ∉ before) ∧
        lastRest asked before / period < now / period then 1 else 0 := by
  obtain ⟨hbefore, -, rfl, -⟩ := logs_append.mp hlog
  rw [(h.follow hperiod hbefore).count_due (Nat.zero_lt_of_lt hperiod)]
  exact if_congr (and_congr_left' (cancelled_follow s before)) rfl rfl

end Schedule

end Floodgate
