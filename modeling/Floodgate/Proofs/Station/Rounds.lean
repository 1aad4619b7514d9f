import Floodgate.Proofs.Clock.Rounds
import Floodgate.Proofs.Station.BanLifted

/-! # The maintenance of a station, round by round

The log of a run is what happens to the schedule in it: each rest of the clock with the jobs that
are done, and the end of the maintenance. Messages, bans, settings and jobs by hand leave the
schedule alone, so that a run of a station is a run of its schedule (`Station.records_after`). The
jobs of a station differ (`Station.nodup_jobs`), and each of them is done when the clock has passed
a multiple of its period, and at no other rest (`Station.fires_once_per_period`). -/

namespace Floodgate

namespace Station

/-! ### Logs -/

/-- The rests of the clock at a list of instants, with the jobs that are done. -/
def restLog (s : Station) : List Instant → List (Turn Job)
  | [] => []
  | t :: ts => .rest t (s.schedule.due t) :: (s.rest t).1.restLog ts

/-- What happens to the schedule at an event. -/
def turns (s : Station) : Event → List (Turn Job)
  | .operation (.advance span) => s.restLog (Instant.stops s.now (s.now + span))
  | .operation (.jump span) => s.restLog [s.now + span]
  | .operation .cancel => [.cancel]
  | _ => []

/-- What happens to the schedule in a run. -/
def log (s : Station) : List Event → List (Turn Job)
  | [] => []
  | e :: es => s.turns e ++ (s.happen e).log es

/-- A station becomes another one while its schedule goes through turns. -/
structure Records (s : Station) (turns : List (Turn Job)) (s' : Station) : Prop where
  enabled : s'.enabled = s.enabled
  schedule : s'.schedule = s.schedule.follow turns
  now : s'.now = lastRest s.now turns
  logs : s.schedule.Logs s.now turns

variable {s s' s'' : Station} {xs ys : List (Turn Job)}

theorem records_nil (enabled : s'.enabled = s.enabled) (schedule : s'.schedule = s.schedule)
    (now : s'.now = s.now) : s.Records [] s' := ⟨enabled, schedule, now, trivial⟩

theorem Records.trans (h : s.Records xs s') (h' : s'.Records ys s'') :
    s.Records (xs ++ ys) s'' where
  enabled := h'.enabled.trans h.enabled
  schedule := by rw [h'.schedule, h.schedule, Schedule.follow_append]
  now := by rw [h'.now, h.now, lastRest_append]
  logs := Schedule.logs_append.mpr ⟨h.logs, by rw [← h.schedule, ← h.now]; exact h'.logs⟩

theorem perform_schedule (s : Station) (j : Job) :
    (s.perform j).1.enabled = s.enabled ∧ (s.perform j).1.schedule = s.schedule := by
  cases j with
  | sweep =>
    exact visitAll_keeps (P := fun s' => s'.enabled = s.enabled ∧ s'.schedule = s.schedule)
      (fun s' w h => by cases w <;> exact h) ⟨rfl, rfl⟩ s.sweepers
  | resetLane i => exact ⟨rfl, rfl⟩
  | resetTopics => exact ⟨rfl, rfl⟩
  | print => exact ⟨rfl, rfl⟩

/-- **A rest of the clock is one turn**: the schedule ticks, whatever the jobs do. -/
theorem records_rest {now : Instant} (hle : s.now ≤ now) :
    s.Records [.rest now (s.schedule.due now)] (s.rest now).1 := by
  have hkept := performAll_keeps
    (P := fun s' => s'.enabled = s.enabled ∧ s'.schedule = s.schedule.tick now)
    (fun s' j h => ⟨(perform_schedule s' j).1.trans h.1, (perform_schedule s' j).2.trans h.2⟩)
    (s := { s with now, schedule := s.schedule.tick now }) ⟨rfl, rfl⟩ (s.schedule.due now)
  exact ⟨hkept.1, hkept.2, rest_now s now, hle, rfl, trivial⟩

theorem records_restAll {ts : List Instant} (hts : (s.now :: ts).Pairwise (· ≤ ·)) :
    s.Records (s.restLog ts) (s.restAll ts).1 := by
  induction ts generalizing s with
  | nil => exact records_nil rfl rfl rfl
  | cons t ts ih =>
    obtain ⟨hle, hts⟩ := List.pairwise_cons.mp hts
    have hrest := records_rest (hle t List.mem_cons_self)
    exact hrest.trans (ih ((rest_now s t).symm ▸ hts))

theorem records_happen (enabled : s.enabled = true) (e : Event) :
    s.Records (s.turns e) (s.happen e) := by
  cases e with
  | operation o =>
    cases hkind : o.isForeground with
    | true =>
      obtain ⟨gate, keys, journal, observer, recorded, happly, -⟩ := apply_foreground enabled hkind
      have hturns : s.turns (.operation o) = [] := by cases o <;> first | rfl | cases hkind
      rw [hturns, happen, happly]
      exact records_nil rfl rfl rfl
    | false =>
      cases o with
      | perform j =>
        exact records_nil (perform_schedule s j).1 (perform_schedule s j).2 (perform_now s j)
      | visit w => cases w <;> exact records_nil rfl rfl rfl
      | advance span => exact records_restAll (Instant.pairwise_stops (Nat.le_add_right _ _))
      | jump span => exact records_rest (Nat.le_add_right _ _)
      | cancel => exact ⟨rfl, rfl, rfl, trivial⟩
      | _ => cases hkind
  | enter peer entry span => exact records_nil rfl rfl rfl
  | lift peer => exact records_nil rfl rfl rfl

/-- **A run of a station is a run of its schedule.** -/
theorem records_after (enabled : s.enabled = true) (es : List Event) :
    s.Records (s.log es) (s.after es) := by
  induction es generalizing s with
  | nil => exact records_nil rfl rfl rfl
  | cons e es ih =>
    have he := records_happen enabled e
    exact he.trans (ih (he.enabled.trans enabled))

/-! ### Jobs -/

variable {gate : Gate} {resetsTopics runtime : Bool} {sweepers : List Sweeper}
  {journal : Option Journal} {j : Job} {period : Span}

theorem nodup_jobs (lanes : List Lane) (resetsTopics : Bool) (sweepers : List Sweeper)
    (journal : Option Journal) :
    ((jobs lanes resetsTopics sweepers journal).map Prod.fst).Nodup := by
  have hlanes : ∀ f : Lane × Nat → Job × Span, (∀ x, (f x).1 = .resetLane x.2) →
      (lanes.zipIdx.map f).map Prod.fst = (List.range' 0 lanes.length).map Job.resetLane := by
    intro f hf
    rw [List.map_map, ← List.zipIdx_map_snd, List.map_map]
    exact List.map_congr_left fun x _ => hf x
  have hnodup : ((List.range' 0 lanes.length).map Job.resetLane).Nodup :=
    List.Nodup.map (fun _ _ h => Job.resetLane.inj h) List.nodup_range'
  rw [jobs, List.map_append, List.map_append, List.map_append, hlanes _ fun _ => rfl]
  cases resetsTopics <;> cases sweepers <;> cases journal <;>
    simp [hnodup, List.nodup_append]

theorem drives_of_start (hs : start gate resetsTopics sweepers journal runtime = .ok s)
    (hj : (j, period) ∈ jobs gate.lanes resetsTopics sweepers journal) :
    s.schedule.Drives s.now j period := by
  obtain ⟨-, -, hnow, -, -, -, hschedule⟩ := of_start hs
  rw [hnow, hschedule]
  exact Schedule.drives_start hj (nodup_jobs _ _ _ _)

/-- **Each job is done once when the clock has passed a multiple of its period.** In every run of a
station, whose clock rests wherever the moves of the run make it rest, a job whose period is a whole
number of seconds is done at a rest exactly once, if the period has been completed since the last
rest before it, the first one being the start, and if the maintenance has not been cancelled before;
otherwise it is not done. So it is not done before one period is over, nor after the maintenance has
been cancelled, and it is done at the first rest of a period or not at all in it; and its loop is
due at a multiple of the period throughout. -/
theorem fires_once_per_period (hs : start gate resetsTopics sweepers journal runtime = .ok s)
    {n : Nat} (hj : (j, .ofSeconds n) ∈ jobs gate.lanes resetsTopics sweepers journal)
    (positive : 0 < n) (es : List Event) :
    let p := Span.ofSeconds n
    (∀ l ∈ (s.after es).schedule.loops, l.job = j → p ∣ l.due) ∧
      ∀ before now done later, s.log es = before ++ .rest now done :: later →
        done.count j =
            (if .cancel ∉ before ∧ lastRest 0 before / p < now / p then 1 else 0) ∧
          (now < p → j ∉ done) ∧
          (.cancel ∈ before → j ∉ done) ∧
          (j ∈ done → ∀ t done', .rest t done' ∈ before → t / p < now / p) := by
  intro p
  have hlong : Loop.tolerance < p := Loop.tolerance_lt_ofSeconds positive
  obtain ⟨-, enabled, hnow, -, -, -, hschedule⟩ := of_start hs
  have hdrives : s.schedule.Drives s.now j p := drives_of_start hs hj
  have hrun := records_after enabled es
  refine ⟨?_, fun before now done later hlog => ?_⟩
  · rw [hrun.schedule]
    exact (hdrives.follow hlong hrun.logs).multiple
  have hlogs : s.schedule.Logs s.now (before ++ .rest now done :: later) := hlog ▸ hrun.logs
  have hcancelled : s.schedule.cancelled = false := hschedule ▸ rfl
  have hcount := hlogs.count_rest hdrives hlong
  rw [hnow, if_congr (and_congr_left' (and_iff_right hcancelled)) rfl rfl] at hcount
  have hmem : j ∈ done ↔ .cancel ∉ before ∧ lastRest 0 before / p < now / p := by
    rw [← List.count_pos_iff, hcount]
    split_ifs with h
    · exact iff_of_true Nat.one_pos h
    · exact iff_of_false (Nat.lt_irrefl 0) h
  refine ⟨hcount, fun hearly hdone => ?_, fun hend hdone => (hmem.mp hdone).1 hend,
    fun hdone t done' ht => ?_⟩
  · have hpassed := (hmem.mp hdone).2
    rw [Nat.div_eq_of_lt hearly] at hpassed
    exact Nat.not_lt_zero _ hpassed
  · have hle : t ≤ lastRest 0 before := by
      rw [← hnow]
      exact (Schedule.logs_append.mp hlogs).1.le_lastRest.2 t done' ht
    exact (Nat.div_le_div_right hle).trans_lt (hmem.mp hdone).2

/-- A station that only sweeps. -/
def sweeping : Station :=
  { unattended (.new .unlimited []) with
    sweepers := [.peers, .keys]
    schedule := .start 0 [(.sweep, sweepInterval)] }

/-- Seven seconds in one go, four more with a rest at each, twenty in one go, and twenty more after
the end of the maintenance. -/
def strides : List Event :=
  [.operation (.jump (.ofSeconds 7)), .operation (.advance (.ofSeconds 4)),
    .operation (.jump (.ofSeconds 20)), .operation .cancel, .operation (.jump (.ofSeconds 20))]

/-- The rests of the clock in the first eleven seconds. -/
def firstRests : List (Turn Job) :=
  [.rest (Span.ofSeconds 7) [.sweep], .rest (Span.ofSeconds 8) [], .rest (Span.ofSeconds 9) [],
    .rest (Span.ofSeconds 10) [.sweep], .rest (Span.ofSeconds 11) []]

/-- The rest after 31 seconds does the sweep once, the rest after 51 seconds not at all. -/
theorem strides_swept :
    start (.new .unlimited []) false [.peers, .keys] none true = .ok sweeping ∧
      ∃ done done', sweeping.log strides =
          firstRests ++
            [.rest (Span.ofSeconds 31) done, .cancel, .rest (Span.ofSeconds 51) done'] ∧
        done.count .sweep = 1 ∧ .sweep ∉ done' := by
  have hstart : start (.new .unlimited []) false [.peers, .keys] none true = .ok sweeping := rfl
  have hlog : sweeping.log strides =
      firstRests ++
        [.rest (Span.ofSeconds 31) [.sweep], .cancel, .rest (Span.ofSeconds 51) []] := by
    decide +kernel
  have hrounds :=
    (fires_once_per_period hstart (n := 5) List.mem_cons_self (Nat.succ_pos 4) strides).2
  have hended := hrounds (firstRests ++ [.rest (Span.ofSeconds 31) [.sweep], .cancel]) _ _ [] hlog
  refine ⟨hstart, _, _, hlog, ?_, hended.2.2.1 (by simp)⟩
  exact (hrounds firstRests _ _ _ hlog).1.trans (by decide)

end Station

end Floodgate
