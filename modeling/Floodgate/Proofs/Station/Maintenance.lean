import Floodgate.Proofs.Cache.Lease
import Floodgate.Proofs.Clock.Periods
import Floodgate.Proofs.Clock.Ticks
import Floodgate.Proofs.Station.Build
import Floodgate.Proofs.Station.Operation

/-! # Maintained stations

A station of enabled settings sweeps its bans every five seconds, and whatever happens to it goes on
doing so until it is cancelled (`Station.Maintained.apply`). When the clock rests, the leases of
bans that have run out are dropped if a multiple of the sweep interval has been passed, and kept
otherwise (`Station.Swept.rest`).

So a ban that is left alone stays until the first sweep at its end or after it, as long as the clock
skips no whole second: this is the invariant `Station.Serves`, and a rest of the clock keeps it. -/

namespace Floodgate

namespace Station

/-! ### Sweeping -/

/-- The lease of a peer's ban. -/
def lease? (s : Station) (peer : PeerId) : Option (Lease Ban) := s.gate.blacklist.lease? peer

/-- The maintenance of a station runs, and it sweeps the bans on time. -/
structure Maintained (s : Station) : Prop where
  enabled : s.enabled = true
  sweepers : s.sweepers = [.peers, .keys]
  sweeps : s.schedule.Maintains s.now .sweep sweepInterval

variable {s : Station} {now : Instant} {peer : PeerId}

theorem mem_jobs_sweep {lanes : List Lane} {resetsTopics : Bool} {sweepers : List Sweeper}
    {journal : Option Journal} {period : Span} :
    (.sweep, period) ∈ jobs lanes resetsTopics sweepers journal ↔
      sweepers ≠ [] ∧ period = sweepInterval := by
  cases sweepers <;> cases resetsTopics <;> simp [jobs]

theorem maintained_build {c : Config} {journal : JournalConfig} {runtime : Bool}
    (hs : build c journal runtime = .ok s) (enabled : c.enabled = true) : s.Maintained := by
  obtain ⟨lanes, topics, kept, -, -, -, hstart⟩ := of_build hs enabled
  obtain ⟨-, hon, hnow, -, -, hsweepers, hschedule⟩ := of_start hstart
  refine ⟨hon, hsweepers, ?_⟩
  rw [hnow, hschedule]
  exact Schedule.maintains_start (mem_jobs_sweep.mpr ⟨List.cons_ne_nil _ _, rfl⟩)
    fun p hp => (mem_jobs_sweep.mp hp).2

theorem sweep_eq (h : s.sweepers = [.peers, .keys]) :
    s.sweep =
      { s with
        gate := s.gate.withBlacklist (s.gate.blacklist.sweep s.now)
        keys := s.keys.sweep s.now } := by
  unfold sweep
  rw [h]
  cases s
  cases h
  rfl

theorem Maintained.perform (h : s.Maintained) (j : Job) : (s.perform j).1.Maintained := by
  cases j with
  | sweep =>
    rw [Station.perform, sweep_eq h.sweepers]
    exact ⟨h.enabled, h.sweepers, h.sweeps⟩
  | resetLane i => exact ⟨h.enabled, h.sweepers, h.sweeps⟩
  | resetTopics => exact ⟨h.enabled, h.sweepers, h.sweeps⟩
  | print => exact ⟨h.enabled, h.sweepers, h.sweeps⟩

theorem Maintained.perform_lease? (h : s.Maintained) (j : Job) (peer : PeerId) :
    (s.perform j).1.lease? peer =
      if j = .sweep then (s.lease? peer).filter fun l => !l.isExpired s.now else s.lease? peer := by
  cases j with
  | sweep =>
    rw [Station.perform, sweep_eq h.sweepers, if_pos rfl]
    exact Blacklist.lease?_sweep _ _ _
  | resetLane i =>
    rw [if_neg Job.noConfusion]
    exact congrArg (·.lease? peer) (Gate.resetLane_blacklist s.gate i)
  | resetTopics => rfl
  | print => rfl

/-- A lease of a station that of the jobs only the sweep touches, and the clock not at all. -/
structure Swept {α : Type} (view : Station → Option (Lease α)) : Prop where
  perform : ∀ {s : Station}, s.Maintained → ∀ j,
    view (s.perform j).1 =
      if j = .sweep then (view s).filter fun l => !l.isExpired s.now else view s
  clock : ∀ (s : Station) now schedule, view { s with now, schedule } = view s

theorem swept_lease? (peer : PeerId) : Swept fun s => s.lease? peer :=
  ⟨fun h j => h.perform_lease? j peer, fun _ _ _ => rfl⟩

variable {α : Type} {view : Station → Option (Lease α)}

theorem Swept.performAll (hview : Swept view) (h : s.Maintained) (js : List Job) :
    view (s.performAll js).1 =
      if .sweep ∈ js then (view s).filter fun l => !l.isExpired s.now else view s := by
  induction js generalizing s with
  | nil => rfl
  | cons j js ih =>
    have hstep := ih (h.perform j)
    rw [perform_now, hview.perform h j] at hstep
    refine hstep.trans ?_
    by_cases hj : j = .sweep
    · -- a second sweep at the same instant finds nothing more
      have hmem : .sweep ∈ j :: js := hj ▸ List.mem_cons_self
      simp only [if_pos hj, if_pos hmem, Option.filter_filter, Bool.and_self, ite_self]
    · have hmem : .sweep ∈ j :: js ↔ .sweep ∈ js := by simp [Ne.symm hj]
      rw [if_neg hj]
      exact (if_congr hmem rfl rfl).symm

theorem Maintained.rest (h : s.Maintained) (hle : s.now ≤ now) : (s.rest now).1.Maintained :=
  performAll_keeps (fun _ j h => h.perform j)
    ⟨h.enabled, h.sweepers, h.sweeps.tick (by decide) hle⟩ _

/-- **A rest of the clock drops what has run out, if it has passed a multiple of the interval.** -/
theorem Swept.rest (hview : Swept view) (h : s.Maintained) (hle : s.now ≤ now) :
    view (s.rest now).1 =
      if s.now / sweepInterval < now / sweepInterval then
        (view s).filter fun l => !l.isExpired now
      else view s := by
  have hmoved : Maintained { s with now, schedule := s.schedule.tick now } :=
    ⟨h.enabled, h.sweepers, h.sweeps.tick (by decide) hle⟩
  have hdue : .sweep ∈ s.schedule.due now ↔ s.now / sweepInterval < now / sweepInterval :=
    h.sweeps.mem_due_iff (by decide)
  rw [← if_congr hdue rfl rfl, ← hview.clock s now (s.schedule.tick now)]
  exact hview.performAll hmoved _

theorem Maintained.restAll (h : s.Maintained) {ts : List Instant}
    (hts : (s.now :: ts).IsChain Instant.Near) : (s.restAll ts).1.Maintained := by
  induction ts generalizing s with
  | nil => exact h
  | cons t ts ih =>
    obtain ⟨hnear, hts⟩ := List.isChain_cons_cons.mp hts
    exact ih (h.rest hnear.1) ((rest_now s t).symm ▸ hts)

/-- **Whatever happens, the maintenance goes on until it is cancelled.** -/
theorem Maintained.apply (h : s.Maintained) {o : Operation} (ho : o ≠ .cancel) :
    (s.apply o).Maintained := by
  cases hkind : o.isForeground with
  | true =>
    obtain ⟨gate, keys, journal, observer, recorded, happly, -⟩ :=
      apply_foreground h.enabled hkind
    rw [happly]
    exact ⟨h.enabled, h.sweepers, h.sweeps⟩
  | false =>
    cases o with
    | perform j => exact h.perform j
    | visit w => cases w <;> exact ⟨h.enabled, h.sweepers, h.sweeps⟩
    | advance span => exact h.restAll (Instant.isChain_stops (Nat.le_add_right _ _))
    | jump span => exact h.rest (Nat.le_add_right _ _)
    | cancel => exact absurd rfl ho
    | _ => cases hkind

theorem Maintained.now_le_apply (h : s.Maintained) (o : Operation) : s.now ≤ (s.apply o).now := by
  have hjob : ∀ (s' : Station) j, s.now ≤ s'.now → s.now ≤ (s'.perform j).1.now :=
    fun s' j hle => hle.trans (perform_now s' j).ge
  have hclock : ∀ (s' : Station) now schedule, s'.now ≤ now → s.now ≤ s'.now →
      s.now ≤ { s' with now, schedule }.now := fun s' now schedule hlater hle => hle.trans hlater
  cases hkind : o.isForeground with
  | true =>
    obtain ⟨gate, keys, journal, observer, recorded, happly, -⟩ :=
      apply_foreground h.enabled hkind
    rw [happly]
  | false =>
    cases o with
    | perform j => exact hjob s j (Nat.le_refl _)
    | visit w => cases w <;> exact Nat.le_refl _
    | advance span =>
      exact advance_keeps (P := fun s' => s.now ≤ s'.now) hjob hclock (Nat.le_refl _) span
    | jump span =>
      exact jump_keeps (P := fun s' => s.now ≤ s'.now) hjob hclock (Nat.le_refl _) span
    | cancel => exact Nat.le_refl _
    | _ => cases hkind

/-! ### A ban that is left alone -/

/-- The first multiple of the sweep interval that is not before an instant. -/
def nextSweep (i : Instant) : Instant := i ⌈/⌉ sweepInterval * sweepInterval

theorem le_nextSweep (i : Instant) : i ≤ nextSweep i := Instant.le_ceilDiv_mul (by decide) i

theorem nextSweep_le {i : Instant} {k : Nat} (h : i ≤ k * sweepInterval) :
    nextSweep i ≤ k * sweepInterval := by
  refine Nat.mul_le_mul_right _ ((ceilDiv_le_iff_le_smul (by decide)).mpr ?_)
  rwa [smul_eq_mul, Nat.mul_comm]

theorem mul_sweepInterval (k : Nat) : k * sweepInterval = k * 5 * Span.second :=
  (Nat.mul_assoc k 5 Span.second).symm

/-- A sweep that comes before the one looked for comes before the end itself. -/
theorem lt_of_lt_nextSweep {now' finish : Instant} (hnear : Instant.Near now now')
    (hsweep : now / sweepInterval < now' / sweepInterval) (h : now' < nextSweep finish) :
    now' < finish := by
  have hdvd : sweepInterval ∣ now' := hnear.dvd (n := 5) (by decide) hsweep
  have hat : now' / sweepInterval * sweepInterval = now' := Nat.div_mul_cancel hdvd
  by_contra hended
  have hnext : nextSweep finish ≤ now' / sweepInterval * sweepInterval :=
    nextSweep_le ((Nat.le_of_not_lt hended).trans hat.ge)
  exact absurd h (Nat.not_lt_of_le (hnext.trans hat.le))

theorem sweeps_of_nextSweep_le {now' finish : Instant} (hbefore : now < nextSweep finish)
    (h : nextSweep finish ≤ now') : now / sweepInterval < now' / sweepInterval :=
  ((Nat.div_lt_iff_lt_mul (by decide)).mpr hbefore).trans_le
    ((Nat.le_div_iff_mul_le (by decide)).mpr h)

/-- **A station has the lease of a ban until the first sweep that finds it run out, and not from
then on.** -/
structure Serves (s : Station) (peer : PeerId) (l : Lease Ban) : Prop where
  maintained : s.Maintained
  representable : Span.seconds (l.refreshedAt + l.span) ≤ Instant.lastSecond
  lease : s.lease? peer = if s.now < nextSweep (l.refreshedAt + l.span) then some l else none

variable {l : Lease Ban}

/-- **The clock goes on without skipping a whole second, and the ban is served.** -/
theorem Serves.rest (h : s.Serves peer l) (hnear : Instant.Near s.now now) :
    (s.rest now).1.Serves peer l := by
  refine ⟨h.maintained.rest hnear.1, h.representable, ?_⟩
  have hlease := (swept_lease? peer).rest h.maintained hnear.1
  rw [h.lease] at hlease
  rw [rest_now, hlease]
  by_cases hbefore : s.now < nextSweep (l.refreshedAt + l.span)
  · rw [if_pos hbefore]
    by_cases hafter : now < nextSweep (l.refreshedAt + l.span)
    · rw [if_pos hafter]
      split_ifs with hsweep
      · have hruns : l.isExpired now = false :=
          Lease.isExpired_eq_false (lt_of_lt_nextSweep hnear hsweep hafter)
        rw [Option.filter_some, hruns]
        rfl
      · rfl
    · have hreached : nextSweep (l.refreshedAt + l.span) ≤ now := Nat.le_of_not_lt hafter
      have hexpired : l.isExpired now = true :=
        Lease.isExpired_iff.mpr ⟨h.representable, (le_nextSweep _).trans hreached⟩
      rw [if_pos (sweeps_of_nextSweep_le hbefore hreached), if_neg hafter, Option.filter_some,
        hexpired]
      rfl
  · have hlater : ¬now < nextSweep (l.refreshedAt + l.span) :=
      fun hlt => hbefore (Nat.lt_of_le_of_lt hnear.1 hlt)
    rw [if_neg hbefore, if_neg hlater, Option.filter_none, ite_self]

theorem Serves.restAll (h : s.Serves peer l) {ts : List Instant}
    (hts : (s.now :: ts).IsChain Instant.Near) : (s.restAll ts).1.Serves peer l := by
  induction ts generalizing s with
  | nil => exact h
  | cons t ts ih =>
    obtain ⟨hnear, hts⟩ := List.isChain_cons_cons.mp hts
    exact ih (h.rest hnear) ((rest_now s t).symm ▸ hts)

end Station

end Floodgate
