import Floodgate.Proofs.Station.AnyOrder
import Floodgate.Proofs.Station.DenialEnds
import Floodgate.Proofs.Station.Rounds

/-! # A round of the sweep

A sweep visits its sweepers in order, and a visit that fails ends the round: the sweepers up to that
one have been visited once, and those behind it not at all (`Station.getElem?_visitAll`), so a cache
behind it keeps what has run out (`Station.SweptAt.visitAll`). The other jobs touch neither sweepers
nor bans (`Station.sameCaches_performAll`), and the schedule goes on as if nothing had happened
(`Station.Tended.endure`). So at every rest of the clock the sweep is done on time and reaches as
far as nothing fails (`Station.round_ends_at_failure`), also at those on the way of a single move
(`Station.restAll_eq_endure`). -/

namespace Floodgate

/-! ### Rounds -/

namespace Sweeper

/-- Does a visit fail? -/
def fails : Sweeper → Bool
  | .peers | .keys => false
  | .outside _ fails => fails

/-- A sweeper after a visit. -/
def visited : Sweeper → Sweeper
  | .outside visits fails => .outside (visits + 1) fails
  | .peers => .peers
  | .keys => .keys

end Sweeper

/-- A round gets to the sweeper at an index: none in front of it fails. -/
def RoundReaches (ws : List Sweeper) (k : Nat) : Prop := ∀ w ∈ ws.take k, w.fails = false

/-- A round visits a sweeper. -/
def RoundVisits (ws : List Sweeper) (w : Sweeper) : Prop :=
  ∃ k < ws.length, ws[k]? = some w ∧ RoundReaches ws k

instance (ws : List Sweeper) (k : Nat) : Decidable (RoundReaches ws k) :=
  inferInstanceAs (Decidable (∀ w ∈ ws.take k, w.fails = false))

instance (ws : List Sweeper) (w : Sweeper) : Decidable (RoundVisits ws w) :=
  inferInstanceAs (Decidable (∃ k < ws.length, ws[k]? = some w ∧ RoundReaches ws k))

section Rounds

variable {w x : Sweeper} {ws : List Sweeper} {k : Nat}

theorem roundReaches_zero (ws : List Sweeper) : RoundReaches ws 0 :=
  fun _ hw => absurd hw List.not_mem_nil

theorem roundReaches_cons_succ :
    RoundReaches (w :: ws) (k + 1) ↔ w.fails = false ∧ RoundReaches ws k := by
  rw [RoundReaches, List.take_succ_cons, List.forall_mem_cons]
  rfl

theorem roundVisits_nil : ¬RoundVisits [] w := fun ⟨k, hk, _⟩ => Nat.not_lt_zero k hk

theorem roundVisits_cons :
    RoundVisits (w :: ws) x ↔ w = x ∨ w.fails = false ∧ RoundVisits ws x := by
  constructor
  · rintro ⟨k, hk, hx, hreach⟩
    cases k with
    | zero => exact .inl (Option.some.inj hx)
    | succ k =>
      obtain ⟨hw, hreach⟩ := roundReaches_cons_succ.mp hreach
      exact .inr ⟨hw, k, Nat.lt_of_succ_lt_succ hk, hx, hreach⟩
  · rintro (rfl | ⟨hw, k, hk, hx, hreach⟩)
    · exact ⟨0, Nat.succ_pos _, rfl, roundReaches_zero _⟩
    · exact ⟨k + 1, Nat.succ_lt_succ hk, hx, roundReaches_cons_succ.mpr ⟨hw, hreach⟩⟩

end Rounds

namespace Schedule

theorem jobs_follow {J : Type} (s : Schedule J) (turns : List (Turn J)) :
    (s.follow turns).loops.map (·.job) = s.loops.map (·.job) := by
  induction turns generalizing s with
  | nil => rfl
  | cons x turns ih =>
    refine (ih (s.turn x)).trans ?_
    cases x with
    | cancel => rfl
    | rest now done =>
      rw [turn, tick]
      split_ifs
      · rfl
      · rw [List.map_map]
        exact List.map_congr_left fun l _ => l.tick_job now

end Schedule

namespace Station

variable {js : List Job}

theorem visit_snd (s : Station) (w : Sweeper) : (s.visit w).2 = (w.visited, !w.fails) := by
  cases w <;> rfl

theorem visitAll_cons (s : Station) (w : Sweeper) (ws : List Sweeper) :
    s.visitAll (w :: ws) =
      if w.fails then ((s.visit w).1, w.visited :: ws)
      else (((s.visit w).1.visitAll ws).1, w.visited :: ((s.visit w).1.visitAll ws).2) := by
  have hvisit := visit_snd s w
  rw [visitAll]
  rcases hv : s.visit w with ⟨s', w', ok⟩
  rw [hv] at hvisit
  cases hw : w.fails with
  | true =>
    rw [hw] at hvisit
    cases hvisit
    rfl
  | false =>
    rw [hw] at hvisit
    cases hvisit
    rfl

/-- **A round visits each sweeper that it gets to once, and leaves the others as they are.** -/
theorem getElem?_visitAll (s : Station) (ws : List Sweeper) (k : Nat) :
    (s.visitAll ws).2[k]? = if RoundReaches ws k then ws[k]?.map (·.visited) else ws[k]? := by
  induction ws generalizing s k with
  | nil => exact (ite_self _).symm
  | cons w ws ih =>
    rw [visitAll_cons]
    cases k with
    | zero =>
      rw [if_pos (roundReaches_zero _)]
      split_ifs <;> rfl
    | succ k =>
      rw [if_congr roundReaches_cons_succ rfl rfl, List.getElem?_cons_succ]
      cases hw : w.fails with
      | true =>
        rw [if_pos rfl, if_neg fun h => Bool.noConfusion h.1]
        rfl
      | false =>
        rw [if_neg Bool.false_ne_true, if_congr (and_iff_right rfl) rfl rfl]
        exact ih (s.visit w).1 k

/-- A view of the bans that only visits to one sweeper touch. -/
structure SweptAt {α : Type} (target : Sweeper) (view : Station → Option (Lease α)) : Prop where
  visit : ∀ s w, view (s.visit w).1 =
    if w = target then (view s).filter fun l => !l.isExpired s.now else view s
  caches : ∀ s s' : Station, s'.gate.blacklist = s.gate.blacklist → s'.keys = s.keys →
    view s' = view s

theorem visit_now (s : Station) (w : Sweeper) : (s.visit w).1.now = s.now := by cases w <;> rfl

/-- **A round drops what has run out from the caches that it gets to, and from no others.** -/
theorem SweptAt.visitAll {α : Type} {target : Sweeper} {view : Station → Option (Lease α)}
    (h : SweptAt target view) (htarget : target.fails = false) (s : Station) (ws : List Sweeper) :
    view (s.visitAll ws).1 =
      if RoundVisits ws target then (view s).filter fun l => !l.isExpired s.now else view s := by
  induction ws generalizing s with
  | nil => exact (if_neg roundVisits_nil).symm
  | cons w ws ih =>
    have hfirst := h.visit s w
    have hrest := ih (s.visit w).1
    rw [visit_now] at hrest
    rw [visitAll_cons, if_congr roundVisits_cons rfl rfl]
    by_cases hw : w = target
    · -- a second visit in the same round finds nothing more
      rw [if_pos hw] at hfirst
      rw [if_pos (Or.inl hw), hw, htarget, if_neg Bool.false_ne_true, ← hw, hrest, hfirst,
        Option.filter_filter]
      simp only [Bool.and_self, ite_self]
    · rw [if_neg hw] at hfirst
      rw [hfirst] at hrest
      cases hfails : w.fails with
      | true =>
        have hno : ¬(w = target ∨ true = false ∧ RoundVisits ws target) := by simp [hw]
        rw [if_pos rfl, if_neg hno]
        exact hfirst
      | false =>
        have hiff : (w = target ∨ false = false ∧ RoundVisits ws target) ↔
            RoundVisits ws target := by simp [hw]
        rw [if_neg Bool.false_ne_true, if_congr hiff rfl rfl]
        exact hrest

theorem sweptAt_lease? (peer : PeerId) : SweptAt .peers fun s => s.lease? peer where
  visit s w := by
    cases w with
    | peers => exact Blacklist.lease?_sweep _ _ _
    | keys => rfl
    | outside visits fails => rfl
  caches _ _ hblacklist _ := congrArg (·.lease? peer) hblacklist

theorem sweptAt_keyLease? (key : PublicKey) : SweptAt .keys fun s => s.keyLease? key where
  visit s w := by
    cases w with
    | peers => rfl
    | keys => exact TimeCache.lease?_sweep _ _ _
    | outside visits fails => rfl
  caches _ _ _ hkeys := congrArg (·.lease? key) hkeys

/-! ### The other jobs -/

/-- Two stations have the same sweepers and bans at the same time. -/
structure SameCaches (s s' : Station) : Prop where
  sweepers : s'.sweepers = s.sweepers
  blacklist : s'.gate.blacklist = s.gate.blacklist
  keys : s'.keys = s.keys
  now : s'.now = s.now

theorem sameCaches_perform {j : Job} (hj : j ≠ .sweep) (s : Station) :
    SameCaches s (s.perform j).1 := by
  cases j with
  | resetLane i => exact ⟨rfl, Gate.resetLane_blacklist s.gate i, rfl, rfl⟩
  | resetTopics => exact ⟨rfl, rfl, rfl, rfl⟩
  | sweep => exact absurd rfl hj
  | print => exact ⟨rfl, rfl, rfl, rfl⟩

theorem sameCaches_performAll (h : .sweep ∉ js) (s : Station) :
    SameCaches s (s.performAll js).1 := by
  induction js generalizing s with
  | nil => exact ⟨rfl, rfl, rfl, rfl⟩
  | cons j js ih =>
    obtain ⟨hj, hjs⟩ := List.ne_and_not_mem_of_not_mem_cons h
    have hfirst := sameCaches_perform (Ne.symm hj) s
    have hrest := ih hjs (s.perform j).1
    exact ⟨hrest.sweepers.trans hfirst.sweepers, hrest.blacklist.trans hfirst.blacklist,
      hrest.keys.trans hfirst.keys, hrest.now.trans hfirst.now⟩

theorem exists_sweep (hnodup : js.Nodup) (h : .sweep ∈ js) (s : Station) :
    ∃ s', SameCaches s s' ∧ SameCaches s'.sweep (s.performAll js).1 := by
  obtain ⟨before, after, rfl⟩ := List.append_of_mem h
  obtain ⟨-, hafter, hdisjoint⟩ := List.nodup_append.mp hnodup
  have hfront : .sweep ∉ before := fun hmem => hdisjoint _ hmem _ List.mem_cons_self rfl
  refine ⟨(s.performAll before).1, sameCaches_performAll hfront s, ?_⟩
  rw [performAll_append]
  exact sameCaches_performAll (List.nodup_cons.mp hafter).1 _

/-- **Jobs with a sweep among them visit each sweeper that the round gets to once.** -/
theorem sweepers_performAll (hnodup : js.Nodup) (s : Station) (k : Nat) :
    (s.performAll js).1.sweepers[k]? =
      if .sweep ∈ js ∧ RoundReaches s.sweepers k then s.sweepers[k]?.map (·.visited)
      else s.sweepers[k]? := by
  by_cases h : .sweep ∈ js
  · obtain ⟨s', hbefore, hafter⟩ := exists_sweep hnodup h s
    rw [hafter.sweepers, if_congr (and_iff_right h) rfl rfl, ← hbefore.sweepers]
    exact getElem?_visitAll s' s'.sweepers k
  · rw [(sameCaches_performAll h s).sweepers, if_neg fun hno => h hno.1]

theorem SweptAt.performAll {α : Type} {target : Sweeper} {view : Station → Option (Lease α)}
    (hview : SweptAt target view) (htarget : target.fails = false) (hnodup : js.Nodup)
    (s : Station) :
    view (s.performAll js).1 =
      if .sweep ∈ js ∧ RoundVisits s.sweepers target then
        (view s).filter fun l => !l.isExpired s.now
      else view s := by
  by_cases h : .sweep ∈ js
  · obtain ⟨s', hbefore, hafter⟩ := exists_sweep hnodup h s
    have hround := hview.visitAll htarget s' s'.sweepers
    rw [hbefore.sweepers, hbefore.now, hview.caches s s' hbefore.blacklist hbefore.keys] at hround
    rw [hview.caches _ _ hafter.blacklist hafter.keys, if_congr (and_iff_right h) rfl rfl,
      ← hround, ← hbefore.sweepers]
    exact hview.caches _ _ rfl rfl
  · have hkept := sameCaches_performAll h s
    rw [if_neg fun hno => h hno.1]
    exact hview.caches _ _ hkept.blacklist hkept.keys

/-! ### Runs in which sweepers fail -/

end Station

/-- What happens in a run in which sweepers fail and recover. -/
inductive Trouble where
  | event (e : Event)
  /-- From now on the visits to the sweeper at an index fail, or they succeed. -/
  | fault (k : Nat) (fails : Bool)

/-- A sweeper whose visits fail from now on, or succeed; the caches of a station never fail. -/
def Sweeper.faulty (fails : Bool) : Sweeper → Sweeper
  | .outside visits _ => .outside visits fails
  | .peers => .peers
  | .keys => .keys

namespace Station

variable {s : Station}

/-- The station after an event or a fault. -/
def meetTrouble (s : Station) : Trouble → Station
  | .event e => s.happen e
  | .fault k fails => { s with sweepers := s.sweepers.modify k (·.faulty fails) }

/-- The station after events and faults. -/
def endure (s : Station) (xs : List Trouble) : Station := xs.foldl meetTrouble s

theorem endure_append (s : Station) (xs : List Trouble) (x : Trouble) :
    s.endure (xs ++ [x]) = (s.endure xs).meetTrouble x := by
  simp [endure, List.foldl_append]

/-- The protection is on, and the schedule does each job with a period of whole seconds on time. -/
structure Tended (s : Station) (jobs : List (Job × Span)) : Prop where
  enabled : s.enabled = true
  single : (s.schedule.loops.map (·.job)).Nodup
  drives : ∀ j n, (j, .ofSeconds n) ∈ jobs → 0 < n → s.schedule.Drives s.now j (.ofSeconds n)

theorem tended_of_start {gate : Gate} {resetsTopics runtime : Bool} {sweepers : List Sweeper}
    {journal : Option Journal} (hs : start gate resetsTopics sweepers journal runtime = .ok s) :
    s.Tended (jobs gate.lanes resetsTopics sweepers journal) := by
  obtain ⟨-, henabled, -, -, -, -, hschedule⟩ := of_start hs
  refine ⟨henabled, ?_, fun j n hj _ => drives_of_start hs hj⟩
  rw [hschedule, Schedule.start, List.map_map]
  exact nodup_jobs _ _ _ _

/-- **Neither events nor faults keep the schedule from doing its jobs on time.** -/
theorem Tended.meetTrouble {jobs : List (Job × Span)} (h : s.Tended jobs) (x : Trouble) :
    (s.meetTrouble x).Tended jobs := by
  cases x with
  | fault k fails => exact ⟨h.enabled, h.single, h.drives⟩
  | event e =>
    have hrun := records_happen h.enabled e
    refine ⟨hrun.enabled.trans h.enabled, ?_, fun j n hj hn => ?_⟩
    · show ((s.happen e).schedule.loops.map (·.job)).Nodup
      rw [hrun.schedule, Schedule.jobs_follow]
      exact h.single
    · show (s.happen e).schedule.Drives (s.happen e).now j (.ofSeconds n)
      rw [hrun.schedule, hrun.now]
      exact (h.drives j n hj hn).follow (Loop.tolerance_lt_ofSeconds hn) hrun.logs

theorem Tended.endure {jobs : List (Job × Span)} (h : s.Tended jobs) (xs : List Trouble) :
    (s.endure xs).Tended jobs := by
  induction xs using List.reverseRecOn with
  | nil => exact h
  | append_singleton xs x ih =>
    rw [endure_append]
    exact ih.meetTrouble x

/-- The rests of the clock on its way are moves of a run, so what holds after every run holds when
the clock rests in the middle of a move. -/
theorem restAll_eq_endure {ts : List Instant} (hts : (s.now :: ts).Pairwise (· ≤ ·)) :
    ∃ xs, (s.restAll ts).1 = s.endure xs := by
  induction ts generalizing s with
  | nil => exact ⟨[], rfl⟩
  | cons t ts ih =>
    obtain ⟨hle, hts⟩ := List.pairwise_cons.mp hts
    have hjump : (s.rest t).1 = s.meetTrouble (.event (.operation (.jump (t - s.now)))) := by
      show (s.rest t).1 = (s.rest (s.now + (t - s.now))).1
      rw [Nat.add_sub_cancel' (hle t List.mem_cons_self)]
    obtain ⟨xs, hxs⟩ := ih ((rest_now s t).symm ▸ hts)
    refine ⟨.event (.operation (.jump (t - s.now))) :: xs, hxs.trans ?_⟩
    rw [hjump]
    rfl

theorem Tended.nodup_due {jobs : List (Job × Span)} (h : s.Tended jobs) (now : Instant) :
    (s.schedule.due now).Nodup := by
  unfold Schedule.due
  split_ifs
  · exact List.nodup_nil
  · exact h.single.sublist (List.filter_sublist.map _)

/-- **A sweeper that fails ends the round and nothing else.** In every run of a station with
sweepers of which any that is no cache may fail at any time and recover, and at every rest of the
clock after it: each job whose period is a whole number of seconds is done once, if the period has
been completed since the last rest and the maintenance has not been cancelled, and not at all
otherwise. If the sweep is among them, each sweeper is visited once if no sweeper in front of it
fails, and not at all otherwise; and a cache in the list drops what has run out if no sweeper in
front of it fails, whatever those behind it do. -/
theorem round_ends_at_failure {gate : Gate} {resetsTopics runtime : Bool}
    {sweepers : List Sweeper} {journal : Option Journal}
    (hs : start gate resetsTopics sweepers journal runtime = .ok s) (xs : List Trouble)
    (now : Instant) :
    let before := s.endure xs
    let after := (before.rest now).1
    let done := before.schedule.due now
    (∀ j n, (j, .ofSeconds n) ∈ jobs gate.lanes resetsTopics sweepers journal → 0 < n →
      done.count j =
        if before.schedule.cancelled = false ∧
          before.now / Span.ofSeconds n < now / Span.ofSeconds n then 1 else 0) ∧
    (∀ k visits fails, before.sweepers[k]? = some (.outside visits fails) →
      after.sweepers[k]? =
        if .sweep ∈ done ∧ RoundReaches before.sweepers k then some (.outside (visits + 1) fails)
        else some (.outside visits fails)) ∧
    (∀ peer, after.lease? peer =
      if .sweep ∈ done ∧ RoundVisits before.sweepers .peers then
        (before.lease? peer).filter fun l => !l.isExpired now
      else before.lease? peer) ∧
    ∀ key, after.keyLease? key =
      if .sweep ∈ done ∧ RoundVisits before.sweepers .keys then
        (before.keyLease? key).filter fun l => !l.isExpired now
      else before.keyLease? key := by
  intro before after done
  have htended : before.Tended _ := (tended_of_start hs).endure xs
  have hnodup : done.Nodup := htended.nodup_due now
  refine ⟨fun j n hj hn => ?_, fun k visits fails hk => ?_, fun peer => ?_, fun key => ?_⟩
  · exact (htended.drives j n hj hn).count_due
      (Nat.zero_lt_of_lt (Loop.tolerance_lt_ofSeconds hn))
  · have hround := sweepers_performAll hnodup
      { before with now, schedule := before.schedule.tick now } k
    have hk' : ({ before with now, schedule := before.schedule.tick now } : Station).sweepers[k]? =
      some (.outside visits fails) := hk
    rw [hk'] at hround
    exact hround
  · exact (sweptAt_lease? peer).performAll rfl hnodup _
  · exact (sweptAt_keyLease? key).performAll rfl hnodup _

/-- A station that only sweeps, with two sweepers that are no caches. -/
def sweepingAround : Station :=
  { unattended (.new .unlimited []) with
    sweepers := [.outside 0 false, .peers, .outside 0 false, .keys]
    schedule := .start 0 [(.sweep, sweepInterval)] }

/-- A peer is denied for a second, five seconds later again, and then the second sweeper that is no
cache begins to fail. -/
def breakdown : List Trouble :=
  [.event (.operation (.deny selfSigned ⟨[1]⟩ "spam" (.ofSeconds 1))),
    .event (.operation (.advance (.ofSeconds 5))),
    .event (.operation (.deny selfSigned ⟨[1]⟩ "spam" (.ofSeconds 1))), .fault 2 true]

/-- The next round visits both sweepers that are no caches and drops the ban of the peer, but not
the ban of its key. -/
theorem breakdown_ends_round :
    let before := sweepingAround.endure breakdown
    let after := (before.rest (Span.ofSeconds 10)).1
    start (.new .unlimited []) false [.outside 0 false, .peers, .outside 0 false, .keys] none true =
        .ok sweepingAround ∧
      (before.schedule.due (Span.ofSeconds 10)).count .sweep = 1 ∧
      after.sweepers[2]? = some (.outside 2 true) ∧
      after.lease? ⟨[1]⟩ = none ∧ after.keyLease? [1] = before.keyLease? [1] ∧
      (before.keyLease? [1]).isSome = true := by
  intro before after
  have hstart : start (.new .unlimited []) false [.outside 0 false, .peers, .outside 0 false, .keys]
      none true = .ok sweepingAround := rfl
  obtain ⟨hjobs, hvisits, hpeers, hkeys⟩ :=
    round_ends_at_failure hstart breakdown (Span.ofSeconds 10)
  have hsweeps := hjobs .sweep 5 List.mem_cons_self (Nat.succ_pos 4)
  have hfired : (before.schedule.due (Span.ofSeconds 10)).count .sweep = 1 :=
    hsweeps.trans (if_pos (by decide +kernel))
  have hdone : .sweep ∈ before.schedule.due (Span.ofSeconds 10) :=
    List.count_pos_iff.mp (hfired ▸ Nat.one_pos)
  have hcounted : before.sweepers[2]? = some (.outside 1 true) := by decide +kernel
  have hthird := (hvisits 2 1 true hcounted).trans (if_pos ⟨hdone, by decide +kernel⟩)
  have hdropped := (hpeers ⟨[1]⟩).trans (if_pos ⟨hdone, by decide +kernel⟩)
  have hkept := (hkeys [1]).trans (if_neg fun h => absurd h.2 (by decide +kernel))
  exact ⟨hstart, hfired, hthird, hdropped.trans (by decide +kernel), hkept, by decide +kernel⟩

/-- A station whose first sweeper fails, with another one and the bans of peers behind it. -/
def sweepingBehind : Station :=
  { unattended (.new .unlimited []) with
    sweepers := [.outside 0 true, .outside 0 false, .peers]
    schedule := .start 0 [(.sweep, sweepInterval)] }

/-- The sweep is done, but the sweepers behind the one that fails are not visited: a ban of one
second is still there at the fifth. -/
theorem failing_sweeper_starves_others :
    let before := sweepingBehind.ban ⟨[1]⟩ "spam" (.ofSeconds 1)
    let after := (before.rest (Span.ofSeconds 5)).1
    start (.new .unlimited []) false [.outside 0 true, .outside 0 false, .peers] none true =
        .ok sweepingBehind ∧
      before.schedule.due (Span.ofSeconds 5) = [.sweep] ∧
      after.sweepers = [.outside 1 true, .outside 0 false, .peers] ∧
      after.lease? ⟨[1]⟩ = some ⟨0, .ofSeconds 1, ⟨"spam", Ban.external⟩⟩ ∧
      (⟨0, .ofSeconds 1, ⟨"spam", Ban.external⟩⟩ : Lease Ban).isExpired (Span.ofSeconds 5) = true :=
  ⟨rfl, by decide +kernel⟩

end Station

end Floodgate
