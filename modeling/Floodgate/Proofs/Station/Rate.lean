import Floodgate.Proofs.Gate.Arrival
import Floodgate.Proofs.Station.Rounds

/-! # The rate of a station

The calls on a tier of a station are the messages that arrive at its lane and the resets that the
maintenance makes, each at the instant at which it happens (`Station.calls`, `Station.occur_tier`).
They come in the order of time, and if only the maintenance resets the tier, no two resets lie in
the same period; if the loops are asked at every whole second, the resets are multiples of the
period. This is the invariant `Station.Paced`, and every moment of a run keeps it
(`Station.Paced.occur`). So the messages of a peer that a tier admits in any window of time are
bounded (`Station.admitted_in_window_le`). -/

namespace Floodgate

/-- What happens in a run whose maintenance may be late. -/
inductive Moment where
  | event (e : Event)
  /-- Time passes while no loop is asked. -/
  | lapse (span : Span)

/-- The loops are asked at every whole second that the clock passes at a moment. -/
def Moment.Punctual (now : Instant) : Moment → Prop
  | .event (.operation (.jump span)) => Instant.Near now (now + span)
  | .lapse _ => False
  | .event _ => True

namespace Station

/-! ### The calls on a tier -/

/-- The station after a moment. -/
def occur (s : Station) : Moment → Station
  | .event e => s.happen e
  | .lapse span => { s with now := s.now + span }

/-- The loops are asked at every whole second of a run. -/
def Punctual (s : Station) : List Moment → Prop
  | [] => True
  | m :: ms => m.Punctual s.now ∧ (s.occur m).Punctual ms

/-- The calls of jobs on the tier of a lane. -/
def jobCalls (i : Nat) (now : Instant) (js : List Job) : List TimedCall :=
  List.replicate (js.count (.resetLane i)) ⟨now, .reset⟩

/-- The calls on the tier of a lane while the clock rests at instants. -/
def restCalls (s : Station) (i : Nat) : List Instant → List TimedCall
  | [] => []
  | t :: ts => jobCalls i t (s.schedule.due t) ++ (s.rest t).1.restCalls i ts

/-- The calls of an operation on the tier of a lane. -/
def operationCalls (s : Station) (i : Nat) : Operation → List TimedCall
  | .screen m =>
    if s.enabled = true ∧ s.gate.Reaches m i then
      [⟨s.now, .message m.peerClass m.peer m.size⟩]
    else []
  | .consumeAt j c peer size => if j = i then [⟨s.now, .message c peer size⟩] else []
  | .perform j => jobCalls i s.now [j]
  | .advance span => s.restCalls i (Instant.stops s.now (s.now + span))
  | .jump span => s.restCalls i [s.now + span]
  | .screenBatch .. | .ban .. | .deny .. | .resetTopic _ | .setLimit .. | .setObserver _ | .visit _
  | .cancel => []

/-- The calls of a moment on the tier of a lane. -/
def momentCalls (s : Station) (i : Nat) : Moment → List TimedCall
  | .event (.operation o) => s.operationCalls i o
  | .event (.enter ..) | .event (.lift _) | .lapse _ => []

/-- The calls of a run on the tier of a lane. -/
def calls (s : Station) (i : Nat) : List Moment → List TimedCall
  | [] => []
  | m :: ms => s.momentCalls i m ++ (s.occur m).calls i ms

/-- When the tier of a lane admits messages of a peer, in a run. -/
def admissions (s : Station) (i : Nat) (peer : PeerId) : List Moment → List Instant
  | [] => []
  | m :: ms =>
    ((s.gate.tier? i).map (·.admissions peer (s.momentCalls i m))).getD [] ++
      (s.occur m).admissions i peer ms

variable {s : Station} {i : Nat} {t : Tier} {peer : PeerId}

theorem jobCalls_cons (i : Nat) (now : Instant) (j : Job) (js : List Job) :
    jobCalls i now (j :: js) = jobCalls i now [j] ++ jobCalls i now js := by
  unfold jobCalls
  rw [← List.replicate_add, ← List.count_append, List.singleton_append]

theorem jobCalls_singleton (i : Nat) (now : Instant) (j : Job) :
    jobCalls i now [j] = if j = .resetLane i then [⟨now, .reset⟩] else [] := by
  unfold jobCalls
  split_ifs with hj
  · rw [hj, List.count_singleton_self]
    rfl
  · rw [List.count_eq_zero.mpr fun hmem => hj (List.mem_singleton.mp hmem).symm]
    rfl

theorem resets_jobCalls (i : Nat) (now : Instant) (js : List Job) :
    resets (jobCalls i now js) = List.replicate (js.count (.resetLane i)) now :=
  List.filterMap_replicate_of_some rfl

theorem operationCalls_foreground (s : Station) (i : Nat) {o : Operation}
    (h : o.isForeground = true) :
    (∀ x ∈ s.operationCalls i o, x.now = s.now) ∧ resets (s.operationCalls i o) = [] := by
  cases o with
  | screen m =>
    rw [operationCalls]
    split_ifs
    · exact ⟨List.forall_mem_singleton.mpr rfl, rfl⟩
    · exact ⟨fun x hx => absurd hx List.not_mem_nil, rfl⟩
  | consumeAt j c peer size =>
    rw [operationCalls]
    split_ifs
    · exact ⟨List.forall_mem_singleton.mpr rfl, rfl⟩
    · exact ⟨fun x hx => absurd hx List.not_mem_nil, rfl⟩
  | perform j => cases h
  | advance span => cases h
  | jump span => cases h
  | _ => exact ⟨fun x hx => absurd hx List.not_mem_nil, rfl⟩

/-! ### The tier follows its calls -/

theorem perform_tier (h : s.gate.tier? i = some t) (now : Instant) (j : Job) :
    (s.perform j).1.gate.tier? i = some (t.after (jobCalls i now [j])) := by
  rw [jobCalls_singleton, apply_ite t.after]
  cases j with
  | resetLane k =>
    rw [if_congr (Job.resetLane.injEq k i).to_iff rfl rfl]
    exact Gate.resetLane_tier h k
  | sweep =>
    exact visitAll_keeps (P := fun s' => s'.gate.tier? i = some t)
      (fun s' w h => by cases w <;> exact h) h s.sweepers
  | resetTopics => exact h
  | print => exact h

theorem performAll_tier (h : s.gate.tier? i = some t) (now : Instant) (js : List Job) :
    (s.performAll js).1.gate.tier? i = some (t.after (jobCalls i now js)) := by
  induction js generalizing s t with
  | nil => exact h
  | cons j js ih =>
    rw [jobCalls_cons, Tier.after_append]
    exact ih (perform_tier h now j)

theorem restAll_tier (h : s.gate.tier? i = some t) (ts : List Instant) :
    (s.restAll ts).1.gate.tier? i = some (t.after (s.restCalls i ts)) := by
  induction ts generalizing s t with
  | nil => exact h
  | cons now ts ih =>
    rw [restCalls, Tier.after_append]
    refine ih (s := (s.rest now).1) ?_
    exact performAll_tier (s := { s with now, schedule := s.schedule.tick now }) h now _

/-- **An operation makes its calls on a tier, and changes it in no other way.** -/
theorem apply_tier (enabled : s.enabled = true) (h : s.gate.tier? i = some t) (o : Operation) :
    (s.apply o).gate.tier? i = some (t.after (s.operationCalls i o)) := by
  cases o with
  | screen m =>
    rw [apply, screen_eq enabled, notify_gate, Gate.screen_tier h, operationCalls,
      if_congr (and_iff_right enabled) rfl rfl, apply_ite t.after]
    rfl
  | screenBatch peer topic messages size =>
    rw [apply, screenBatch_eq enabled, notify_gate, Gate.tier?, Gate.screenBatch_lanes]
    exact h
  | consumeAt j c peer size =>
    have hgate := Gate.consumeAt_tier h s.now j c peer size
    rw [operationCalls, apply_ite t.after, apply]
    rcases hc : s.gate.consumeAt s.now j c peer size with _ | ⟨gate, a⟩
    · rw [hc] at hgate
      exact hgate
    · rw [hc] at hgate
      exact hgate
  | ban peer reason span =>
    rw [apply, ban, if_pos enabled]
    exact h
  | resetTopic topic =>
    rw [apply, resetTopic, if_pos enabled]
    exact h
  | setLimit topic max =>
    rw [apply, setLimit, if_pos enabled]
    exact h
  | setObserver o =>
    rw [apply, setObserver, if_pos enabled]
    exact h
  | deny directory peer reason span => exact h
  | perform j => exact perform_tier h s.now j
  | visit w => cases w <;> exact h
  | advance span => exact restAll_tier h _
  | jump span => exact restAll_tier h [s.now + span]
  | cancel => exact h

theorem occur_tier (enabled : s.enabled = true) (h : s.gate.tier? i = some t) (m : Moment) :
    (s.occur m).gate.tier? i = some (t.after (s.momentCalls i m)) := by
  cases m with
  | event e =>
    cases e with
    | operation o => exact apply_tier enabled h o
    | enter q entry span => exact h
    | lift q => exact h
  | lapse span => exact h

/-! ### The order of the calls -/

/-- The calls of a run on a tier come in the order of time, and no two resets lie in the same
period. The loop that resets the tier was last asked at an instant; if it is asked at every whole
second, that is now, and the resets are multiples of the period. -/
structure Paced (i : Nat) (p : Span) (punctual : Prop) (s : Station) (asked : Instant)
    (calls : List TimedCall) : Prop where
  enabled : s.enabled = true
  drives : s.schedule.Drives asked (.resetLane i) p
  asked_le : asked ≤ s.now
  inOrder : InOrder calls
  le_now : ∀ x ∈ calls, x.now ≤ s.now
  apart : Instant.Apart p (resets calls)
  le_asked : ∀ r ∈ resets calls, r / p ≤ asked / p
  onTime : punctual → asked = s.now ∧ ∀ r ∈ resets calls, p ∣ r

namespace Paced

variable {p : Span} {punctual : Prop} {s' : Station} {asked asked' : Instant}
  {calls xs : List TimedCall}

/-- **One step of a run**: calls that are made now, with resets in periods that have come since the
loop was last asked. -/
theorem extend (h : Paced i p punctual s asked calls) (enabled : s'.enabled = true)
    (drives : s'.schedule.Drives asked' (.resetLane i) p) (hasked : asked ≤ asked')
    (hasked' : asked' ≤ s'.now) (hnow : s.now ≤ s'.now) (hxs : ∀ x ∈ xs, x.now = s'.now)
    (hapart : Instant.Apart p (resets xs))
    (hresets : ∀ r ∈ resets xs, asked / p < r / p ∧ r / p ≤ asked' / p ∧ (punctual → p ∣ r))
    (hpunctual : punctual → asked' = s'.now) : Paced i p punctual s' asked' (calls ++ xs) where
  enabled := enabled
  drives := drives
  asked_le := hasked'
  inOrder := by
    refine List.pairwise_append.mpr ⟨h.inOrder, ?_, fun x hx y hy => ?_⟩
    · exact List.pairwise_of_forall_mem_list fun x hx y hy => ((hxs x hx).trans (hxs y hy).symm).le
    · exact ((h.le_now x hx).trans hnow).trans (hxs y hy).ge
  le_now := List.forall_mem_append.mpr
    ⟨fun x hx => (h.le_now x hx).trans hnow, fun x hx => (hxs x hx).le⟩
  apart := by
    rw [resets_append]
    exact List.pairwise_append.mpr
      ⟨h.apart, hapart, fun r hr u hu => (h.le_asked r hr).trans_lt (hresets u hu).1⟩
  le_asked := by
    rw [resets_append]
    exact List.forall_mem_append.mpr
      ⟨fun r hr => (h.le_asked r hr).trans (Nat.div_le_div_right hasked),
        fun r hr => (hresets r hr).2.1⟩
  onTime hp := by
    rw [resets_append]
    exact ⟨hpunctual hp,
      List.forall_mem_append.mpr ⟨(h.onTime hp).2, fun r hr => (hresets r hr).2.2 hp⟩⟩

theorem still (h : Paced i p punctual s asked calls) (enabled : s'.enabled = true)
    (drives : s'.schedule.Drives asked (.resetLane i) p) (hnow : s'.now = s.now)
    (hxs : ∀ x ∈ xs, x.now = s.now) (hresets : resets xs = []) :
    Paced i p punctual s' asked (calls ++ xs) := by
  refine h.extend enabled drives (Nat.le_refl _) (hnow ▸ h.asked_le) hnow.ge
    (fun x hx => (hxs x hx).trans hnow.symm) ?_ ?_ fun hp => (h.onTime hp).1.trans hnow.symm
  · rw [hresets]
    exact List.Pairwise.nil
  · rw [hresets]
    exact fun r hr => absurd hr List.not_mem_nil

/-- **The loop is asked**, and resets the tier once if the period has been completed. -/
theorem rest {n : Nat} (h : Paced i (.ofSeconds n) punctual s asked calls) (hn : 0 < n)
    {now : Instant} (hnow : s.now ≤ now) (hnear : punctual → Instant.Near s.now now) :
    Paced i (.ofSeconds n) punctual (s.rest now).1 now
      (calls ++ jobCalls i now (s.schedule.due now)) := by
  have hlong : Loop.tolerance < Span.ofSeconds n := Loop.tolerance_lt_ofSeconds hn
  have hle : asked ≤ now := h.asked_le.trans hnow
  obtain ⟨henabled, hschedule, -, -⟩ := records_rest hnow
  have hresets : resets (jobCalls i now (s.schedule.due now)) =
      if s.schedule.cancelled = false ∧ asked / Span.ofSeconds n < now / Span.ofSeconds n then
        [now]
      else [] := by
    rw [resets_jobCalls, h.drives.count_due (Nat.zero_lt_of_lt hlong)]
    exact apply_ite (List.replicate · now) _ _ _
  refine h.extend (henabled.trans h.enabled) ?_ hle (rest_now s now).ge
    (hnow.trans (rest_now s now).ge) ?_ ?_ ?_ fun _ => (rest_now s now).symm
  · rw [hschedule]
    exact h.drives.tick hlong hle
  · rw [rest_now]
    exact fun x hx => by rw [List.eq_of_mem_replicate hx]
  · rw [hresets]
    split_ifs
    · exact List.pairwise_singleton _ _
    · exact List.Pairwise.nil
  · rw [hresets]
    split_ifs with hdue
    · refine List.forall_mem_singleton.mpr ⟨hdue.2, Nat.le_refl _, fun hp => ?_⟩
      exact (hnear hp).dvd hn ((h.onTime hp).1 ▸ hdue.2)
    · exact fun r hr => absurd hr List.not_mem_nil

theorem restAll {n : Nat} (h : Paced i (.ofSeconds n) punctual s asked calls) (hn : 0 < n)
    {ts : List Instant} (hts : (s.now :: ts).Pairwise (· ≤ ·))
    (hnear : punctual → (s.now :: ts).IsChain Instant.Near) :
    ∃ asked', Paced i (.ofSeconds n) punctual (s.restAll ts).1 asked'
      (calls ++ s.restCalls i ts) := by
  induction ts generalizing s asked calls with
  | nil => exact ⟨asked, (List.append_nil calls).symm ▸ h⟩
  | cons now ts ih =>
    obtain ⟨hle, hts⟩ := List.pairwise_cons.mp hts
    have hrest := h.rest hn (hle now List.mem_cons_self)
      fun hp => (List.isChain_cons_cons.mp (hnear hp)).1
    rw [restCalls, ← List.append_assoc]
    exact ih hrest ((rest_now s now).symm ▸ hts)
      fun hp => (rest_now s now).symm ▸ (List.isChain_cons_cons.mp (hnear hp)).2

/-- **Whatever happens, the calls keep their pace.** -/
theorem occur {n : Nat} (h : Paced i (.ofSeconds n) punctual s asked calls) (hn : 0 < n)
    {m : Moment} (hm : m ≠ .event (.operation (.perform (.resetLane i))))
    (hp : punctual → m.Punctual s.now) :
    ∃ asked', Paced i (.ofSeconds n) punctual (s.occur m) asked' (calls ++ s.momentCalls i m) := by
  cases m with
  | lapse span =>
    exact ⟨asked, h.extend h.enabled h.drives (Nat.le_refl _)
      (h.asked_le.trans (Nat.le_add_right _ _)) (Nat.le_add_right _ _)
      (fun x hx => absurd hx List.not_mem_nil) List.Pairwise.nil
      (fun r hr => absurd hr List.not_mem_nil) fun hp' => (hp hp').elim⟩
  | event e =>
    -- what makes no call and leaves the schedule alone
    have hstill : ∀ {s' : Station}, s'.enabled = s.enabled → s'.schedule = s.schedule →
        s'.now = s.now → ∃ asked', Paced i (.ofSeconds n) punctual s' asked' (calls ++ []) :=
      fun henabled hschedule hnow => ⟨asked, h.still (henabled.trans h.enabled)
        (hschedule ▸ h.drives) hnow (fun x hx => absurd hx List.not_mem_nil) rfl⟩
    cases e with
    | enter q entry span => exact hstill rfl rfl rfl
    | lift q => exact hstill rfl rfl rfl
    | operation o =>
      cases hkind : o.isForeground with
      | true =>
        obtain ⟨gate, keys, journal, observer, recorded, happly, -⟩ :=
          apply_foreground h.enabled hkind
        obtain ⟨hxs, hresets⟩ := s.operationCalls_foreground i hkind
        have hoccur : s.occur (.event (.operation o)) = s.apply o := rfl
        rw [hoccur, happly]
        exact ⟨asked, h.still h.enabled h.drives rfl hxs hresets⟩
      | false =>
        cases o with
        | perform j =>
          have hj : j ≠ .resetLane i := fun hj => hm (hj ▸ rfl)
          have hnone : s.momentCalls i (.event (.operation (.perform j))) = [] :=
            (jobCalls_singleton i s.now j).trans (if_neg hj)
          rw [hnone]
          exact hstill (perform_schedule s j).1 (perform_schedule s j).2 (perform_now s j)
        | visit w => cases w <;> exact hstill rfl rfl rfl
        | advance span =>
          exact h.restAll hn (Instant.pairwise_stops (Nat.le_add_right _ _))
            fun _ => Instant.isChain_stops (Nat.le_add_right _ _)
        | jump span =>
          have hstop : (s.now :: [s.now + span]).Pairwise (· ≤ ·) := by simp
          exact h.restAll hn hstop fun hp' => List.isChain_pair.mpr (hp hp')
        | cancel =>
          exact ⟨asked, h.still h.enabled h.drives.cancel rfl
            (fun x hx => absurd hx List.not_mem_nil) rfl⟩
        | _ => cases hkind

end Paced

/-! ### Runs -/

theorem occur_enabled (enabled : s.enabled = true) (m : Moment) : (s.occur m).enabled = true := by
  cases m with
  | event e => exact (records_happen enabled e).enabled.trans enabled
  | lapse span => exact enabled

/-- **What the tier of a lane admits is what it makes of its calls.** -/
theorem admissions_eq (enabled : s.enabled = true) (h : s.gate.tier? i = some t) (peer : PeerId)
    (ms : List Moment) : s.admissions i peer ms = t.admissions peer (s.calls i ms) := by
  induction ms generalizing s t with
  | nil => rfl
  | cons m ms ih =>
    rw [admissions, calls, Tier.admissions_append, h,
      ih (occur_enabled enabled m) (occur_tier enabled h m)]
    rfl

/-- **Every tier admits the messages that pass the station.** -/
theorem admissions_of_screen_ok (enabled : s.enabled = true) (h : s.gate.tier? i = some t)
    {m : Message} (hok : (s.screen m).2 = .ok ()) :
    s.admissions i m.peer [.event (.operation (.screen m))] = [s.now] := by
  rw [screen_eq enabled] at hok
  obtain ⟨hreach, hall⟩ := Gate.reaches_of_screen_ok hok i
  obtain ⟨l, hl, rfl⟩ := Option.map_eq_some_iff.mp h
  have hadmits : (l.tier.consume m.peerClass m.peer m.size).2.2 = .admitted :=
    hall l (List.mem_of_getElem? hl)
  have hcalls : s.calls i [.event (.operation (.screen m))] =
      [⟨s.now, .message m.peerClass m.peer m.size⟩] :=
    (List.append_nil _).trans (if_pos ⟨enabled, hreach⟩)
  rw [admissions_eq enabled h, hcalls, Tier.admissions, Tier.admission_message,
    if_pos ⟨rfl, congrArg Admission.isAdmitted hadmits⟩]
  rfl

theorem Paced.run {n : Nat} {punctual : Prop} {asked : Instant} {calls : List TimedCall}
    (h : Paced i (.ofSeconds n) punctual s asked calls) (hn : 0 < n) {ms : List Moment}
    (hms : .event (.operation (.perform (.resetLane i))) ∉ ms)
    (hp : punctual → s.Punctual ms) :
    ∃ s' asked', Paced i (.ofSeconds n) punctual s' asked' (calls ++ s.calls i ms) := by
  induction ms generalizing s asked calls with
  | nil => exact ⟨s, asked, (List.append_nil calls).symm ▸ h⟩
  | cons m ms ih =>
    obtain ⟨asked', h'⟩ := h.occur hn (fun hm => hms (hm ▸ List.mem_cons_self))
      fun hp' => (hp hp').1
    rw [Station.calls, ← List.append_assoc]
    exact ih h' (fun hmem => hms (List.mem_cons_of_mem _ hmem)) fun hp' => (hp hp').2

variable {gate : Gate} {resetsTopics runtime : Bool} {sweepers : List Sweeper}
  {journal : Option Journal} {speed : Speed} {c : TierConfig} {cache : CacheConfig}

theorem mem_jobs_resetLane {lanes : List Lane} {l : Lane} (h : lanes[i]? = some l) :
    (.resetLane i, l.tier.policy.interval) ∈ jobs lanes resetsTopics sweepers journal := by
  have hmem : (l, i) ∈ lanes.zipIdx := List.mk_mem_zipIdx_iff_getElem?.mpr h
  rw [jobs, List.append_assoc, List.append_assoc]
  exact List.mem_append_left _ (List.mem_map_of_mem hmem)

theorem paced_start (hs : start gate resetsTopics sweepers journal runtime = .ok s)
    (h : gate.tier? i = some t) (punctual : Prop) :
    Paced i t.policy.interval punctual s 0 [] := by
  obtain ⟨l, hl, rfl⟩ := Option.map_eq_some_iff.mp h
  have hdrives := drives_of_start hs (mem_jobs_resetLane hl)
  obtain ⟨-, enabled, hnow, -⟩ := of_start hs
  rw [hnow] at hdrives
  exact
    { enabled := enabled
      drives := hdrives
      asked_le := Nat.zero_le _
      inOrder := List.Pairwise.nil
      le_now := fun x hx => absurd hx List.not_mem_nil
      apart := List.Pairwise.nil
      le_asked := fun r hr => absurd hr List.not_mem_nil
      onTime := fun _ => ⟨hnow.symm, fun r hr => absurd hr List.not_mem_nil⟩ }

/-- **The messages of a peer that a tier admits in a window of time are bounded.** Let only the
maintenance reset the tier, and consider any run: messages, each with the class that its sender has
at that moment, moves of the clock, the end of the maintenance, and everything else that can happen.
In every window the tier admits the messages of the peer of no more intervals than the window takes
to pass and two more, each within the largest budget, if that is below the largest count; and of one
more only, if the loops are asked at every whole second. So within one interval it then admits twice
the budget at most. -/
theorem admitted_in_window_le (hs : start gate resetsTopics sweepers journal runtime = .ok s)
    (hlane : gate.tier? i = some t) (ht : Tier.make? speed c cache = .ok t) {ms : List Moment}
    (scheduled : .event (.operation (.perform (.resetLane i))) ∉ ms) (peer : PeerId)
    (since : Instant) (width : Span) :
    let max := (t.policy.budget .reserved c.input.increase.isActive).maxMessages
    let admitted := Instant.window since width (s.admissions i peer ms)
    max < countLimit →
      admitted.length ≤ (width ⌈/⌉ c.interval + 2) * max ∧
        (s.Punctual ms → admitted.length ≤ (width ⌈/⌉ c.interval + 1) * max ∧
          (width ≤ c.interval → admitted.length ≤ 2 * max)) := by
  intro max admitted hlt
  obtain ⟨hseconds, hinterval⟩ := Tier.interval_of_make? ht
  have hpos : 0 < c.interval := Nat.mul_pos hseconds (by decide)
  obtain ⟨-, enabled, -, hgate, -⟩ := of_start hs
  have hadmitted : s.admissions i peer ms = t.admissions peer (s.calls i ms) :=
    admissions_eq enabled (hgate ▸ hlane) peer ms
  have hpaced := hinterval ▸ paced_start hs hlane (s.Punctual ms)
  obtain ⟨s', asked, hrun⟩ := hpaced.run hseconds scheduled id
  rw [List.nil_append] at hrun
  -- one interval before each reset in the window, and one after the last
  have hcount : admitted.length ≤
      ((Instant.window since width (resets (s.calls i ms))).length + 1) * max := by
    show (Instant.window since width (s.admissions i peer ms)).length ≤ _
    rw [hadmitted]
    exact Tier.length_window_admissions_le
      (fun calls => Tier.length_admittedOf_le ht hlt calls peer) hrun.inOrder since width
  refine ⟨hcount.trans (Nat.mul_le_mul_right _ (Nat.succ_le_succ ?_)), fun hpunctual => ?_⟩
  · exact Instant.length_window_le hrun.apart hpos since width
  · have hresets := Instant.length_window_le_of_dvd hrun.apart hpos (hrun.onTime hpunctual).2
      since width
    have hle := hcount.trans (Nat.mul_le_mul_right _ (Nat.succ_le_succ hresets))
    refine ⟨hle, fun hwidth => hle.trans (Nat.mul_le_mul_right _ (Nat.succ_le_succ ?_))⟩
    exact (ceilDiv_le_iff_le_smul hpos).mpr (hwidth.trans_eq (Nat.mul_one _).symm)

/-- A gate with the tier of the narrow budget alone. -/
def narrowGate : Gate :=
  .new .unlimited [{ tier := .narrow, watch := .new .fast Tier.narrowConfig.ban }]

/-- The station around it, with nothing to maintain but the tier. -/
def narrowStation : Station :=
  { unattended narrowGate with schedule := .start 0 [(.resetLane 0, .ofSeconds 1)] }

/-- A validator sends five messages. -/
def burst : List Moment :=
  List.replicate 4 (.event (.operation (.screen ⟨⟨[1]⟩, .reserved, "blocks", 10⟩))) ++
    [.event (.operation (.consumeAt 0 .reserved ⟨[1]⟩ 10))]

/-- One burst at the end of an interval, and one at the start of the next. -/
def bursts : List Moment :=
  .event (.operation (.advance (.ofMilliseconds 999))) :: burst ++
    .event (.operation (.advance (.ofMilliseconds 1))) :: burst

/-- Within one interval of time twice the budget of four messages is admitted, and no more. -/
theorem bursts_admitted :
    let admitted := Instant.window (Span.ofMilliseconds 500) (.ofSeconds 1)
      (narrowStation.admissions 0 ⟨[1]⟩ bursts)
    start narrowGate false [] none true = .ok narrowStation ∧
      Tier.make? .fast Tier.narrowConfig {} = .ok Tier.narrow ∧
      (Tier.narrow.policy.budget .reserved true).maxMessages = 4 ∧ admitted.length = 8 ∧
      admitted.length ≤ 2 * 4 := by
  have hstart : start narrowGate false [] none true = .ok narrowStation := rfl
  have hmax : (Tier.narrow.policy.budget .reserved true).maxMessages = 4 := by decide +kernel
  have hscheduled : .event (.operation (.perform (.resetLane 0))) ∉ bursts := by
    simp [bursts, burst]
  have hpunctual : narrowStation.Punctual bursts := by
    simp [bursts, burst, Punctual, Moment.Punctual]
  have hactive : Tier.narrowConfig.input.increase.isActive = true := by decide +kernel
  have hbound := admitted_in_window_le hstart (i := 0) rfl Tier.make?_narrow hscheduled ⟨[1]⟩
    (Span.ofMilliseconds 500) (.ofSeconds 1)
  simp only [hactive, hmax] at hbound
  refine ⟨hstart, Tier.make?_narrow, hmax, by decide +kernel, ?_⟩
  exact ((hbound (by decide)).2 hpunctual).2 (Nat.le_refl _)

end Station

end Floodgate
