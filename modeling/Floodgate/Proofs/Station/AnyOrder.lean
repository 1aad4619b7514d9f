import Floodgate.Proofs.Station.Terms

/-! # Maintenance in any order

The jobs of the maintenance share what they work on: every lane writes to one board, and the bans
that the sweep drops are those that the watches of the lanes have issued. Still, the jobs that are
due at one instant may be done in any order. The resets of two lanes write to different panels of
the board, for a station has at most one lane of each speed (`Station.Composed`, which no incident
changes), and every other pair of jobs works on different parts (`Station.Composed.pair_comm`). An
exchange of neighbours is therefore harmless, and so is every permutation
(`Station.Composed.performAll_perm`). -/

namespace Floodgate

theorem Board.publish_comm (b : Board) {p q : Speed} (h : p ≠ q) (t u : Totals) :
    (b.publish p t).publish q u = (b.publish q u).publish p t := by
  cases p <;> cases q <;> first | exact absurd rfl h | rfl

theorem Board.speed_eq_of_metric_eq {p q : Speed} {m n : String} (h : metric p m = metric q n) :
    p = q := by
  -- the names of the speeds differ in their first letters
  have hfirst : ∀ (r : Speed) k, (metric r k).toList.head? = r.name.toList.head? := by
    intro r k
    have hchars : (metric r k).toList = r.name.toList ++ (".".toList ++ k.toList) := by
      simp [metric, toString]
    rw [hchars]
    cases r <;> rfl
  have hname : p.name.toList.head? = q.name.toList.head? := by rw [← hfirst p m, h, hfirst]
  cases p <;> cases q <;> first | rfl | exact absurd hname (by decide)

namespace Gate

/-- The speeds of the lanes. -/
def speeds (g : Gate) : List Speed := g.lanes.map Lane.speed

theorem speeds_eq (g : Gate) : g.speeds = g.terms.map (·.speed) := by
  rw [terms, List.map_map]
  rfl

/-! ### Resets of two lanes -/

variable {g : Gate} {i j : Nat} {l l' : Lane}

theorem index_eq_of_speed_eq (h : g.speeds.Nodup) (hi : g.lanes[i]? = some l)
    (hj : g.lanes[j]? = some l') (hspeed : l.speed = l'.speed) : i = j := by
  have hsi : g.speeds[i]? = some l.speed := by rw [speeds, List.getElem?_map, hi]; rfl
  have hsj : g.speeds[j]? = some l.speed := by rw [speeds, List.getElem?_map, hj, hspeed]; rfl
  obtain ⟨hlt, -⟩ := List.getElem?_eq_some_iff.mp hsi
  exact (List.getElem?_inj hlt h).mp (hsi.trans hsj.symm)

theorem resetLane_of_none (h : g.lanes[i]? = none) : g.resetLane i = g := by rw [resetLane, h]

theorem resetLane_of_some (h : g.lanes[i]? = some l) :
    g.resetLane i =
      { g with
        ledger := (l.reset g.ledger).2
        lanes := g.lanes.set i (l.reset g.ledger).1 } := by
  rw [resetLane, h]

theorem lane_resetLane_of_ne (h : i ≠ j) : (g.resetLane i).lanes[j]? = g.lanes[j]? := by
  rcases hi : g.lanes[i]? with _ | l
  · rw [resetLane_of_none hi]
  · rw [resetLane_of_some hi]
    exact List.getElem?_set_ne h

/-- **The resets of two lanes commute**: each starts its own lane afresh and publishes on the panel
of its own speed. -/
theorem resetLane_comm (h : g.speeds.Nodup) (i j : Nat) :
    (g.resetLane i).resetLane j = (g.resetLane j).resetLane i := by
  rcases Decidable.eq_or_ne i j with rfl | hne
  · rfl
  rcases hi : g.lanes[i]? with _ | l
  · rw [resetLane_of_none hi, resetLane_of_none ((lane_resetLane_of_ne hne.symm).trans hi)]
  rcases hj : g.lanes[j]? with _ | l'
  · rw [resetLane_of_none hj, resetLane_of_none ((lane_resetLane_of_ne hne).trans hj)]
  have hspeeds : l.speed ≠ l'.speed := fun hsame => hne (index_eq_of_speed_eq h hi hj hsame)
  rw [resetLane_of_some ((lane_resetLane_of_ne hne).trans hj),
    resetLane_of_some ((lane_resetLane_of_ne hne.symm).trans hi), resetLane_of_some hi,
    resetLane_of_some hj]
  have hboard := Board.publish_comm g.ledger.board hspeeds
  have hlanes := List.set_comm (l.reset g.ledger).1 (l'.reset g.ledger).1 hne (l := g.lanes)
  simp only [Lane.reset] at hlanes ⊢
  rw [hboard, hlanes]

theorem resetLane_withBlacklist (g : Gate) (b : Blacklist) (i : Nat) :
    (g.withBlacklist b).resetLane i = (g.resetLane i).withBlacklist b := by
  rcases hi : g.lanes[i]? with _ | l
  · have hi' : (g.withBlacklist b).lanes[i]? = none := hi
    rw [resetLane_of_none hi', resetLane_of_none hi]
  · have hi' : (g.withBlacklist b).lanes[i]? = some l := hi
    rw [resetLane_of_some hi', resetLane_of_some hi]
    rfl

theorem resetLane_topics (g : Gate) (i : Nat) : (g.resetLane i).topics = g.topics := by
  unfold resetLane
  rcases g.lanes[i]? with _ | l <;> rfl

theorem resetLane_withTopics (g : Gate) (topics : Topics) (i : Nat) :
    ({ g with topics } : Gate).resetLane i = { g.resetLane i with topics } := by
  rcases hi : g.lanes[i]? with _ | l
  · have hi' : ({ g with topics } : Gate).lanes[i]? = none := hi
    rw [resetLane_of_none hi', resetLane_of_none hi]
  · have hi' : ({ g with topics } : Gate).lanes[i]? = some l := hi
    rw [resetLane_of_some hi', resetLane_of_some hi]

end Gate

namespace Station

/-! ### What no incident changes -/

/-- A station sweeps the bans of peers and keys, and has at most one lane of each speed. -/
structure Composed (s : Station) : Prop where
  sweepers : s.sweepers = [.peers, .keys]
  speeds : s.gate.speeds.Nodup

variable {s : Station}

theorem speeds_of_lanes? {c : Config} {lanes : List Lane} (h : lanes? c = .ok lanes) :
    lanes.map Lane.speed = Speed.all := by
  refine (map_of_mapM_eq_ok (k := Prod.fst) (fun t l hl => ?_) h).trans rfl
  exact congrArg Lane.Terms.speed (Lane.terms_of_make? hl)

theorem composed_build {c : Config} {journal : JournalConfig} {runtime : Bool}
    (hs : build c journal runtime = .ok s) (enabled : c.enabled = true) : s.Composed := by
  obtain ⟨lanes, topics, kept, -, hlanes, -, hstart⟩ := of_build hs enabled
  obtain ⟨-, -, -, hgate, -, hsweepers, -⟩ := of_start hstart
  refine ⟨hsweepers, ?_⟩
  rw [hgate]
  show (lanes.map Lane.speed).Nodup
  rw [speeds_of_lanes? hlanes]
  decide

theorem Composed.sweep (h : s.Composed) : s.sweep.Composed := by
  rw [sweep_eq h.sweepers]
  exact ⟨h.sweepers, h.speeds⟩

/-- What a station is composed of is settled by the terms of its lanes and by its sweepers. -/
theorem steady_composed : Steady Composed := by
  intro s gate keys journal observer recorded now schedule hterms h
  have hspeeds : gate.speeds = s.gate.speeds := by
    rw [Gate.speeds_eq, Gate.speeds_eq, hterms]
  exact ⟨h.sweepers, hspeeds.symm ▸ h.speeds⟩

theorem Composed.perform (h : s.Composed) (j : Job) : (s.perform j).1.Composed :=
  steady_composed.perform (fun _ h => h.sweep) h j

/-- **No incident changes what a station is composed of.** -/
theorem Composed.meet (h : s.Composed) (i : Incident) : (s.meet i).Composed :=
  steady_composed.meet (fun _ h => h.sweep) h i

theorem Composed.through (h : s.Composed) (is : List Incident) : (s.through is).Composed :=
  through_keeps (fun _ i h => h.meet i) h is

/-! ### An exchange of two jobs -/

/-- The rows of a print, if there is a journal. -/
def printed (s : Station) : List JournalRow := (s.journal.map (·.rows)).getD []

theorem perform_rows (s : Station) (j : Job) :
    (s.perform j).2 = if j = .print then s.printed else [] := by
  cases j <;> rfl

theorem Composed.perform_journal (h : s.Composed) {j : Job} (hj : j ≠ .print) :
    (s.perform j).1.journal = s.journal := by
  cases j with
  | sweep => rw [Station.perform, sweep_eq h.sweepers]
  | resetLane i => rfl
  | resetTopics => rfl
  | print => exact absurd rfl hj

theorem Composed.sweep_comm (h : s.Composed) (j : Job) :
    (s.perform j).1.sweep = (s.sweep.perform j).1 := by
  cases j with
  | sweep => rfl
  | resetLane i =>
    have hgate := Gate.resetLane_withBlacklist s.gate (s.gate.blacklist.sweep s.now) i
    have hbans := Gate.resetLane_blacklist s.gate i
    rw [sweep_eq (h.perform _).sweepers, sweep_eq h.sweepers]
    simp only [Station.perform, hgate, hbans]
  | resetTopics =>
    rw [sweep_eq (h.perform _).sweepers, sweep_eq h.sweepers]
    rfl
  | print =>
    rw [sweep_eq (h.perform _).sweepers, sweep_eq h.sweepers]
    rfl

theorem Composed.resetLane_comm (h : s.Composed) (i : Nat) (j : Job) :
    ((s.perform (.resetLane i)).1.perform j).1 = ((s.perform j).1.perform (.resetLane i)).1 := by
  cases j with
  | sweep => exact h.sweep_comm (.resetLane i)
  | resetLane k =>
    have hgate := Gate.resetLane_comm h.speeds i k
    simp only [Station.perform, hgate]
  | resetTopics =>
    have hgate := Gate.resetLane_withTopics s.gate s.gate.topics.reset i
    simp only [Station.perform, hgate, Gate.resetLane_topics]
  | print => rfl

theorem Composed.perform_comm (h : s.Composed) (i j : Job) :
    ((s.perform i).1.perform j).1 = ((s.perform j).1.perform i).1 := by
  cases i with
  | sweep => exact (h.sweep_comm j).symm
  | resetLane i => exact h.resetLane_comm i j
  | resetTopics =>
    cases j with
    | sweep => exact h.sweep_comm .resetTopics
    | resetLane k => exact (h.resetLane_comm k .resetTopics).symm
    | resetTopics => rfl
    | print => rfl
  | print =>
    cases j with
    | sweep => exact h.sweep_comm .print
    | resetLane k => exact (h.resetLane_comm k .print).symm
    | resetTopics => rfl
    | print => rfl

/-- **Two jobs may be exchanged**, and together they print the same. -/
theorem Composed.pair_comm (h : s.Composed) (i j : Job) :
    s.performAll [i, j] = s.performAll [j, i] := by
  have hrows : (s.perform i).2 ++ ((s.perform i).1.perform j).2 =
      (s.perform j).2 ++ ((s.perform j).1.perform i).2 := by
    rcases Decidable.eq_or_ne i j with rfl | hne
    · rfl
    simp only [perform_rows]
    by_cases hi : i = .print
    · have hj : j ≠ .print := fun hj => hne (hi.trans hj.symm)
      rw [if_pos hi, if_neg hj, if_neg hj, if_pos hi, printed, printed, h.perform_journal hj,
        List.append_nil, List.nil_append]
    · by_cases hj : j = .print
      · rw [if_neg hi, if_pos hj, if_pos hj, if_neg hi, printed, printed, h.perform_journal hi,
          List.append_nil, List.nil_append]
      · rw [if_neg hi, if_neg hj, if_neg hj, if_neg hi]
  refine Prod.ext (h.perform_comm i j) ?_
  simpa [performAll] using hrows

/-! ### Any order -/

theorem performAll_append (s : Station) (is js : List Job) :
    s.performAll (is ++ js) =
      (((s.performAll is).1.performAll js).1,
        (s.performAll is).2 ++ ((s.performAll is).1.performAll js).2) := by
  induction is generalizing s with
  | nil => rfl
  | cons i is ih =>
    simp only [List.cons_append, performAll, ih, List.append_assoc]

/-- **Jobs may be done in any order.** -/
theorem Composed.performAll_perm (h : s.Composed) {is js : List Job} (hperm : is.Perm js) :
    s.performAll is = s.performAll js := by
  induction hperm generalizing s with
  | nil => rfl
  | cons j _ ih => simp only [performAll, ih (h.perform j)]
  | swap i j js =>
    have hsplit : ∀ k l : Job, k :: l :: js = [k, l] ++ js := fun k l => rfl
    rw [hsplit, hsplit, performAll_append, performAll_append, h.pair_comm]
  | trans _ _ ih₁ ih₂ => exact (ih₁ h).trans (ih₂ h)

/-- **The jobs that are due at one instant may be done in any order.** In every run of a station of
enabled settings, whatever is done to its parts by hand, and whether or not its maintenance has been
late or cancelled: when the clock comes to rest, jobs lead to the same station and the same rows in
whichever order they are done; so the jobs that are due lead in every order to the station and the
rows of that rest of the clock. The lanes publish under different names. -/
theorem due_jobs_in_any_order {c : Config} {journal : JournalConfig} {runtime : Bool}
    (hs : build c journal runtime = .ok s) (enabled : c.enabled = true) (is : List Incident)
    (now : Instant) :
    let s' := s.through is
    let moved := { s' with now, schedule := s'.schedule.tick now }
    (∀ js js' : List Job, js.Perm js' → moved.performAll js = moved.performAll js') ∧
      (∀ js : List Job, js.Perm (s'.schedule.due now) → moved.performAll js = s'.rest now) ∧
      ∀ (i j : Nat) (l l' : Lane), s'.gate.lanes[i]? = some l → s'.gate.lanes[j]? = some l' →
        ∀ m n, Board.metric l.speed m = Board.metric l'.speed n → i = j := by
  intro s' moved
  have hcomposed : s'.Composed := (composed_build hs enabled).through is
  have hmoved : moved.Composed := ⟨hcomposed.sweepers, hcomposed.speeds⟩
  refine ⟨fun js js' hperm => hmoved.performAll_perm hperm,
    fun js hperm => hmoved.performAll_perm hperm, fun i j l l' hi hj m n hname => ?_⟩
  exact Gate.index_eq_of_speed_eq hcomposed.speeds hi hj (Board.speed_eq_of_metric_eq hname)

/-- The station for production with a journal. -/
def reporting : Station :=
  match build .production { enabled := true } true with
  | .ok s => s
  | .error _ => disabled

theorem build_reporting : build .production { enabled := true } true = .ok reporting := by
  have hok : (build .production { enabled := true } true).isOk = true := by decide +kernel
  unfold reporting
  cases h : build .production { enabled := true } true with
  | ok s => rfl
  | error f =>
    rw [h] at hok
    cases hok

/-- Messages of two peers, a peer and a key that are banned, and almost half a minute. -/
def busy : List Incident :=
  [.moment (.event (.operation (.screen ⟨⟨[1]⟩, .normal, "blocks", 100⟩))),
    .moment (.event (.operation (.screen ⟨⟨[2]⟩, .reserved, "blocks", 5000000⟩))),
    .moment (.event (.operation (.ban ⟨[3]⟩ "spam" (.ofSeconds 27)))),
    .enterKey [3] (.ofSeconds 30),
    .moment (.event (.operation (.advance (.ofSeconds 29)))),
    .moment (.event (.operation (.screen ⟨⟨[1]⟩, .normal, "blocks", 100⟩)))]

/-- After thirty seconds all six jobs are due, and they may be done backwards. -/
theorem busy_in_reverse_order :
    let s' := reporting.through busy
    let now := Span.ofSeconds 30
    build .production { enabled := true } true = .ok reporting ∧
      s'.schedule.due now =
        [.resetLane 0, .resetLane 1, .resetLane 2, .resetTopics, .sweep, .print] ∧
      { s' with now, schedule := s'.schedule.tick now }.performAll
          [.print, .sweep, .resetTopics, .resetLane 2, .resetLane 1, .resetLane 0] =
        s'.rest now := by
  have hdue : (reporting.through busy).schedule.due (Span.ofSeconds 30) =
      [.resetLane 0, .resetLane 1, .resetLane 2, .resetTopics, .sweep, .print] := by decide +kernel
  have horder := (due_jobs_in_any_order build_reporting rfl busy (Span.ofSeconds 30)).2.1
    [.print, .sweep, .resetTopics, .resetLane 2, .resetLane 1, .resetLane 0]
  rw [hdue] at horder
  exact ⟨build_reporting, hdue, horder (by decide)⟩

end Station

end Floodgate
