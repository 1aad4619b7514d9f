import Floodgate.Proofs.Station.Incident

/-! # Observation

A station tells one observer of its decisions, and observers come and go in the course of a run.
Whoever is attached when a message or a batch is decided on is told of it once, with what the call
was about and what it returned (`Station.meet_attention`), and of nothing else.

Nobody else notices. What an observer leaves behind in a station is its name, the journal and what
the recorder has been told; without them (`Station.unobserved`), a station goes through a run as it
would if nobody had ever attached an observer (`Station.through_unobserved`), and decides the same
(`Station.decisions_unobserved`). So two runs that differ only in when which observers are attached
lead to the same decisions and the same state. -/

namespace Floodgate

deriving instance DecidableEq for Decision

/-- The observer that an incident attaches. -/
def Incident.observer? : Incident → Option Observer
  | .moment (.event (.operation (.setObserver o))) => some o
  | _ => none

/-- A run without the incidents that attach observers. -/
def withoutObservers (is : List Incident) : List Incident := is.filter (·.observer?.isNone)

theorem withoutObservers_of_none {i : Incident} (h : i.observer? = none) (is : List Incident) :
    withoutObservers (i :: is) = i :: withoutObservers is :=
  List.filter_cons_of_pos (by rw [h]; rfl)

theorem withoutObservers_of_some {i : Incident} {o : Observer} (h : i.observer? = some o)
    (is : List Incident) : withoutObservers (i :: is) = withoutObservers is :=
  List.filter_cons_of_neg (by rw [h]; exact Bool.false_ne_true)

namespace Station

/-- The decision that an incident asks for, with what it is about and what is returned. -/
def decision? (s : Station) : Incident → Option Decision
  | .moment (.event (.operation (.screen m))) =>
    some ⟨m.peer, m.topic, 1, m.size, (s.screen m).2⟩
  | .moment (.event (.operation (.screenBatch peer topic messages size))) =>
    some ⟨peer, topic, messages, size, (s.screenBatch peer topic messages size).2⟩
  | _ => none

/-- The decisions of a run, each with the observer that is attached by then. -/
def decisions (s : Station) (o : Observer) : List Incident → List (Observer × Decision)
  | [] => []
  | i :: is => (s.decision? i).toList.map (o, ·) ++ (s.meet i).decisions (i.observer?.getD o) is

/-- What the recorder is told of an incident. -/
def heard (s : Station) (i : Incident) : List Decision :=
  if s.observer = .recorder then (s.decision? i).toList else []

variable {s : Station} {i : Incident}

/-! ### Whoever is attached is told -/

/-- What observation is about: whether there are decisions at all, who is told of them, and what the
recorder has been told. -/
def attention (s : Station) : Bool × Observer × List Decision := (s.enabled, s.observer, s.recorded)

theorem notify_attention (s : Station) (d : Decision) :
    (s.notify d).attention =
      (s.enabled, s.observer, s.recorded ++ if s.observer = .recorder then [d] else []) := by
  unfold notify
  split
  · rename_i ho
    rw [attention, ho, if_neg (by decide), List.append_nil]
  · rename_i ho
    rw [attention, ho, if_neg (by decide), List.append_nil]
  · rename_i ho
    rw [attention, ho, if_pos rfl]

theorem perform_attention (s : Station) (j : Job) : (s.perform j).1.attention = s.attention := by
  cases j with
  | sweep =>
    exact visitAll_keeps (P := fun s' => s'.attention = s.attention)
      (fun s' w h => by cases w <;> exact h) rfl s.sweepers
  | resetLane i => rfl
  | resetTopics => rfl
  | print => rfl

theorem attention_of_unconcerned (enabled : s.enabled = true) (hdecides : s.decision? i = none)
    (hattaches : i.observer? = none) {s' : Station} (h : s'.attention = s.attention) :
    s'.attention = (true, i.observer?.getD s.observer, s.recorded ++ s.heard i) := by
  rw [h, attention, enabled, heard, hdecides, hattaches, Option.toList_none, ite_self,
    List.append_nil]
  rfl

theorem operation_attention (enabled : s.enabled = true) (o : Operation) :
    let i := Incident.moment (.event (.operation o))
    (s.apply o).attention = (true, i.observer?.getD s.observer, s.recorded ++ s.heard i) := by
  have hjob : ∀ (s' : Station) j, s'.attention = s.attention →
      (s'.perform j).1.attention = s.attention := fun s' j h => (perform_attention s' j).trans h
  have hclock : ∀ (s' : Station) now schedule, s'.now ≤ now → s'.attention = s.attention →
      { s' with now, schedule }.attention = s.attention := fun s' now schedule _ h => h
  intro i
  cases o with
  | screen m =>
    have hscreen := screen_eq enabled m
    have hheard : s.heard i = if s.observer = .recorder then
        [⟨m.peer, m.topic, 1, m.size, (s.screen m).2⟩] else [] := rfl
    rw [hheard, apply, hscreen, notify_attention]
    exact Prod.ext enabled rfl
  | screenBatch peer topic messages size =>
    have hscreen := screenBatch_eq enabled peer topic messages size
    have hheard : s.heard i = if s.observer = .recorder then
        [⟨peer, topic, messages, size, (s.screenBatch peer topic messages size).2⟩] else [] := rfl
    rw [hheard, apply, hscreen, notify_attention]
    exact Prod.ext enabled rfl
  | setObserver o =>
    have hheard : s.heard i = [] := ite_self _
    rw [hheard, List.append_nil, apply, setObserver, if_pos enabled]
    exact Prod.ext enabled rfl
  | consumeAt k c peer size =>
    refine attention_of_unconcerned enabled rfl rfl ?_
    rw [apply]
    split <;> rfl
  | ban peer reason span =>
    refine attention_of_unconcerned enabled rfl rfl ?_
    rw [apply, ban, if_pos enabled]
    rfl
  | resetTopic topic =>
    refine attention_of_unconcerned enabled rfl rfl ?_
    rw [apply, resetTopic, if_pos enabled]
    rfl
  | setLimit topic max =>
    refine attention_of_unconcerned enabled rfl rfl ?_
    rw [apply, setLimit, if_pos enabled]
    rfl
  | deny directory peer reason span => exact attention_of_unconcerned enabled rfl rfl rfl
  | perform j => exact attention_of_unconcerned enabled rfl rfl (perform_attention s j)
  | visit w => exact attention_of_unconcerned enabled rfl rfl (by cases w <;> rfl)
  | advance span =>
    exact attention_of_unconcerned enabled rfl rfl
      (advance_keeps (P := fun s' => s'.attention = s.attention) hjob hclock rfl span)
  | jump span =>
    exact attention_of_unconcerned enabled rfl rfl
      (jump_keeps (P := fun s' => s'.attention = s.attention) hjob hclock rfl span)
  | cancel => exact attention_of_unconcerned enabled rfl rfl rfl

/-- **Of every decision the observer is told, and of nothing else**; whoever an incident attaches is
attached from then on. -/
theorem meet_attention (enabled : s.enabled = true) (i : Incident) :
    (s.meet i).attention = (true, i.observer?.getD s.observer, s.recorded ++ s.heard i) := by
  cases i with
  | moment m =>
    cases m with
    | event e =>
      cases e with
      | operation o => exact operation_attention enabled o
      | enter peer entry span => exact attention_of_unconcerned enabled rfl rfl rfl
      | lift peer => exact attention_of_unconcerned enabled rfl rfl rfl
    | lapse span => exact attention_of_unconcerned enabled rfl rfl rfl
  | _ => exact attention_of_unconcerned enabled rfl rfl rfl

theorem heard_eq (s : Station) (i : Incident) :
    s.heard i =
      (((s.decision? i).toList.map (s.observer, ·)).filter (·.1 = .recorder)).map Prod.snd := by
  unfold heard
  cases s.decision? i <;> cases s.observer <;> rfl

/-- **The recorder has been told of the decisions that were taken while it was attached.** -/
theorem recorded_through (enabled : s.enabled = true) (is : List Incident) :
    (s.through is).recorded =
      s.recorded ++ ((s.decisions s.observer is).filter (·.1 = .recorder)).map Prod.snd := by
  induction is generalizing s with
  | nil => exact (List.append_nil _).symm
  | cons i is ih =>
    obtain ⟨hon, hattached⟩ := Prod.mk.inj (meet_attention enabled i)
    obtain ⟨hobserver, hrecorded⟩ := Prod.mk.inj hattached
    rw [decisions, List.filter_append, List.map_append, ← heard_eq, ← List.append_assoc,
      ← hrecorded, ← hobserver]
    exact ih hon

/-! ### Nobody else notices -/

/-- The station without its observer and what observers have left behind. -/
def unobserved (s : Station) : Station :=
  { s with journal := none, observer := .nobody, recorded := [] }

theorem notify_unobserved (s : Station) (d : Decision) :
    (s.notify d).unobserved = s.unobserved := by
  unfold notify
  cases s.observer <;> rfl

theorem screen_unobserved (s : Station) (m : Message) :
    s.unobserved.screen m = ((s.screen m).1.unobserved, (s.screen m).2) := by
  by_cases enabled : s.enabled = true
  · have hunobserved : s.unobserved.enabled = true := enabled
    rw [screen_eq enabled, screen_eq hunobserved, notify_unobserved]
    rfl
  · have hunobserved : ¬s.unobserved.enabled = true := enabled
    rw [screen, screen, if_neg enabled, if_neg hunobserved]

theorem screenBatch_unobserved (s : Station) (peer : PeerId) (topic : String)
    (messages size : Nat) :
    s.unobserved.screenBatch peer topic messages size =
      ((s.screenBatch peer topic messages size).1.unobserved,
        (s.screenBatch peer topic messages size).2) := by
  by_cases enabled : s.enabled = true
  · have hunobserved : s.unobserved.enabled = true := enabled
    rw [screenBatch_eq enabled, screenBatch_eq hunobserved, notify_unobserved]
    rfl
  · have hunobserved : ¬s.unobserved.enabled = true := enabled
    rw [screenBatch, screenBatch, if_neg enabled, if_neg hunobserved]

theorem visitAll_unobserved (s : Station) (ws : List Sweeper) :
    s.unobserved.visitAll ws = ((s.visitAll ws).1.unobserved, (s.visitAll ws).2) := by
  induction ws generalizing s with
  | nil => rfl
  | cons w ws ih =>
    have hvisit : s.unobserved.visit w = ((s.visit w).1.unobserved, (s.visit w).2) := by
      cases w <;> rfl
    rw [visitAll, visitAll, hvisit]
    rcases s.visit w with ⟨s', w', _ | _⟩
    · rfl
    · simp only [ih]

theorem perform_unobserved (s : Station) (j : Job) :
    (s.unobserved.perform j).1 = (s.perform j).1.unobserved := by
  cases j with
  | sweep =>
    show { (s.unobserved.visitAll s.sweepers).1 with
      sweepers := (s.unobserved.visitAll s.sweepers).2 } = s.sweep.unobserved
    rw [visitAll_unobserved]
    rfl
  | resetLane i => rfl
  | resetTopics => rfl
  | print => rfl

theorem performAll_unobserved (s : Station) (js : List Job) :
    (s.unobserved.performAll js).1 = (s.performAll js).1.unobserved := by
  induction js generalizing s with
  | nil => rfl
  | cons j js ih =>
    show ((s.unobserved.perform j).1.performAll js).1 = _
    rw [perform_unobserved]
    exact ih (s.perform j).1

theorem restAll_unobserved (s : Station) (ts : List Instant) :
    (s.unobserved.restAll ts).1 = (s.restAll ts).1.unobserved := by
  induction ts generalizing s with
  | nil => rfl
  | cons t ts ih =>
    have hrest : (s.unobserved.rest t).1 = (s.rest t).1.unobserved :=
      performAll_unobserved { s with now := t, schedule := s.schedule.tick t } _
    show ((s.unobserved.rest t).1.restAll ts).1 = _
    rw [hrest]
    exact ih (s.rest t).1

theorem apply_unobserved (s : Station) {o : Operation} (ho : ∀ x, o ≠ .setObserver x) :
    s.unobserved.apply o = (s.apply o).unobserved := by
  cases o with
  | screen m => exact congrArg Prod.fst (screen_unobserved s m)
  | screenBatch peer topic messages size =>
    exact congrArg Prod.fst (screenBatch_unobserved s peer topic messages size)
  | consumeAt i c peer size =>
    rcases hc : s.gate.consumeAt s.now i c peer size with _ | ⟨gate, a⟩
    · have hu : s.unobserved.gate.consumeAt s.unobserved.now i c peer size = none := hc
      rw [apply, apply, hc, hu]
    · have hu : s.unobserved.gate.consumeAt s.unobserved.now i c peer size = some (gate, a) := hc
      rw [apply, apply, hc, hu]
      rfl
  | ban peer reason span => rcases s with ⟨_ | _, _⟩ <;> rfl
  | resetTopic topic => rcases s with ⟨_ | _, _⟩ <;> rfl
  | setLimit topic max => rcases s with ⟨_ | _, _⟩ <;> rfl
  | deny directory peer reason span => rfl
  | setObserver x => exact absurd rfl (ho x)
  | perform j => exact perform_unobserved s j
  | visit w => cases w <;> rfl
  | advance span => exact restAll_unobserved s _
  | jump span => exact restAll_unobserved s [s.now + span]
  | cancel => rfl

theorem meet_unobserved (s : Station) (h : i.observer? = none) :
    s.unobserved.meet i = (s.meet i).unobserved := by
  cases i with
  | moment m =>
    cases m with
    | event e =>
      cases e with
      | operation o =>
        refine apply_unobserved s fun x hx => ?_
        rw [hx] at h
        cases h
      | enter peer entry span => rfl
      | lift peer => rfl
    | lapse span => rfl
  | _ => rfl

theorem meet_of_observer (s : Station) {o : Observer} (h : i.observer? = some o) :
    (s.meet i).unobserved = s.unobserved ∧ s.decision? i = none := by
  unfold Incident.observer? at h
  split at h
  · refine ⟨?_, rfl⟩
    show (s.setObserver _).unobserved = s.unobserved
    unfold setObserver
    split_ifs <;> rfl
  · cases h

theorem decision?_unobserved (s : Station) (i : Incident) :
    s.unobserved.decision? i = s.decision? i := by
  unfold decision?
  split
  · rw [screen_unobserved]
  · rw [screenBatch_unobserved]
  · rfl

/-- **Without its observers a station goes through a run as if none had been attached.** -/
theorem through_unobserved (s : Station) (is : List Incident) :
    s.unobserved.through (withoutObservers is) = (s.through is).unobserved := by
  induction is generalizing s with
  | nil => rfl
  | cons i is ih =>
    rcases ho : i.observer? with _ | o
    · have hstep := ih (s.meet i)
      rw [← meet_unobserved s ho] at hstep
      rw [withoutObservers_of_none ho]
      exact hstep
    · rw [withoutObservers_of_some ho, ← (meet_of_observer s ho).1]
      exact ih (s.meet i)

theorem decisions_unobserved (s : Station) (o o' : Observer) (is : List Incident) :
    (s.unobserved.decisions o' (withoutObservers is)).map Prod.snd =
      (s.decisions o is).map Prod.snd := by
  induction is generalizing s o o' with
  | nil => rfl
  | cons i is ih =>
    rcases ho : i.observer? with _ | x
    · rw [withoutObservers_of_none ho, decisions, decisions, List.map_append, List.map_append,
        meet_unobserved s ho, decision?_unobserved, List.map_map, List.map_map]
      exact congrArg _ (ih (s.meet i) _ _)
    · obtain ⟨hmeet, hnone⟩ := meet_of_observer s ho
      rw [withoutObservers_of_some ho, decisions, hnone, ← hmeet]
      exact ih (s.meet i) _ _

/-- **Observation is complete and harmless.** In every run of a station, whoever observes it and
whenever, the recorder is told of the decisions that are taken while it is attached, one by one and
in order, with what each is about and what it returns. A run that differs only in which observers
are attached, and when, leads to the same decisions, the same bans, topics, tiers, watches and
metrics, and the same maintenance. -/
theorem observation_complete_and_harmless (enabled : s.enabled = true) (is : List Incident) :
    (s.through is).recorded =
        s.recorded ++ ((s.decisions s.observer is).filter (·.1 = .recorder)).map Prod.snd ∧
      ∀ is' : List Incident, withoutObservers is' = withoutObservers is →
        (s.decisions s.observer is').map Prod.snd = (s.decisions s.observer is).map Prod.snd ∧
        (s.through is').gate = (s.through is).gate ∧
        (s.through is').keys = (s.through is).keys ∧
        (s.through is').now = (s.through is).now ∧
        (s.through is').sweepers = (s.through is).sweepers ∧
        (s.through is').schedule = (s.through is).schedule := by
  refine ⟨recorded_through enabled is, fun is' hsame => ?_⟩
  have hstate : (s.through is').unobserved = (s.through is).unobserved := by
    rw [← through_unobserved, hsame, through_unobserved]
  have hdecisions :
      (s.decisions s.observer is').map Prod.snd = (s.decisions s.observer is).map Prod.snd := by
    rw [← decisions_unobserved s s.observer .nobody, hsame, decisions_unobserved]
  injection hstate with _ hnow hgate hkeys _ _ _ hsweepers hschedule
  exact ⟨hdecisions, hgate, hkeys, hnow, hsweepers, hschedule⟩

/-- A message before the recorder is attached, one decision of each kind, and a message after it. -/
def watched : List Incident :=
  [.screen ⟨⟨[1]⟩, .normal, "t", 10⟩, .setObserver .recorder, .ban ⟨[2]⟩ "spam" (.ofSeconds 60),
    .screen ⟨⟨[2]⟩, .normal, "t", 10⟩, .setLimit "u" 3, .screenBatch ⟨[1]⟩ "u" 4 40,
    .screen ⟨⟨[1]⟩, .normal, "t", 101⟩, .advance (.ofSeconds 1), .screenBatch ⟨[1]⟩ "u" 3 30,
    .setObserver .nobody, .screen ⟨⟨[1]⟩, .normal, "t", 10⟩].map
    fun o => .moment (.event (.operation o))

/-- The recorder is told of the four decisions in between. If it is never attached, it is told of
nothing, and the same happens. -/
theorem watched_or_not :
    narrowStation.enabled = true ∧
      withoutObservers (withoutObservers watched) = withoutObservers watched ∧
      (narrowStation.through watched).recorded =
        [⟨⟨[2]⟩, "t", 1, 10, .error (.peerBlacklisted "02" "spam")⟩,
          ⟨⟨[1]⟩, "u", 4, 40, .error (.topicFlood "u" 3)⟩,
          ⟨⟨[1]⟩, "t", 1, 101, .error (.peerFlood Speed.fast.name (.messageSize 101 80))⟩,
          ⟨⟨[1]⟩, "u", 3, 30, .ok ()⟩] ∧
      (narrowStation.through (withoutObservers watched)).recorded = [] ∧
      (narrowStation.through (withoutObservers watched)).gate =
        (narrowStation.through watched).gate := by
  have hnever : withoutObservers (withoutObservers watched) = withoutObservers watched := rfl
  obtain ⟨htold, hsame⟩ := observation_complete_and_harmless (s := narrowStation) rfl watched
  obtain ⟨-, hgate, -⟩ := hsame (withoutObservers watched) hnever
  obtain ⟨hsilent, -⟩ :=
    observation_complete_and_harmless (s := narrowStation) rfl (withoutObservers watched)
  exact ⟨rfl, hnever, htold.trans (by decide +kernel), hsilent.trans (by decide +kernel), hgate⟩

end Station

end Floodgate
