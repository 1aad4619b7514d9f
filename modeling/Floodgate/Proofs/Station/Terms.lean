import Floodgate.Proofs.Gate.Post
import Floodgate.Proofs.Station.Incident

/-! # What no incident changes

What a lane is set to, its speed and the bans that its watch issues, is settled when it is built:
messages, reports and the ends of intervals leave it as it is, and so with the lanes of a gate
(`Gate.terms`). An incident gives a station another gate on the same terms, other bans, records or
clocks, and it may sweep; what these keep, every incident keeps (`Station.Steady.meet`). -/

namespace Floodgate

theorem map_set_of_eq {α β : Type} {f : α → β} {as : List α} {i : Nat} {a a' : α}
    (ha : as[i]? = some a) (h : f a' = f a) : (as.set i a').map f = as.map f := by
  obtain ⟨hlt, rfl⟩ := List.getElem?_eq_some_iff.mp ha
  have hmapped : i < (as.map f).length := by rwa [List.length_map]
  have hsame : f as[i] = (as.map f)[i] := (List.getElem_map _).symm
  rw [List.map_set, h, hsame, List.set_getElem_self]

theorem map_of_mapM_eq_ok {ε α β γ : Type} {f : α → Except ε β} {g : β → γ} {k : α → γ}
    (h : ∀ a b, f a = .ok b → g b = k a) {as : List α} {bs : List β} (hbs : as.mapM f = .ok bs) :
    bs.map g = as.map k := by
  induction as generalizing bs with
  | nil => cases hbs; rfl
  | cons a as ih =>
    rw [List.mapM_cons] at hbs
    obtain ⟨b, hb, hbs⟩ := of_bind_eq_ok hbs
    obtain ⟨bs', hbs', hbs⟩ := of_bind_eq_ok hbs
    cases hbs
    rw [List.map_cons, List.map_cons, h a b hb, ih hbs']

namespace Lane

/-- What a lane is set to. -/
structure Terms where
  speed : Speed
  /-- The speed that bans name. -/
  origin : Speed
  banSpan : Span
deriving DecidableEq

/-- The terms of a lane. -/
def terms (l : Lane) : Terms := ⟨l.speed, l.watch.origin, l.watch.banSpan⟩

variable {l l' : Lane}

theorem terms_eq (hpolicy : l'.tier.policy = l.tier.policy) (hwatch : l.watch.SameRules l'.watch) :
    l'.terms = l.terms := by
  unfold terms speed
  rw [hpolicy, hwatch]

theorem consume_terms (l : Lane) (ledger : Ledger) (now : Instant) (c : PeerClass) (peer : PeerId)
    (size : Nat) : (l.consume ledger now c peer size).1.terms = l.terms := by
  refine terms_eq rfl ?_
  have hwatch : (l.consume ledger now c peer size).1.watch = _ :=
    FloodWatch.observe_fst l.watch ledger.blacklist now peer _ _
  rw [hwatch]
  exact FloodWatch.sameRules_report _ _ _ _ _

theorem reset_terms (l : Lane) (ledger : Ledger) : (l.reset ledger).1.terms = l.terms := by
  refine terms_eq rfl ?_
  have hadded := FloodWatch.sameRules_foldl_addExcess l.watch l.tier.active
  show l.watch.SameRules
    (l.tier.active.foldl (fun w e => w.addExcess e.1 e.2) l.watch).endInterval
  rw [FloodWatch.endInterval, FloodWatch.SameRules, hadded]

theorem pass_terms (now : Instant) (m : Message) (ls : List Lane) (ledger : Ledger) :
    (pass now m ls ledger).1.map terms = ls.map terms := by
  induction ls generalizing ledger with
  | nil => rfl
  | cons l ls ih =>
    rcases ha : (l.alone m).2.2 with _ | e
    · rw [pass_cons_admitted now m ha, List.map_cons, List.map_cons, ih, consume_terms]
    · rw [pass_cons_refused now m ha, List.map_cons, List.map_cons, consume_terms]

theorem terms_of_make? {speed : Speed} {c : TierConfig} {cache : CacheConfig}
    (h : make? speed c cache = .ok l) : l.terms = ⟨speed, speed, c.ban.banSpan⟩ := by
  obtain ⟨rfl, -⟩ := of_make? h
  rfl

end Lane

namespace Gate

/-- The terms of the lanes. -/
def terms (g : Gate) : List Lane.Terms := g.lanes.map Lane.terms

theorem screen_terms (g : Gate) (now : Instant) (m : Message) :
    (g.screen now m).1.terms = g.terms := by
  unfold screen
  rcases g.banned? m.peer with _ | f
  · rcases g.topics.increase m.topic 1 m.size with ⟨topics, f | u⟩
    · rfl
    · exact Lane.pass_terms now m g.lanes g.ledger
  · rfl

theorem consumeAt_terms {g g' : Gate} {now : Instant} {i : Nat} {c : PeerClass} {peer : PeerId}
    {size : Nat} {a : Admission} (h : g.consumeAt now i c peer size = some (g', a)) :
    g'.terms = g.terms := by
  obtain ⟨l, hl, hg⟩ := Option.map_eq_some_iff.mp h
  cases hg
  exact map_set_of_eq hl (Lane.consume_terms l g.ledger now c peer size)

theorem resetLane_terms (g : Gate) (i : Nat) : (g.resetLane i).terms = g.terms := by
  unfold resetLane
  rcases hl : g.lanes[i]? with _ | l
  · rfl
  · exact map_set_of_eq hl (Lane.reset_terms l g.ledger)

theorem mapWatch_terms (g : Gate) {i : Nat} {f : FloodWatch → FloodWatch}
    (h : ∀ l, g.lanes[i]? = some l → l.watch.SameRules (f l.watch)) :
    (g.mapWatch i f).terms = g.terms := by
  show (g.lanes.modify i _).map Lane.terms = g.lanes.map Lane.terms
  refine List.ext_getElem? fun k => ?_
  rw [List.getElem?_map, List.getElem?_map, List.getElem?_modify]
  rcases hl : g.lanes[k]? with _ | l
  · split_ifs <;> rfl
  · split_ifs with hk
    · exact congrArg some (Lane.terms_eq rfl (h l (hk ▸ hl)))
    · rfl

theorem reportAt_terms (g : Gate) (now : Instant) (i : Nat) (peer : PeerId) (q : Quota)
    (a : Admission) : (g.reportAt now i peer q a).terms = g.terms := by
  unfold reportAt
  split
  · rfl
  · rename_i l hl
    show (g.mapWatch i fun _ => (l.watch.observe g.blacklist now peer q a).1).terms = g.terms
    refine mapWatch_terms g fun l' hl' => ?_
    cases hl.symm.trans hl'
    rw [FloodWatch.observe_fst]
    exact FloodWatch.sameRules_report _ _ _ _ _

end Gate

namespace Station

/-- A property that a station keeps if its gate is replaced by one on the same terms, or its other
parts that are no sweepers by any. -/
def Steady (P : Station → Prop) : Prop :=
  ∀ (s : Station) (gate : Gate) keys journal observer recorded now schedule,
    gate.terms = s.gate.terms → P s →
      P { s with gate, keys, journal, observer, recorded, now, schedule }

variable {P : Station → Prop} {s : Station}

theorem Steady.withGate (hP : Steady P) (h : P s) {gate : Gate}
    (hterms : gate.terms = s.gate.terms) : P { s with gate } :=
  hP s gate s.keys s.journal s.observer s.recorded s.now s.schedule hterms h

theorem Steady.withKeys (hP : Steady P) (h : P s) (keys : KeyBlacklist) : P { s with keys } :=
  hP s s.gate keys s.journal s.observer s.recorded s.now s.schedule rfl h

theorem Steady.notify (hP : Steady P) (h : P s) {gate : Gate} (hterms : gate.terms = s.gate.terms)
    (d : Decision) : P ({ s with gate }.notify d) := by
  obtain ⟨journal, recorded, hnotify⟩ := notify_eq { s with gate } d
  rw [hnotify]
  exact hP s gate s.keys journal s.observer recorded s.now s.schedule hterms h

theorem Steady.perform (hP : Steady P) (sweep : ∀ s, P s → P s.sweep) (h : P s) (j : Job) :
    P (s.perform j).1 := by
  cases j with
  | resetLane i => exact hP.withGate h (Gate.resetLane_terms s.gate i)
  | resetTopics => exact hP.withGate h rfl
  | sweep => exact sweep s h
  | print => exact hP s s.gate s.keys _ s.observer s.recorded s.now s.schedule rfl h

theorem Steady.apply (hP : Steady P) (sweep : ∀ s, P s → P s.sweep) (h : P s) (o : Operation) :
    P (s.apply o) := by
  have hjob : ∀ (s : Station) j, P s → P (s.perform j).1 := fun s j h => hP.perform sweep h j
  have hclock : ∀ (s : Station) now schedule, s.now ≤ now → P s → P { s with now, schedule } :=
    fun s now schedule _ h => hP s s.gate s.keys s.journal s.observer s.recorded now schedule rfl h
  cases o with
  | screen m =>
    by_cases henabled : s.enabled = true
    · rw [Station.apply, screen_eq henabled]
      exact hP.notify h (Gate.screen_terms s.gate s.now m) _
    · rw [Station.apply, screen, if_neg henabled]
      exact h
  | screenBatch peer topic messages size =>
    by_cases henabled : s.enabled = true
    · have hlanes := Gate.screenBatch_lanes s.gate peer topic messages size
      rw [Station.apply, screenBatch_eq henabled]
      exact hP.notify h (congrArg (List.map Lane.terms) hlanes) _
    · rw [Station.apply, screenBatch, if_neg henabled]
      exact h
  | consumeAt i c peer size =>
    rcases hc : s.gate.consumeAt s.now i c peer size with _ | ⟨gate, a⟩
    · rw [Station.apply, hc]
      exact h
    · rw [Station.apply, hc]
      exact hP.withGate h (Gate.consumeAt_terms hc)
  | ban peer reason span =>
    rw [Station.apply, ban]
    split_ifs
    · exact hP.withGate h rfl
    · exact h
  | deny directory peer reason span =>
    exact hP s _ _ s.journal s.observer s.recorded s.now s.schedule rfl h
  | resetTopic topic =>
    rw [Station.apply, resetTopic]
    split_ifs
    · exact hP.withGate h rfl
    · exact h
  | setLimit topic max =>
    rw [Station.apply, setLimit]
    split_ifs
    · exact hP.withGate h rfl
    · exact h
  | setObserver o =>
    rw [Station.apply, setObserver]
    split_ifs
    · exact hP s s.gate s.keys s.journal o s.recorded s.now s.schedule rfl h
    · exact h
  | perform j => exact hjob s j h
  | visit w =>
    cases w with
    | peers => exact hP.withGate h rfl
    | keys => exact hP.withKeys h _
    | outside visits fails => exact h
  | advance span => exact advance_keeps hjob hclock h span
  | jump span => exact jump_keeps hjob hclock h span
  | cancel => exact hP s s.gate s.keys s.journal s.observer s.recorded s.now _ rfl h

/-- **A steady property that sweeps keep is kept by every incident.** -/
theorem Steady.meet (hP : Steady P) (sweep : ∀ s, P s → P s.sweep) (h : P s) (i : Incident) :
    P (s.meet i) := by
  cases i with
  | moment m =>
    cases m with
    | event e =>
      cases e with
      | operation o => exact hP.apply sweep h o
      | enter peer entry span => exact hP.withGate h rfl
      | lift peer => exact hP.withGate h rfl
    | lapse span => exact hP s s.gate s.keys s.journal s.observer s.recorded _ s.schedule rfl h
  | report i peer q a => exact hP.withGate h (Gate.reportAt_terms s.gate s.now i peer q a)
  | addExcess i peer q =>
    exact hP.withGate h
      (Gate.mapWatch_terms s.gate fun l _ => l.watch.sameRules_addExcess peer q)
  | endWatch i => exact hP.withGate h (Gate.mapWatch_terms s.gate fun l _ => rfl)
  | enterKey key span => exact hP.withKeys h _
  | extendKey key span => exact hP.withKeys h _
  | liftKey key => exact hP.withKeys h _
  | liftKeys => exact hP.withKeys h _
  | resetRegistered => exact hP.withGate h rfl
  | resetUnregistered => exact hP.withGate h rfl
  | note d => exact hP s s.gate s.keys _ s.observer s.recorded s.now s.schedule rfl h

end Station

end Floodgate
