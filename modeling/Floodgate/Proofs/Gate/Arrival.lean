import Floodgate.Proofs.Gate.FirstRefusal
import Floodgate.Proofs.Tier.Rate

/-! # Messages that arrive at a lane

A message arrives at a lane if its sender is not banned, its topic has room, and every lane in front
admits it (`Gate.Reaches`); a message that passes the gate has arrived at every lane
(`Gate.reaches_of_screen_ok`). The tier of a lane takes in the messages that arrive and no others
(`Gate.screen_tier`), together with those that are sent to it alone (`Gate.consumeAt_tier`), and of
the jobs only a reset of its own changes it (`Gate.resetLane_tier`). -/

namespace Floodgate

namespace Lane

instance (l : Lane) (m : Message) : Decidable (l.Admits m) :=
  inferInstanceAs (Decidable ((l.alone m).2.2 = .admitted))

theorem pass_tier (now : Instant) (m : Message) (ls : List Lane) (ledger : Ledger) (i : Nat) :
    (pass now m ls ledger).1[i]?.map (·.tier) =
      if ∀ l ∈ ls.take i, l.Admits m then ls[i]?.map fun l => (l.alone m).1
      else ls[i]?.map (·.tier) := by
  induction ls generalizing ledger i with
  | nil => exact (ite_self _).symm
  | cons l ls ih =>
    cases i with
    | zero =>
      have hfirst : ∀ x ∈ (l :: ls).take 0, x.Admits m := fun x hx => absurd hx List.not_mem_nil
      rw [if_pos hfirst]
      rcases ha : (l.alone m).2.2 with _ | e
      · rw [pass_cons_admitted now m ha]
        rfl
      · rw [pass_cons_refused now m ha]
        rfl
    | succ i =>
      rw [List.take_succ_cons, List.getElem?_cons_succ]
      rcases ha : (l.alone m).2.2 with _ | e
      · rw [pass_cons_admitted now m ha, List.getElem?_cons_succ, ih]
        refine if_congr ?_ rfl rfl
        rw [List.forall_mem_cons]
        exact (and_iff_right ha).symm
      · have hrefuses : ¬l.Admits m := fun hadm => by cases ha.symm.trans hadm
        rw [pass_cons_refused now m ha, List.getElem?_cons_succ,
          if_neg fun hall => hrefuses (hall l List.mem_cons_self)]

end Lane

namespace Gate

variable {g : Gate} {i : Nat} {t : Tier}

/-- The tier of the lane at an index. -/
def tier? (g : Gate) (i : Nat) : Option Tier := g.lanes[i]?.map (·.tier)

/-- A message gets as far as the lane at an index. -/
def Reaches (g : Gate) (m : Message) (i : Nat) : Prop :=
  g.blacklist.has m.peer = false ∧
    addCount (g.topics.load m.topic).messages 1 ≤ g.topics.limit m.topic ∧
    ∀ l ∈ g.lanes.take i, l.Admits m

instance (g : Gate) (m : Message) (i : Nat) : Decidable (g.Reaches m i) :=
  inferInstanceAs (Decidable (_ ∧ _ ∧ _))

theorem screen_of_has {m : Message} (h : g.blacklist.has m.peer = true) (now : Instant) :
    ∃ f, g.screen now m = (g, .error f) := by
  rcases hget : g.blacklist.get? m.peer with _ | entry
  · rw [(Blacklist.get?_eq_none_iff _ _).mp hget] at h
    cases h
  · exact ⟨_, by rw [screen, banned?, hget]; rfl⟩

/-- **A message that passes the gate has reached every lane, and every tier has admitted it.** -/
theorem reaches_of_screen_ok {now : Instant} {m : Message} (h : (g.screen now m).2 = .ok ())
    (i : Nat) : g.Reaches m i ∧ ∀ l ∈ g.lanes, l.Admits m := by
  by_cases hbanned : g.blacklist.has m.peer = true
  · obtain ⟨f, hf⟩ := screen_of_has hbanned now
    rw [hf] at h
    cases h
  by_cases hroom : addCount (g.topics.load m.topic).messages 1 ≤ g.topics.limit m.topic
  · have hnew : g.blacklist.has m.peer = false := eq_false_of_ne_true hbanned
    have hall : ∀ l ∈ g.lanes, l.Admits m := by
      rcases Lane.first_refusal m g.lanes with hall | ⟨before, l, after, e, hlanes, hbefore, hl⟩
      · exact hall
      · rw [screen_topic_accepted g now m hnew hroom, hlanes,
          Lane.pass_refused now m hbefore hl] at h
        cases h
    exact ⟨⟨hnew, hroom, fun l hl => hall l (List.mem_of_mem_take hl)⟩, hall⟩
  · rw [screen_topic_refused g now m (eq_false_of_ne_true hbanned) (Nat.lt_of_not_le hroom)] at h
    cases h

/-- **A tier takes in the messages that reach its lane.** -/
theorem screen_tier (h : g.tier? i = some t) (now : Instant) (m : Message) :
    (g.screen now m).1.tier? i =
      some (if g.Reaches m i then t.call (.message m.peerClass m.peer m.size) else t) := by
  obtain ⟨l, hl, rfl⟩ := Option.map_eq_some_iff.mp h
  by_cases hbanned : g.blacklist.has m.peer = true
  · obtain ⟨f, hf⟩ := screen_of_has hbanned now
    rw [hf, if_neg fun hreach => Bool.noConfusion (hbanned.symm.trans hreach.1)]
    exact h
  have hnew : g.blacklist.has m.peer = false := eq_false_of_ne_true hbanned
  by_cases hroom : addCount (g.topics.load m.topic).messages 1 ≤ g.topics.limit m.topic
  · have hpass := Lane.pass_tier now m g.lanes g.ledger i
    rw [hl] at hpass
    rw [screen_topic_accepted g now m hnew hroom]
    refine hpass.trans ((if_congr ?_ rfl rfl).trans (apply_ite some _ _ _).symm)
    exact ((and_iff_right hnew).trans (and_iff_right hroom)).symm
  · rw [screen_topic_refused g now m hnew (Nat.lt_of_not_le hroom),
      if_neg fun hreach => hroom hreach.2.1]
    exact h

theorem screenBatch_lanes (g : Gate) (peer : PeerId) (topic : String) (messages size : Nat) :
    (g.screenBatch peer topic messages size).1.lanes = g.lanes := by
  unfold screenBatch
  split <;> rfl

theorem tier?_set (h : g.tier? i = some t) {j : Nat} {l : Lane} (hl : g.lanes[j]? = some l)
    (l' : Lane) (ledger : Ledger) :
    ({ g with ledger, lanes := g.lanes.set j l' } : Gate).tier? i =
      some (if j = i then l'.tier else t) := by
  show (g.lanes.set j l')[i]?.map (·.tier) = _
  by_cases hj : j = i
  · subst hj
    obtain ⟨hlt, -⟩ := List.getElem?_eq_some_iff.mp hl
    rw [if_pos rfl, List.getElem?_set_self hlt]
    rfl
  · rw [if_neg hj, List.getElem?_set_ne hj]
    exact h

theorem tier_eq (h : g.tier? i = some t) {l : Lane} (hl : g.lanes[i]? = some l) : l.tier = t := by
  rw [tier?, hl] at h
  exact Option.some.inj h

theorem ne_of_getElem?_eq_none (h : g.tier? i = some t) {j : Nat} (hj : g.lanes[j]? = none) :
    j ≠ i := by
  rintro rfl
  rw [tier?, hj] at h
  cases h

theorem consumeAt_tier (h : g.tier? i = some t) (now : Instant) (j : Nat) (c : PeerClass)
    (peer : PeerId) (size : Nat) :
    ((g.consumeAt now j c peer size).elim g (·.1)).tier? i =
      some (if j = i then t.call (.message c peer size) else t) := by
  unfold consumeAt
  rcases hl : g.lanes[j]? with _ | l
  · rw [if_neg (ne_of_getElem?_eq_none h hl)]
    exact h
  · refine (tier?_set h hl _ _).trans ?_
    split_ifs with hj
    · subst hj
      rw [← tier_eq h hl]
      rfl
    · rfl

theorem resetLane_tier (h : g.tier? i = some t) (j : Nat) :
    (g.resetLane j).tier? i = some (if j = i then t.call .reset else t) := by
  unfold resetLane
  rcases hl : g.lanes[j]? with _ | l
  · rw [if_neg (ne_of_getElem?_eq_none h hl)]
    exact h
  · refine (tier?_set h hl _ _).trans ?_
    split_ifs with hj
    · subst hj
      rw [← tier_eq h hl]
      rfl
    · rfl

end Gate

end Floodgate
