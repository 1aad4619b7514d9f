import Floodgate.Topics
import Mathlib.Tactic.SplitIfs

/-! # Loads and limits of topics

The view of the topics is the load and the limit of each, and every operation is described by what
it does to that view. The limit of a topic is the one that it was given last, else the default
(`Topics.get?_limits_new`, `Topics.get?_limits_setLimit`). A decision depends on the load and the
limit of its own topic only (`Topics.verdict_congr`). -/

namespace Floodgate

/-- The limit that a topic was given last. -/
def latestLimit (topic : String) (limits : List (String × Nat)) : Option Nat :=
  (limits.reverse.find? fun l => l.1 = topic).map Prod.snd

theorem latestLimit_append (topic : String) (limits : List (String × Nat)) (k : String)
    (max : Nat) :
    latestLimit topic (limits ++ [(k, max)]) =
      if topic = k then some max else latestLimit topic limits := by
  simp only [latestLimit, List.reverse_append, List.reverse_singleton, List.singleton_append,
    List.find?_cons]
  by_cases h : topic = k
  · simp [h]
  · simp [h, Ne.symm h]

namespace Topics

variable (t : Topics) (topic k : String) (messages size : Nat)

/-! ### Limits -/

theorem get?_limits_new (c : TopicConfig) :
    (new c).limits.get? topic =
      latestLimit topic (c.limits.map fun l => (l.topic, l.messagesPerSecond.toNat)) := by
  have hfold : ∀ (limits : List (String × Nat)) (m : Keyed String Nat)
      (given : List (String × Nat)), m.get? topic = latestLimit topic given →
        (limits.foldl (fun m l => m.insert l.1 l.2) m).get? topic =
          latestLimit topic (given ++ limits) := by
    intro limits
    induction limits with
    | nil => intro m given h; rw [List.append_nil]; exact h
    | cons l limits ih =>
      intro m given h
      rw [List.foldl_cons, List.append_cons]
      refine ih _ _ ?_
      rw [Keyed.get?_insert, latestLimit_append, h]
  exact hfold _ ∅ [] rfl

theorem get?_limits_setLimit (max : Nat) :
    (t.setLimit k max).limits.get? topic = if topic = k then some max else t.limits.get? topic :=
  Keyed.get?_insert _ _ _ _

/-! ### Loads -/

theorem load_insert (l : Load) :
    ({ t with loads := t.loads.insert k l } : Topics).load topic =
      if topic = k then l else t.load topic := by
  unfold load
  rw [Keyed.get?_insert]
  split_ifs <;> rfl

theorem load_resetTopic :
    (t.resetTopic k).load topic = if topic = k then {} else t.load topic := by
  unfold load resetTopic
  rw [Keyed.get?_erase]
  split_ifs <;> rfl

theorem load_resetRegistered :
    t.resetRegistered.load topic = if t.isRegistered topic then {} else t.load topic := by
  unfold load resetRegistered
  rw [Keyed.get?_keep]
  cases t.isRegistered topic <;> cases t.loads.get? topic <;> rfl

theorem load_resetUnregistered :
    t.resetUnregistered.load topic = if t.isRegistered topic then t.load topic else {} := by
  unfold load resetUnregistered
  rw [Keyed.get?_keep]
  cases t.isRegistered topic <;> cases t.loads.get? topic <;> rfl

/-! ### Batches -/

theorem increase_refused
    (h : t.limit topic < addCount (t.load topic).messages messages) :
    t.increase topic messages size = (t, .error (.topicFlood topic (t.limit topic))) := by
  rw [increase, if_pos h]

theorem increase_accepted
    (h : addCount (t.load topic).messages messages ≤ t.limit topic) :
    t.increase topic messages size =
      ({ t with
          loads :=
            t.loads.insert topic
              ⟨addCount (t.load topic).messages messages, addSize (t.load topic).size size⟩ },
        .ok ()) := by
  rw [increase, if_neg (Nat.not_lt.mpr h)]

theorem limits_increase : (t.increase topic messages size).1.limits = t.limits := by
  rcases Nat.lt_or_ge (t.limit topic) (addCount (t.load topic).messages messages) with h | h
  · rw [increase_refused _ _ _ _ h]
  · rw [increase_accepted _ _ _ _ h]

theorem load_increase_of_ne (hne : topic ≠ k) :
    (t.increase k messages size).1.load topic = t.load topic := by
  rcases Nat.lt_or_ge (t.limit k) (addCount (t.load k).messages messages) with h | h
  · rw [increase_refused _ _ _ _ h]
  · rw [increase_accepted _ _ _ _ h]
    exact (load_insert _ _ _ _).trans (if_neg hne)

variable {t topic}

/-- **The decision on a batch depends on the load and the limit of its topic only.** -/
theorem verdict_congr {t' : Topics} (hload : t'.load topic = t.load topic)
    (hlimit : t'.limit topic = t.limit topic) :
    (t'.increase topic messages size).2 = (t.increase topic messages size).2 := by
  rcases Nat.lt_or_ge (t.limit topic) (addCount (t.load topic).messages messages) with h | h
  · rw [increase_refused _ _ _ _ h, increase_refused _ _ _ _ (hload ▸ hlimit ▸ h), hlimit]
  · rw [increase_accepted _ _ _ _ h, increase_accepted _ _ _ _ (hload ▸ hlimit ▸ h)]

end Topics

end Floodgate
