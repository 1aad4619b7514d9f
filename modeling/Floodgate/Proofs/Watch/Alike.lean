import Floodgate.Proofs.Watch.Streak

/-! # Watches that cannot be told apart

A watch uses nothing of a peer but its streak, and one that has never flooded has the streak of a
newcomer. So two watches with the same rules and the same streaks issue the same bans, whichever
peers they hold a record of (`FloodWatch.Alike`); a peer whose streak is that of a newcomer can be
forgotten (`FloodWatch.Alike.forget`). -/

namespace Floodgate

namespace FloodWatch

/-- The watch without the streak of a peer. -/
def forget (w : FloodWatch) (peer : PeerId) : FloodWatch :=
  { w with streaks := w.streaks.erase peer }

theorem streakOf_forget (w : FloodWatch) (peer x : PeerId) :
    (w.forget peer).streakOf x = if x = peer then {} else w.streakOf x := by
  simp only [streakOf, streak?, forget, Keyed.get?_erase]
  split_ifs <;> rfl

/-- Two watches have the same rules and the same streaks. -/
structure Alike (w v : FloodWatch) : Prop where
  rules : w.SameRules v
  streaks : ∀ x, v.streakOf x = w.streakOf x

namespace Alike

variable {w v : FloodWatch}

/-- A peer whose streak is that of a newcomer can be forgotten. -/
theorem forget {peer : PeerId} (h : w.streakOf peer = {}) : Alike w (w.forget peer) where
  rules := rfl
  streaks x := by
    rw [streakOf_forget]
    split_ifs with hx
    · rw [hx, h]
    · rfl

theorem isNews (h : Alike w v) (banned : Bool) (peer : PeerId) (q : Quota) (a : Admission) :
    v.isNews banned peer q a = w.isNews banned peer q a := by
  have hflood : v.isFlooding q a = w.isFlooding q a := by rw [h.rules]; rfl
  rw [FloodWatch.isNews, FloodWatch.isNews, hflood, h.streaks]

theorem extend (h : Alike w v) (peer : PeerId) :
    v.extend (v.streakOf peer) = w.extend (w.streakOf peer) := by
  rw [h.streaks, h.rules]
  rfl

theorem verdict (h : Alike w v) : v.verdict = w.verdict := by
  rw [h.rules]
  rfl

/-- **A report leads to the same ban, and keeps two watches alike.** -/
theorem report (h : Alike w v) (banned : Bool) (peer : PeerId) (q : Quota) (a : Admission) :
    (v.report banned peer q a).2 = (w.report banned peer q a).2 ∧
      Alike (w.report banned peer q a).1 (v.report banned peer q a).1 := by
  have hnews := h.isNews banned peer q a
  cases hw : w.isNews banned peer q a with
  | false =>
    rw [report_of_not_isNews hw, report_of_not_isNews (hnews.trans hw)]
    exact ⟨rfl, h⟩
  | true =>
    rw [report_of_isNews hw, report_of_isNews (hnews.trans hw), h.extend, h.verdict]
    refine ⟨rfl, by rw [SameRules, h.rules], fun x => ?_⟩
    rw [streakOf_insert, streakOf_insert, h.streaks]

theorem observe (h : Alike w v) (b : Blacklist) (now : Instant) (peer : PeerId) (q : Quota)
    (a : Admission) :
    (v.observe b now peer q a).2 = (w.observe b now peer q a).2 ∧
      Alike (w.observe b now peer q a).1 (v.observe b now peer q a).1 := by
  obtain ⟨hban, halike⟩ := h.report (b.has peer) peer q a
  have hspan : (v.report (b.has peer) peer q a).1.banSpan =
      (w.report (b.has peer) peer q a).1.banSpan := by rw [halike.rules]
  rw [observe_fst, observe_fst, observe_snd, observe_snd, hban, hspan]
  exact ⟨rfl, halike⟩

theorem addExcess (h : Alike w v) (peer : PeerId) (q : Quota) :
    Alike (w.addExcess peer q) (v.addExcess peer q) where
  rules := by
    rw [SameRules, sameRules_addExcess v, h.rules, sameRules_addExcess w]
  streaks x := by
    have hexceed : v.exceed q = w.exceed q := by
      rw [h.rules]
      rfl
    rw [streakOf_addExcess_eq, streakOf_addExcess_eq, h.streaks, hexceed]

theorem foldl_addExcess (h : Alike w v) (es : List (PeerId × Quota)) :
    Alike (es.foldl (fun w e => w.addExcess e.1 e.2) w)
      (es.foldl (fun w e => w.addExcess e.1 e.2) v) := by
  induction es generalizing w v with
  | nil => exact h
  | cons e es ih => exact ih (h.addExcess e.1 e.2)

theorem endInterval (h : Alike w v) : Alike w.endInterval v.endInterval where
  rules := by
    rw [SameRules, FloodWatch.endInterval, FloodWatch.endInterval, h.rules]
  streaks x := by
    rw [streakOf_endInterval_eq, streakOf_endInterval_eq, h.streaks]

end Alike

end FloodWatch

end Floodgate
