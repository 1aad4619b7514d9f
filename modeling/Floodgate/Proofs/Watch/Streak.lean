import Floodgate.FloodWatch
import Mathlib.Tactic.SplitIfs

/-! # The operations of a watch

What each operation of a watch does to the streak of a peer, and when a report changes anything: it
has to be news (`FloodWatch.isNews`), that is, the first one in its interval that shows flooding of
a peer that is not banned. -/

namespace Floodgate

namespace FloodWatch

/-- The streak of a peer, that of a newcomer if it has none. -/
def streakOf (w : FloodWatch) (peer : PeerId) : Streak := (w.streak? peer).getD {}

theorem streakOf_of_streak? {w : FloodWatch} {peer : PeerId} {s : Streak}
    (h : w.streak? peer = some s) : w.streakOf peer = s := by
  rw [streakOf, h, Option.getD_some]

/-- The watch has the rules of another one. -/
def SameRules (w v : FloodWatch) : Prop := v = { w with streaks := v.streaks }

/-! ### Reports -/

variable {w v : FloodWatch} {banned : Bool} {peer : PeerId} {q : Quota} {a : Admission}

/-- Is a report the first one in the interval that counts? -/
def isNews (w : FloodWatch) (banned : Bool) (peer : PeerId) (q : Quota) (a : Admission) : Bool :=
  !peer.isEmpty && w.isFlooding q a && !banned && !(w.streakOf peer).flagged

theorem report_of_not_isNews (h : w.isNews banned peer q a = false) :
    w.report banned peer q a = (w, none) := by
  have hc : (peer.isEmpty || !w.isFlooding q a || banned || (w.streakOf peer).flagged) = true := by
    unfold isNews at h
    revert h
    cases peer.isEmpty <;> cases w.isFlooding q a <;> cases banned <;>
      cases (w.streakOf peer).flagged <;> simp
  exact if_pos hc

theorem report_of_isNews (h : w.isNews banned peer q a = true) :
    w.report banned peer q a =
      ({ w with streaks := w.streaks.insert peer (w.extend (w.streakOf peer)).1 },
        (w.extend (w.streakOf peer)).2.map w.verdict) := by
  have hc :
      ¬ (peer.isEmpty || !w.isFlooding q a || banned || (w.streakOf peer).flagged) = true := by
    unfold isNews at h
    revert h
    cases peer.isEmpty <;> cases w.isFlooding q a <;> cases banned <;>
      cases (w.streakOf peer).flagged <;> simp
  exact if_neg hc

theorem sameRules_report (w : FloodWatch) (banned : Bool) (peer : PeerId) (q : Quota)
    (a : Admission) : w.SameRules (w.report banned peer q a).1 := by
  cases h : w.isNews banned peer q a with
  | false => rw [report_of_not_isNews h]; rfl
  | true => rw [report_of_isNews h]; rfl

theorem observe_fst (w : FloodWatch) (b : Blacklist) (now : Instant) (peer : PeerId) (q : Quota)
    (a : Admission) : (w.observe b now peer q a).1 = (w.report (b.has peer) peer q a).1 := by
  unfold observe
  rcases w.report (b.has peer) peer q a with ⟨v, _ | entry⟩ <;> rfl

theorem observe_snd (w : FloodWatch) (b : Blacklist) (now : Instant) (peer : PeerId) (q : Quota)
    (a : Admission) :
    (w.observe b now peer q a).2 =
      match (w.report (b.has peer) peer q a).2 with
      | some entry => b.ban now peer entry (w.report (b.has peer) peer q a).1.banSpan
      | none => b := by
  unfold observe
  rcases w.report (b.has peer) peer q a with ⟨v, _ | entry⟩ <;> rfl

theorem streakOf_insert (w : FloodWatch) (peer x : PeerId) (s : Streak) :
    ({ w with streaks := w.streaks.insert peer s }).streakOf x =
      if x = peer then s else w.streakOf x := by
  simp only [streakOf, streak?, Keyed.get?_insert]
  split_ifs <;> rfl

/-- A report extends the streak of the peer it is about if it is news, and no other streak. -/
theorem streakOf_report (w : FloodWatch) (banned : Bool) (peer x : PeerId) (q : Quota)
    (a : Admission) :
    (w.report banned peer q a).1.streakOf x =
      if x = peer ∧ w.isNews banned peer q a = true then (w.extend (w.streakOf x)).1
      else w.streakOf x := by
  cases hn : w.isNews banned peer q a with
  | false =>
    rw [report_of_not_isNews hn, if_neg]
    exact fun h => Bool.false_ne_true h.2
  | true =>
    rw [report_of_isNews hn, streakOf_insert]
    by_cases hx : x = peer
    · rw [if_pos hx, if_pos ⟨hx, rfl⟩, hx]
    · rw [if_neg hx, if_neg fun h => hx h.1]

theorem extend_le (w : FloodWatch) (s : Streak) :
    (w.extend s).1.flagged = true ∧ (w.extend s).1.rounds ≤ s.rounds + 1 := by
  unfold extend
  dsimp only
  split_ifs
  · exact ⟨rfl, Nat.zero_le _⟩
  · exact ⟨rfl, Nat.le_refl _⟩

/-- A report that leads to a ban is news and completes the streak, of which only the mark stays. -/
theorem of_report_eq_some {entry : Ban} (h : (w.report banned peer q a).2 = some entry) :
    w.isNews banned peer q a = true ∧ w.rounds ≤ (w.streakOf peer).rounds + 1 ∧
      (w.report banned peer q a).1.streakOf peer = { flagged := true } := by
  cases hn : w.isNews banned peer q a with
  | false =>
    rw [report_of_not_isNews hn] at h
    cases h
  | true =>
    rw [report_of_isNews hn] at h
    obtain ⟨n, hextend, -⟩ := Option.map_eq_some_iff.mp h
    have hlong : w.rounds ≤ (w.streakOf peer).rounds + 1 := by
      refine Decidable.byContradiction fun hshort => ?_
      rw [extend, if_neg hshort] at hextend
      cases hextend
    refine ⟨rfl, hlong, ?_⟩
    rw [streakOf_report, if_pos ⟨rfl, hn⟩, extend, if_pos hlong]

/-! ### The end of an interval -/

/-- A streak with what the peer has sent above the thresholds in the interval that ends; only an
interval that counts adds to it. -/
def exceed (w : FloodWatch) (q : Quota) (s : Streak) : Streak :=
  if s.flagged && 0 < s.rounds then
    { s with
      excessMessages := s.excessMessages + (q.received - w.messages)
      excessSize := s.excessSize + (q.receivedSize - w.size) }
  else s

theorem streakOf_addExcess_eq (w : FloodWatch) (peer x : PeerId) (q : Quota) :
    (w.addExcess peer q).streakOf x =
      if x = peer then w.exceed q (w.streakOf x) else w.streakOf x := by
  unfold addExcess
  rcases hs : w.streaks.get? peer with _ | s
  · -- a newcomer has nothing to add to
    split_ifs with hx
    · rw [hx, streakOf, streak?, hs]
      rfl
    · rfl
  · have hstreak : w.streakOf peer = s := streakOf_of_streak? hs
    dsimp only
    split_ifs with hf hx hx
    · rw [streakOf_insert, if_pos hx, hx, hstreak, exceed, if_pos hf]
    · rw [streakOf_insert, if_neg hx]
    · rw [hx, hstreak, exceed, if_neg hf]
    · rfl

theorem streakOf_foldl_addExcess {x : PeerId} (h : (w.streakOf x).rounds = 0)
    (es : List (PeerId × Quota)) :
    (es.foldl (fun w e => w.addExcess e.1 e.2) w).streakOf x = w.streakOf x := by
  induction es generalizing w with
  | nil => rfl
  | cons e es ih =>
    have hsame : (w.addExcess e.1 e.2).streakOf x = w.streakOf x := by
      rw [streakOf_addExcess_eq, exceed, h]
      simp
    rw [List.foldl_cons, ih (by rw [hsame, h]), hsame]

/-- What is added to a streak in the end changes neither its length nor its mark. -/
theorem streakOf_addExcess (w : FloodWatch) (peer x : PeerId) (q : Quota) :
    ((w.addExcess peer q).streakOf x).rounds = (w.streakOf x).rounds ∧
      ((w.addExcess peer q).streakOf x).flagged = (w.streakOf x).flagged := by
  rw [streakOf_addExcess_eq]
  unfold exceed
  split_ifs <;> exact ⟨rfl, rfl⟩

theorem rounds_foldl_addExcess (w : FloodWatch) (x : PeerId) (es : List (PeerId × Quota)) :
    ((es.foldl (fun w e => w.addExcess e.1 e.2) w).streakOf x).rounds = (w.streakOf x).rounds ∧
      ((es.foldl (fun w e => w.addExcess e.1 e.2) w).streakOf x).flagged =
        (w.streakOf x).flagged := by
  induction es generalizing w with
  | nil => exact ⟨rfl, rfl⟩
  | cons e es ih =>
    obtain ⟨hrounds, hflagged⟩ := ih (w.addExcess e.1 e.2)
    obtain ⟨hrounds', hflagged'⟩ := streakOf_addExcess w e.1 x e.2
    exact ⟨hrounds.trans hrounds', hflagged.trans hflagged'⟩

theorem sameRules_addExcess (w : FloodWatch) (peer : PeerId) (q : Quota) :
    w.SameRules (w.addExcess peer q) := by
  unfold addExcess
  rcases w.streaks.get? peer with _ | s
  · rfl
  · dsimp only
    split_ifs <;> rfl

theorem sameRules_foldl_addExcess (w : FloodWatch) (es : List (PeerId × Quota)) :
    w.SameRules (es.foldl (fun w e => w.addExcess e.1 e.2) w) := by
  induction es generalizing w with
  | nil => rfl
  | cons e es ih =>
    have hlast : (w.addExcess e.1 e.2).SameRules _ := ih (w.addExcess e.1 e.2)
    rw [List.foldl_cons, SameRules, hlast, sameRules_addExcess w]

theorem streak?_endInterval (w : FloodWatch) (x : PeerId) :
    w.endInterval.streak? x =
      ((w.streak? x).filter (·.flagged)).map fun s => { s with flagged := false } := by
  simp only [streak?, endInterval, Keyed.get?_map, Keyed.get?_keep]

theorem streakOf_endInterval_eq (w : FloodWatch) (x : PeerId) :
    w.endInterval.streakOf x =
      if (w.streakOf x).flagged then { w.streakOf x with flagged := false } else {} := by
  unfold streakOf
  rw [streak?_endInterval]
  rcases w.streak? x with _ | s
  · rfl
  · cases hs : s.flagged <;> simp [Option.filter, hs]

theorem streakOf_endInterval (w : FloodWatch) (x : PeerId) :
    (w.endInterval.streakOf x).flagged = false ∧
      (w.endInterval.streakOf x).rounds =
        if (w.streakOf x).flagged then (w.streakOf x).rounds else 0 := by
  rw [streakOf_endInterval_eq]
  split_ifs <;> exact ⟨rfl, rfl⟩

theorem state_eq_of_not_banned {b : Blacklist} (h : b.has peer = false) :
    w.state b peer =
      if (w.streakOf peer).rounds = 0 then .clean else .flagged (w.streakOf peer).rounds := by
  rw [state, h, if_neg Bool.false_ne_true]
  show (if 0 < (w.streakOf peer).rounds then FloodState.flagged (w.streakOf peer).rounds
    else .clean) = _
  split_ifs with h1 h2 h2
  · omega
  · rfl
  · rfl
  · omega

end FloodWatch

end Floodgate
