import Floodgate.Gate
import Floodgate.Proofs.Cache.Lease
import Floodgate.Proofs.Watch.Criterion

/-! # The records of a watch

A watch has a record of exactly the peers that have flooded in the current interval or in the one
before it (`Chronicle.isSome_streak?`), marked if it was in the current one. A record stands below
the length that leads to a ban, and it grows by one interval at most from one reset to the next
(`FloodWatch.Within.run`). The peer without an identifier is never on record and never
banned, in whichever way a ban of it is asked for. `FloodWatch.record_iff_counted` puts these
together. -/

namespace Floodgate

/-! ### Which peers are on record -/

namespace FloodWatch

variable {w : FloodWatch} {banned : Bool} {peer x : PeerId} {q : Quota} {a : Admission}

theorem isSome_streak?_report :
    ((w.report banned peer q a).1.streak? x).isSome =
      ((w.streak? x).isSome || (x = peer && w.isNews banned peer q a)) := by
  cases hn : w.isNews banned peer q a with
  | false => rw [report_of_not_isNews hn, Bool.and_false, Bool.or_false]
  | true =>
    rw [report_of_isNews hn, streak?, Keyed.get?_insert]
    by_cases hx : x = peer
    · simp [hx]
    · simp [hx, streak?]

theorem isSome_streak?_addExcess :
    ((w.addExcess peer q).streak? x).isSome = (w.streak? x).isSome := by
  unfold addExcess
  rcases hs : w.streaks.get? peer with _ | s
  · rfl
  · dsimp only
    split_ifs
    · rw [streak?, Keyed.get?_insert]
      by_cases hx : x = peer
      · rw [if_pos hx, hx, streak?, hs, Option.isSome_some, Option.isSome_some]
      · rw [if_neg hx, streak?]
    · rfl

theorem isSome_streak?_endInterval :
    (w.endInterval.streak? x).isSome = (w.streakOf x).flagged := by
  rw [streak?_endInterval, streakOf]
  rcases w.streak? x with _ | s
  · rfl
  · cases hs : s.flagged <;> simp [Option.filter, hs]

end FloodWatch

namespace Chronicle

variable {w : FloodWatch} {s : Chronicle} {peer : PeerId}

/-- Has the peer flooded in the current interval or in the one before? -/
def recentlyCounted (w : FloodWatch) (s : Chronicle) (peer : PeerId) : Bool :=
  w.isCounted peer s.current || s.closed.head?.any (w.isCounted peer)

theorem isSome_streak?_step (hagrees : Agrees w s peer)
    (h : (s.watch.streak? peer).isSome = s.recentlyCounted w peer) (e : WatchEvent) :
    ((s.step e).watch.streak? peer).isSome = (s.step e).recentlyCounted w peer := by
  cases e with
  | report now sender q a =>
    have hwatch : (s.step (.report now sender q a)).watch =
        (s.watch.report (s.blacklist.has sender) sender q a).1 :=
      FloodWatch.observe_fst _ _ _ _ _ _
    have hcounted : w.isCounted peer (s.step (.report now sender q a)).current =
        (w.isCounted peer s.current || w.counts peer (s.take sender q a)) :=
      FloodWatch.isCounted_append _ _ _ _
    have hclosed : (s.step (.report now sender q a)).closed = s.closed := rfl
    rw [hwatch, FloodWatch.isSome_streak?_report, h, recentlyCounted, recentlyCounted, hcounted,
      hclosed]
    by_cases hs : peer = sender
    · subst hs
      rw [hagrees.isNews_eq, decide_eq_true rfl, Bool.true_and]
      cases w.isCounted peer s.current <;> cases s.closed.head?.any (w.isCounted peer) <;> simp
    · have hnot : w.counts peer (s.take sender q a) = false :=
        FloodWatch.counts_of_ne w (Ne.symm hs)
      rw [hnot, decide_eq_false hs, Bool.false_and, Bool.or_false, Bool.or_false]
  | addExcess sender q => exact FloodWatch.isSome_streak?_addExcess.trans h
  | endInterval =>
    have hended : (s.step .endInterval).recentlyCounted w peer = w.isCounted peer s.current := by
      simp [recentlyCounted, step, FloodWatch.isCounted]
    rw [hended, ← hagrees.flagged]
    exact FloodWatch.isSome_streak?_endInterval
  | ban now sender entry span => exact h
  | lift sender => exact h
  | sweep now => exact h

/-- **On record are the peers that have flooded in the current interval or in the one before.** -/
theorem isSome_streak? (b : Blacklist) (hs : w.streaks = ∅) (hw : 1 ≤ w.rounds)
    (es : List WatchEvent) (peer : PeerId) :
    ((w.chronicle b es).watch.streak? peer).isSome = (w.chronicle b es).recentlyCounted w peer := by
  induction es using List.reverseRecOn with
  | nil =>
    have hstart : (w.chronicle b []).watch.streak? peer = none := by
      show w.streaks.get? peer = none
      rw [hs, Keyed.get?_empty]
    rw [hstart]
    rfl
  | append_singleton es e ih =>
    rw [chronicle_append]
    exact isSome_streak?_step (agrees_chronicle b hs hw es peer) ih e

theorem recentlyCounted_iff : s.recentlyCounted w peer = true ↔
    w.isCounted peer s.current = true ∨ ∃ rs ∈ s.closed.head?, w.isCounted peer rs = true := by
  rw [recentlyCounted, Bool.or_eq_true, Option.any_eq_true]
  rfl

namespace Agrees

theorem of_streak? {x : Streak} (h : Agrees w s peer) (hx : s.watch.streak? peer = some x) :
    x.rounds < w.rounds ∧ x.flagged = w.isCounted peer s.current := by
  have hstreak := FloodWatch.streakOf_of_streak? hx
  exact ⟨hstreak ▸ h.rounds ▸ h.below, hstreak ▸ h.flagged⟩

theorem of_state_flagged {n : Nat} (h : Agrees w s peer)
    (hstate : s.watch.state s.blacklist peer = .flagged n) : 1 ≤ n ∧ n < w.rounds := by
  have hbelow : (s.watch.streakOf peer).rounds < w.rounds := h.rounds ▸ h.below
  have hfree : s.blacklist.has peer = false := by
    by_contra hbanned
    rw [FloodWatch.state, if_pos (by simpa using hbanned)] at hstate
    cases hstate
  rw [FloodWatch.state_eq_of_not_banned hfree] at hstate
  split_ifs at hstate with h0
  cases hstate
  exact ⟨Nat.one_le_iff_ne_zero.mpr h0, hbelow⟩

end Agrees

end Chronicle

/-! ### One interval -/

namespace FloodWatch

/-- A streak in an interval that began with a number of rounds: one more once it is marked. -/
structure Within (n : Nat) (s : Streak) : Prop where
  rounds_le : s.rounds ≤ n + 1
  unmarked : s.flagged = false → s.rounds ≤ n

theorem Within.report {n : Nat} {w : FloodWatch} {peer : PeerId} (h : Within n (w.streakOf peer))
    (banned : Bool) (sender : PeerId) (q : Quota) (a : Admission) :
    Within n ((w.report banned sender q a).1.streakOf peer) := by
  rw [streakOf_report]
  split_ifs with hnews
  · obtain ⟨rfl, hnews⟩ := hnews
    have hunmarked : (w.streakOf peer).flagged = false := by
      simp only [isNews, Bool.and_eq_true, Bool.not_eq_true'] at hnews
      exact hnews.2
    obtain ⟨hmarked, hle⟩ := w.extend_le (w.streakOf peer)
    have hn := h.unmarked hunmarked
    exact ⟨by omega, fun hf => absurd (hf.symm.trans hmarked) Bool.false_ne_true⟩
  · exact h

/-- **However many reports arrive, a streak grows by one interval at most up to the next reset.** -/
theorem Within.run {n : Nat} {s : Chronicle} {peer : PeerId}
    (h : Within n (s.watch.streakOf peer)) {es : List WatchEvent} (whole : .endInterval ∉ es) :
    Within n ((es.foldl Chronicle.step s).watch.streakOf peer) := by
  induction es generalizing s with
  | nil => exact h
  | cons e es ih =>
    refine ih ?_ (List.not_mem_of_not_mem_cons whole)
    cases e with
    | report now sender q a =>
      have hwatch : (s.step (.report now sender q a)).watch =
          (s.watch.report (s.blacklist.has sender) sender q a).1 := observe_fst _ _ _ _ _ _
      rw [hwatch]
      exact h.report _ _ _ _
    | addExcess sender q =>
      obtain ⟨hrounds, hflagged⟩ := streakOf_addExcess s.watch sender peer q
      constructor
      · exact (congrArg (· ≤ n + 1) hrounds).mpr h.rounds_le
      · intro hf
        exact (congrArg (· ≤ n) hrounds).mpr (h.unmarked (hflagged.symm.trans hf))
    | endInterval => exact absurd rfl (List.ne_of_not_mem_cons whole)
    | ban now sender entry span => exact h
    | lift sender => exact h
    | sweep now => exact h

end FloodWatch

/-! ### The peer without an identifier -/

section Nobody

variable {nobody : PeerId} (h : nobody.isEmpty = true)
include h

theorem FloodWatch.isCounted_nobody (w : FloodWatch) (rs : List Report) :
    w.isCounted nobody rs = false := by
  simp [isCounted, counts, h]

theorem FloodWatch.observe_nobody (w : FloodWatch) (b : Blacklist) (now : Instant) (q : Quota)
    (a : Admission) : w.observe b now nobody q a = (w, b) := by
  have hnews : w.isNews (b.has nobody) nobody q a = false := by simp [isNews, h]
  rw [observe, report_of_not_isNews hnews]

theorem Blacklist.ban_nobody (b : Blacklist) (now : Instant) (entry : Ban) (span : Span) :
    b.ban now nobody entry span = b := if_pos h

theorem Gate.ban_nobody (g : Gate) (now : Instant) (reason : String) (span : Span) :
    g.ban now nobody reason span = g := by
  rw [ban, Blacklist.ban_nobody h]
  rfl

theorem Denials.deny_nobody (d : Denials) (directory : Directory) (now : Instant) (reason : String)
    (span : Span) : d.deny directory now nobody reason span = d := if_pos h

theorem Chronicle.recentlyCounted_nobody (w : FloodWatch) (s : Chronicle) :
    s.recentlyCounted w nobody = false := by
  rw [recentlyCounted, FloodWatch.isCounted_nobody h, Bool.false_or]
  rcases s.closed.head? with _ | rs
  · rfl
  · exact FloodWatch.isCounted_nobody h w rs

theorem Blacklist.has_ban_nobody (b : Blacklist) (now : Instant) (peer : PeerId) (entry : Ban)
    (span : Span) : (b.ban now peer entry span).has nobody = b.has nobody := by
  by_cases hpeer : nobody = peer
  · rw [← hpeer, ban_nobody h]
  · rw [has_eq, has_eq, lease?_ban_of_ne b now peer nobody entry span hpeer]

/-- **No event bans nobody.** -/
theorem Chronicle.has_nobody_step {s : Chronicle} (hs : s.blacklist.has nobody = false)
    (e : WatchEvent) : (s.step e).blacklist.has nobody = false := by
  have hnone : s.blacklist.lease? nobody = none := by
    rwa [Blacklist.has_eq, Option.isSome_eq_false_iff, Option.isNone_iff_eq_none] at hs
  cases e with
  | report now sender q a =>
    show (s.watch.observe s.blacklist now sender q a).2.has nobody = false
    rw [FloodWatch.observe_snd]
    split
    · rw [Blacklist.has_ban_nobody h, hs]
    · exact hs
  | addExcess sender q => exact hs
  | endInterval => exact hs
  | ban now sender entry span => exact (Blacklist.has_ban_nobody h _ _ _ _ _).trans hs
  | lift sender =>
    have hremoved : (s.blacklist.remove sender).lease? nobody = none := by
      refine (TimeCache.lease?_remove _ _ _).trans ?_
      split_ifs
      · rfl
      · exact hnone
    exact congrArg Option.isSome hremoved
  | sweep now =>
    have hswept : (s.blacklist.sweep now).lease? nobody = none := by
      rw [Blacklist.lease?_sweep, hnone, Option.filter_none]
    exact congrArg Option.isSome hswept

theorem Chronicle.has_nobody (w : FloodWatch) {b : Blacklist} (hb : b.has nobody = false)
    (es : List WatchEvent) : (w.chronicle b es).blacklist.has nobody = false := by
  induction es using List.reverseRecOn with
  | nil => exact hb
  | append_singleton es e ih =>
    rw [chronicle_append]
    exact has_nobody_step h ih e

end Nobody

theorem Denials.peers_deny (d : Denials) (directory : Directory) (now : Instant) (peer : PeerId)
    (reason : String) (span : Span) :
    (d.deny directory now peer reason span).peers =
      d.peers.ban now peer ⟨reason, Ban.external⟩ span := by
  cases hid : peer.isEmpty with
  | true => rw [deny_nobody hid, Blacklist.ban_nobody hid]
  | false => rw [deny, hid, if_neg Bool.false_ne_true]

/-! ### The whole -/

namespace FloodWatch

/-- **The records of a watch.** In every run of a watch that was built from settings, over a
blacklist that others change as they like, a record stands below the length of streak that leads to
a ban, so that counting one interval more stays within the counter, and a peer that is flagged is so
for at least one interval. On record are exactly the peers that have flooded in the current interval
or in the one that ended last, with a mark if it was in the current one. Up to the next reset a
streak grows by one interval at most. A ban by a gate or a denial is an event of such a run, and the
peer without an identifier is never on record nor banned, whatever is reported of it and in
whichever way a ban of it is asked for. -/
theorem record_iff_counted {origin : Speed} {c : BanConfig} {w : FloodWatch}
    (hw : make? origin c = .ok w) (b : Blacklist) (es : List WatchEvent) :
    let s := w.chronicle b es
    (∀ peer x, s.watch.streak? peer = some x →
      x.rounds < c.rounds.toNat ∧ x.rounds + 1 ≤ countLimit ∧
        (x.flagged = true ↔ w.isCounted peer s.current = true)) ∧
    (∀ peer n, s.watch.state s.blacklist peer = .flagged n → 1 ≤ n ∧ n < c.rounds.toNat) ∧
    (∀ peer, (∃ x, s.watch.streak? peer = some x) ↔
      w.isCounted peer s.current = true ∨ ∃ rs ∈ s.closed.head?, w.isCounted peer rs = true) ∧
    (∀ peer more, .endInterval ∉ more →
      ((w.chronicle b (es ++ more)).watch.streakOf peer).rounds ≤
        (s.watch.streakOf peer).rounds + 1) ∧
    (∀ now peer reason span,
      (∀ g : Gate, g.blacklist = s.blacklist → (g.ban now peer reason span).blacklist =
        (s.step (.ban now peer ⟨reason, Ban.external⟩ span)).blacklist) ∧
      ∀ d : Denials, d.peers = s.blacklist → ∀ directory,
        (d.deny directory now peer reason span).peers =
          (s.step (.ban now peer ⟨reason, Ban.external⟩ span)).blacklist) ∧
    ∀ nobody : PeerId, nobody.isEmpty = true →
      s.watch.streak? nobody = none ∧
      (b.has nobody = false → s.blacklist.has nobody = false) ∧
      (∀ now q a, s.watch.observe s.blacklist now nobody q a = (s.watch, s.blacklist)) ∧
      (∀ now entry span, s.blacklist.ban now nobody entry span = s.blacklist) ∧
      (∀ (g : Gate) now reason span, g.ban now nobody reason span = g) ∧
      ∀ (d : Denials) directory now reason span, d.deny directory now nobody reason span = d := by
  intro s
  obtain ⟨rfl, hrounds⟩ := of_make? hw
  have hagrees := Chronicle.agrees_chronicle b (w := new origin c) rfl hrounds es
  have hrecord := Chronicle.isSome_streak? b (w := new origin c) rfl hrounds es
  refine ⟨?_, ?_, ?_, ?_, ?_, ?_⟩
  · intro peer x hx
    obtain ⟨hbelow, hflagged⟩ := (hagrees peer).of_streak? hx
    have hlimit : c.rounds.toNat ≤ countLimit := Nat.le_sub_one_of_lt c.rounds.toNat_lt
    exact ⟨hbelow, Nat.le_trans hbelow hlimit, by rw [hflagged]⟩
  · exact fun peer n hstate => (hagrees peer).of_state_flagged hstate
  · intro peer
    rw [← Option.isSome_iff_exists, hrecord, Chronicle.recentlyCounted_iff]
  · intro peer more whole
    have hrun : (new origin c).chronicle b (es ++ more) = more.foldl Chronicle.step s :=
      List.foldl_append
    rw [hrun]
    exact (Within.run ⟨Nat.le_succ _, fun _ => Nat.le_refl _⟩ whole).rounds_le
  · intro now peer reason span
    refine ⟨fun g hg => ?_, fun d hd directory => ?_⟩
    · show g.blacklist.ban now peer ⟨reason, Ban.external⟩ span = _
      rw [hg]
      rfl
    · rw [Denials.peers_deny, hd]
      rfl
  · intro nobody hid
    have hnone : s.watch.streak? nobody = none := by
      rw [← Option.isNone_iff_eq_none, ← Option.isSome_eq_false_iff, hrecord]
      exact Chronicle.recentlyCounted_nobody hid _ s
    exact ⟨hnone, fun hb => Chronicle.has_nobody hid _ hb es,
      fun now q a => observe_nobody hid _ _ now q a, Blacklist.ban_nobody hid _,
      Gate.ban_nobody hid, Denials.deny_nobody hid⟩

/-- Settings by which three flooding intervals lead to a ban. -/
def patientConfig : BanConfig := { strictConfig with rounds := 3 }

/-- Two peers flood in the first interval, and one of them in the second; reports of nobody and a
ban of nobody come in between. -/
def patchyFlood : List WatchEvent :=
  [.report 0 ⟨[1]⟩ { received := 5 } .admitted, .report 0 ⟨[2]⟩ { received := 9 } .admitted,
    .report 0 ⟨[]⟩ { received := 9 } .admitted, .endInterval,
    .ban 1 ⟨[]⟩ ⟨"manual", Ban.external⟩ 60, .report 1 ⟨[1]⟩ { received := 7 } .admitted]

/-- One more flooding report of each peer before the interval ends. -/
def moreFlood : List WatchEvent :=
  [.report 2 ⟨[1]⟩ { received := 8 } .admitted, .report 2 ⟨[2]⟩ { received := 6 } .admitted]

/-- The peer that is quiet is on record without a mark, and one more report takes it further; the
other one is marked, and the same report leaves it where it is. -/
theorem patchyFlood_on_record :
    let w := new .fast patientConfig
    let s := w.chronicle .empty patchyFlood
    let t := w.chronicle .empty (patchyFlood ++ moreFlood)
    make? .fast patientConfig = .ok w ∧
      s.watch.streak? ⟨[1]⟩ = some { rounds := 2, flagged := true } ∧
      2 < patientConfig.rounds.toNat ∧
      s.watch.streak? ⟨[2]⟩ = some { rounds := 1 } ∧
      (∃ rs ∈ s.closed.head?, w.isCounted ⟨[2]⟩ rs = true) ∧
      (t.watch.streakOf ⟨[1]⟩).rounds = 2 ∧ (t.watch.streakOf ⟨[2]⟩).rounds = 2 ∧
      (t.watch.streakOf ⟨[2]⟩).rounds ≤ (s.watch.streakOf ⟨[2]⟩).rounds + 1 ∧
      s.watch.streak? ⟨[]⟩ = none ∧ s.blacklist.has ⟨[]⟩ = false := by
  intro w s t
  have hw : make? .fast patientConfig = .ok w := rfl
  have hone : s.watch.streak? ⟨[1]⟩ = some { rounds := 2, flagged := true } := by decide +kernel
  have htwo : s.watch.streak? ⟨[2]⟩ = some { rounds := 1 } := by decide +kernel
  have hquiet : w.isCounted ⟨[2]⟩ s.current = false := by decide +kernel
  obtain ⟨hrecord, -, hcounted, hgrowth, -, hnobody⟩ := record_iff_counted hw .empty patchyFlood
  obtain ⟨hnone, hfree, -⟩ := hnobody ⟨[]⟩ rfl
  have hlast := ((hcounted ⟨[2]⟩).mp ⟨_, htwo⟩).resolve_left fun h =>
    Bool.false_ne_true (hquiet.symm.trans h)
  exact ⟨hw, hone, (hrecord _ _ hone).1, htwo, hlast, by decide +kernel, by decide +kernel,
    hgrowth ⟨[2]⟩ moreFlood (by simp [moreFlood]), hnone, hfree rfl⟩

end FloodWatch

end Floodgate
