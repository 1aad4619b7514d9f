import Floodgate.Proofs.Watch.Chronicle
import Floodgate.Proofs.Watch.Streak

/-! # When a watch bans

A watch keeps two numbers of each peer: the intervals of its streak, and whether the current one has
counted. In every run they are what the reports say (`Agrees`), so a ban is written exactly with the
first report of an interval that counts and completes a streak of the required length
(`FloodWatch.ban_iff_completes`), however the blacklist is changed by others meanwhile. -/

namespace Floodgate

namespace Chronicle

variable {w : FloodWatch} {s : Chronicle} {peer : PeerId}

/-- **What a watch keeps of a peer is what the reports say.** -/
structure Agrees (w : FloodWatch) (s : Chronicle) (peer : PeerId) : Prop where
  rules : w.SameRules s.watch
  flagged : (s.watch.streakOf peer).flagged = w.isCounted peer s.current
  rounds : (s.watch.streakOf peer).rounds = s.standing w peer
  /-- A streak of the required length leads to a ban at once. -/
  below : s.standing w peer < w.rounds
  /-- A ban is written with a report that counts. -/
  banned : hasBanned peer s.current = true → w.isCounted peer s.current = true

namespace Agrees

theorem start (b : Blacklist) (hs : w.streaks = ∅) (hw : 1 ≤ w.rounds) (peer : PeerId) :
    Agrees w ⟨w, b, [], []⟩ peer where
  rules := rfl
  flagged := by simp [FloodWatch.streakOf, FloodWatch.streak?, hs, FloodWatch.isCounted]
  rounds := by
    simp [FloodWatch.streakOf, FloodWatch.streak?, hs, standing, streakBefore,
      FloodWatch.isCounted]
  below := by
    simp only [standing, streakBefore, FloodWatch.isCounted]
    exact hw
  banned h := by simp [hasBanned] at h

/-- A report is news to the watch exactly if it is the first one of the interval that counts. -/
theorem isNews_eq (h : Agrees w s peer) (q : Quota) (a : Admission) :
    s.watch.isNews (s.blacklist.has peer) peer q a =
      (w.counts peer (s.take peer q a) && !w.isCounted peer s.current) := by
  have hflood : s.watch.isFlooding q a = w.isFlooding q a := by rw [h.rules]; rfl
  rw [FloodWatch.isNews, hflood, h.flagged, FloodWatch.counts]
  simp [take]

theorem of_same (h : Agrees w s peer) {s' : Chronicle} (hrules : s.watch.SameRules s'.watch)
    (hflagged : (s'.watch.streakOf peer).flagged = (s.watch.streakOf peer).flagged)
    (hrounds : (s'.watch.streakOf peer).rounds = (s.watch.streakOf peer).rounds)
    (hcounted : w.isCounted peer s'.current = w.isCounted peer s.current)
    (hbanned : hasBanned peer s'.current = hasBanned peer s.current)
    (hclosed : s'.closed = s.closed) : Agrees w s' peer := by
  have hstanding : s'.standing w peer = s.standing w peer := by
    simp only [standing, streakBefore, hcounted, hbanned, hclosed]
  constructor
  · rw [FloodWatch.SameRules, hrules, h.rules]
  · rw [hflagged, hcounted, h.flagged]
  · rw [hrounds, hstanding, h.rounds]
  · rw [hstanding]
    exact h.below
  · rw [hbanned, hcounted]
    exact h.banned

theorem rounds_eq_streakBefore (h : Agrees w s peer) (hc : w.isCounted peer s.current = false) :
    (s.watch.streakOf peer).rounds = s.streakBefore w peer ∧
      s.streakBefore w peer < w.rounds ∧ hasBanned peer s.current = false := by
  have hstanding : s.standing w peer = s.streakBefore w peer := by simp [standing, hc]
  refine ⟨hstanding ▸ h.rounds, hstanding ▸ h.below, ?_⟩
  by_contra hb
  rw [h.banned (by simpa using hb)] at hc
  cases hc

theorem extend_eq (h : Agrees w s peer) (hc : w.isCounted peer s.current = false) :
    s.watch.extend (s.watch.streakOf peer) =
      if s.streakBefore w peer + 1 = w.rounds then ({ flagged := true }, some w.rounds)
      else
        ({ s.watch.streakOf peer with rounds := s.streakBefore w peer + 1, flagged := true },
          none) := by
  obtain ⟨hrounds, hlt, -⟩ := h.rounds_eq_streakBefore hc
  have hN : s.watch.rounds = w.rounds := by rw [h.rules]
  simp only [FloodWatch.extend, hrounds, hN]
  by_cases hfull : s.streakBefore w peer + 1 = w.rounds
  · rw [if_pos hfull, if_pos (by omega), hfull]
  · rw [if_neg hfull, if_neg (by omega)]

/-- **The ban that a report leads to**, if it leads to one. -/
theorem report_snd (h : Agrees w s peer) (q : Quota) (a : Admission) :
    (s.watch.report (s.blacklist.has peer) peer q a).2 =
      if s.completes w peer q a then
        some ⟨s!"flooding for {w.rounds} consecutive rounds", w.origin.name⟩
      else none := by
  have hnews := h.isNews_eq q a
  have hverdict : s.watch.verdict w.rounds =
      ⟨s!"flooding for {w.rounds} consecutive rounds", w.origin.name⟩ := by
    rw [FloodWatch.verdict, h.rules]
  cases hn : s.watch.isNews (s.blacklist.has peer) peer q a with
  | false =>
    rw [hn] at hnews
    rw [FloodWatch.report_of_not_isNews hn, completes, ← hnews]
    rfl
  | true =>
    rw [hn, eq_comm, Bool.and_eq_true, Bool.not_eq_true'] at hnews
    obtain ⟨hcounts, hc⟩ := hnews
    rw [FloodWatch.report_of_isNews hn, h.extend_eq hc]
    simp only [completes, hcounts, hc, Bool.not_false, Bool.true_and, beq_iff_eq]
    split_ifs
    · rw [Option.map_some, hverdict]
    · rfl

theorem report_of_ne (h : Agrees w s peer) (now : Instant) {sender : PeerId} (hne : sender ≠ peer)
    (q : Quota) (a : Admission) : Agrees w (s.step (.report now sender q a)) peer := by
  have hwatch : (s.step (.report now sender q a)).watch =
      (s.watch.report (s.blacklist.has sender) sender q a).1 :=
    FloodWatch.observe_fst _ _ _ _ _ _
  have hcurrent : (s.step (.report now sender q a)).current =
      s.current ++ [s.take sender q a] := rfl
  have hstreak : (s.step (.report now sender q a)).watch.streakOf peer =
      s.watch.streakOf peer := by
    rw [hwatch]
    cases hn : s.watch.isNews (s.blacklist.has sender) sender q a with
    | false => rw [FloodWatch.report_of_not_isNews hn]
    | true => rw [FloodWatch.report_of_isNews hn, FloodWatch.streakOf_insert, if_neg hne.symm]
  refine h.of_same ?_ (by rw [hstreak]) (by rw [hstreak]) ?_ ?_ rfl
  · rw [hwatch]
    exact FloodWatch.sameRules_report _ _ _ _ _
  · rw [hcurrent, FloodWatch.isCounted_append, FloodWatch.counts_of_ne w hne, Bool.or_false]
  · have hpeer : (s.take sender q a).peer = sender := rfl
    rw [hcurrent, hasBanned_append, hpeer, decide_eq_false hne, Bool.false_and, Bool.or_false]

theorem report_self (h : Agrees w s peer) (now : Instant) (q : Quota) (a : Admission) :
    Agrees w (s.step (.report now peer q a)) peer := by
  have hwatch : (s.step (.report now peer q a)).watch =
      (s.watch.report (s.blacklist.has peer) peer q a).1 :=
    FloodWatch.observe_fst _ _ _ _ _ _
  have hrules : s.watch.SameRules (s.step (.report now peer q a)).watch := by
    rw [hwatch]
    exact FloodWatch.sameRules_report _ _ _ _ _
  have hcounted : w.isCounted peer (s.step (.report now peer q a)).current =
      (w.isCounted peer s.current || w.counts peer (s.take peer q a)) :=
    FloodWatch.isCounted_append _ _ _ _
  have hbanned : hasBanned peer (s.step (.report now peer q a)).current =
      (hasBanned peer s.current || s.completes w peer q a) := by
    have hcurrent : (s.step (.report now peer q a)).current = s.current ++ [s.take peer q a] := rfl
    have hban : (s.take peer q a).ban.isSome = s.completes w peer q a := by
      rw [take, h.report_snd]
      cases s.completes w peer q a <;> rfl
    have hpeer : (s.take peer q a).peer = peer := rfl
    rw [hcurrent, hasBanned_append, hban, hpeer, decide_eq_true rfl, Bool.true_and]
  have hnews := h.isNews_eq q a
  cases hn : s.watch.isNews (s.blacklist.has peer) peer q a with
  | false =>
    -- nothing is new: the report does not count, or an earlier one of the interval did
    rw [hn, eq_comm] at hnews
    rw [FloodWatch.report_of_not_isNews hn] at hwatch
    have hno : s.completes w peer q a = false := by rw [completes, hnews, Bool.false_and]
    refine h.of_same hrules (by rw [hwatch]) (by rw [hwatch]) ?_ ?_ rfl
    · rw [hcounted]
      revert hnews
      cases w.isCounted peer s.current <;> simp
    · rw [hbanned, hno, Bool.or_false]
  | true =>
    rw [hn, eq_comm, Bool.and_eq_true, Bool.not_eq_true'] at hnews
    obtain ⟨hcounts, hc⟩ := hnews
    obtain ⟨hrounds, hlt, hnoban⟩ := h.rounds_eq_streakBefore hc
    have hcompletes : s.completes w peer q a = (s.streakBefore w peer + 1 == w.rounds) := by
      rw [completes, hcounts, hc, Bool.not_false, Bool.true_and, Bool.true_and]
    have hstreak : (s.step (.report now peer q a)).watch.streakOf peer =
        (s.watch.extend (s.watch.streakOf peer)).1 := by
      rw [hwatch, FloodWatch.report_of_isNews hn, FloodWatch.streakOf_insert, if_pos rfl]
    have hstanding : (s.step (.report now peer q a)).standing w peer =
        if s.streakBefore w peer + 1 = w.rounds then 0 else s.streakBefore w peer + 1 := by
      have hbefore : (s.step (.report now peer q a)).streakBefore w peer =
          s.streakBefore w peer := rfl
      simp only [standing, hcounted, hbanned, hcounts, hnoban, hcompletes, hbefore, Bool.or_true,
        Bool.false_or, beq_iff_eq, if_true]
    constructor
    · rw [FloodWatch.SameRules, hrules, h.rules]
    · rw [hstreak, h.extend_eq hc, hcounted, hcounts, Bool.or_true]
      split_ifs <;> rfl
    · rw [hstreak, h.extend_eq hc, hstanding]
      split_ifs <;> rfl
    · rw [hstanding]
      split_ifs <;> omega
    · intro _
      rw [hcounted, hcounts, Bool.or_true]

/-- The end of an interval keeps the agreement: the standing becomes the streak. -/
theorem endInterval (h : Agrees w s peer) : Agrees w (s.step .endInterval) peer := by
  obtain ⟨hflagged, hrounds⟩ := FloodWatch.streakOf_endInterval s.watch peer
  have hstanding : (s.step .endInterval).standing w peer =
      if w.isCounted peer s.current then s.standing w peer else 0 :=
    streakBefore_endInterval w s peer
  constructor
  · have hrules : s.watch.SameRules s.watch.endInterval := rfl
    show w.SameRules s.watch.endInterval
    rw [FloodWatch.SameRules, hrules, h.rules]
  · exact hflagged
  · rw [hstanding, ← h.flagged, ← h.rounds]
    exact hrounds
  · have := h.below
    rw [hstanding]
    split_ifs <;> omega
  · intro hb
    simp [step, hasBanned] at hb

theorem step (h : Agrees w s peer) (e : WatchEvent) : Agrees w (s.step e) peer := by
  cases e with
  | report now sender q a =>
    by_cases hs : sender = peer
    · subst hs
      exact h.report_self now q a
    · exact h.report_of_ne now hs q a
  | addExcess sender q =>
    obtain ⟨hrounds, hflagged⟩ := FloodWatch.streakOf_addExcess s.watch sender peer q
    exact h.of_same (FloodWatch.sameRules_addExcess _ _ _) hflagged hrounds rfl rfl rfl
  | endInterval => exact h.endInterval
  | ban now sender entry span => exact h.of_same rfl rfl rfl rfl rfl rfl
  | lift sender => exact h.of_same rfl rfl rfl rfl rfl rfl
  | sweep now => exact h.of_same rfl rfl rfl rfl rfl rfl

end Agrees

/-- **A watch agrees with the reports in every run.** -/
theorem agrees_chronicle (b : Blacklist) (hs : w.streaks = ∅) (hw : 1 ≤ w.rounds)
    (es : List WatchEvent) (peer : PeerId) : Agrees w (w.chronicle b es) peer := by
  induction es using List.reverseRecOn with
  | nil => exact Agrees.start b hs hw peer
  | append_singleton es e ih =>
    rw [chronicle_append]
    exact ih.step e

end Chronicle

namespace FloodWatch

theorem of_make? {origin : Speed} {c : BanConfig} {w : FloodWatch}
    (h : make? origin c = .ok w) : w = new origin c ∧ 1 ≤ c.rounds.toNat := by
  unfold make? at h
  cases hcheck : Rule.check (rules origin c) with
  | error f => rw [hcheck] at h; cases h
  | ok u =>
    rw [hcheck] at h
    have hrules := Rule.check_eq_ok_iff.mp hcheck
    have hrounds : c.rounds ≠ 0 := by
      simpa using hrules (c.rounds != 0, .watchRounds origin) (by simp [rules])
    exact ⟨(Except.ok.inj h).symm, Nat.pos_of_ne_zero fun h0 => hrounds (UInt32.toNat_inj.mp h0)⟩

/-- **When a watch bans.** In every run of a watch that was built from settings, over a blacklist
that others change as they like, a report leads to a ban exactly if it is the first one of its
interval that counts and completes a streak of the required length; no other operation of the watch
touches the blacklist. A peer that is not banned is known by the intervals of its streak. -/
theorem ban_iff_completes {origin : Speed} {c : BanConfig} {w : FloodWatch}
    (hw : make? origin c = .ok w) (b : Blacklist) (es : List WatchEvent) :
    let s := w.chronicle b es
    let verdict : Ban := ⟨s!"flooding for {c.rounds.toNat} consecutive rounds", origin.name⟩
    (∀ peer q a,
      (s.take peer q a).ban = if s.completes w peer q a then some verdict else none) ∧
    (∀ now peer q a, (s.step (.report now peer q a)).blacklist =
      if s.completes w peer q a then s.blacklist.ban now peer verdict c.banSpan
      else s.blacklist) ∧
    (∀ peer q, (s.step (.addExcess peer q)).blacklist = s.blacklist) ∧
    (s.step .endInterval).blacklist = s.blacklist ∧
    ∀ peer, s.blacklist.has peer = false →
      s.watch.state s.blacklist peer =
        if s.standing w peer = 0 then .clean else .flagged (s.standing w peer) := by
  intro s verdict
  obtain ⟨rfl, hrounds⟩ := of_make? hw
  have hagrees := Chronicle.agrees_chronicle b (w := new origin c) rfl hrounds es
  refine ⟨fun peer q a => (hagrees peer).report_snd q a, ?_, fun _ _ => rfl, rfl, ?_⟩
  · intro now peer q a
    have hspan : (s.watch.report (s.blacklist.has peer) peer q a).1.banSpan = c.banSpan := by
      rw [sameRules_report, (hagrees peer).rules]
      rfl
    show (s.watch.observe s.blacklist now peer q a).2 = _
    rw [observe_snd, (hagrees peer).report_snd, hspan]
    split_ifs <;> rfl
  · intro peer hno
    rw [state_eq_of_not_banned hno, (hagrees peer).rounds]

/-- Settings by which two flooding intervals lead to a ban of a minute. -/
def strictConfig : BanConfig := { messages := 5, size := 100, rounds := 2, banSeconds := 60 }

/-- A flooding interval, and one in which a ban by somebody else hides the flood until it is
lifted. -/
def hiddenFlood : List WatchEvent :=
  [.report 0 ⟨[1]⟩ { received := 5 } .admitted, .endInterval,
    .ban 1 ⟨[1]⟩ ⟨"manual", Ban.external⟩ 60, .report 2 ⟨[1]⟩ { received := 5 } .admitted,
    .report 2 ⟨[2]⟩ { received := 5 } .admitted, .lift ⟨[1]⟩]

/-- The first report after the lift completes the streak. -/
theorem ban_after_lift :
    let w := new .fast strictConfig
    let s := w.chronicle .empty hiddenFlood
    make? .fast strictConfig = .ok w ∧
      s.completes w ⟨[1]⟩ { received := 6 } .admitted = true ∧
      s.completes w ⟨[2]⟩ { received := 6 } .admitted = false ∧
      (s.step (.report 3 ⟨[1]⟩ { received := 6 } .admitted)).blacklist =
        s.blacklist.ban 3 ⟨[1]⟩ ⟨s!"flooding for {2} consecutive rounds", Speed.fast.name⟩
          strictConfig.banSpan := by
  have hw : make? .fast strictConfig = .ok (new .fast strictConfig) := rfl
  have hyes : ((new .fast strictConfig).chronicle .empty hiddenFlood).completes
      (new .fast strictConfig) ⟨[1]⟩ { received := 6 } .admitted = true := by decide +kernel
  have hban := (ban_iff_completes hw .empty hiddenFlood).2.1 3 ⟨[1]⟩ { received := 6 } .admitted
  rw [if_pos hyes] at hban
  exact ⟨hw, hyes, by decide +kernel, hban⟩

end FloodWatch

end Floodgate
