import Floodgate.Proofs.Gate.Post
import Floodgate.Proofs.Tier.Budget
import Mathlib.Data.List.Infix

/-! # Served bans

A ban leaves nothing of the streak that led to it but the mark that the current interval has been
counted. While the ban holds the watch takes no note of the peer, so that the next reset drops that
mark, and with it the last thing that tells the peer from a newcomer
(`Post.streakOf_run_of_banned`). If the ban is lifted earlier, the mark keeps the watch from
counting the same interval once more (`Post.streakOf_run_of_marked`). In both cases a new ban takes
a fresh streak (`Post.Backed.rounds_le_run`), and `Post.served_ban_leaves_no_history` puts these
together. -/

namespace Floodgate

namespace Post

variable {s : Post} {peer : PeerId}

/-! ### What is left of a ban -/

theorem of_mem_bans {e : PostEvent} {x : Sentence} (hx : x ∈ s.bans e) :
    ∃ c size, e = .message c x.peer size ∧ s.isBanned x.peer = false ∧
      s.watch.isNews (s.isBanned x.peer) x.peer (s.ruling c x.peer size).1
        (s.ruling c x.peer size).2 = true ∧
      s.watch.rounds ≤ (s.watch.streakOf x.peer).rounds + 1 ∧
      (s.step e).watch.streakOf x.peer = { flagged := true } := by
  cases e with
  | message c sender size =>
    obtain ⟨-, hpeer, -, hfree⟩ := Lane.of_mem_sentence hx
    rw [bans_message] at hx
    obtain ⟨entry, hreport, -⟩ := Option.map_eq_some_iff.mp (Option.mem_toList.mp hx)
    obtain ⟨hnews, hrounds, hstreak⟩ := FloodWatch.of_report_eq_some hreport
    rw [hpeer]
    exact ⟨c, size, rfl, hfree, hnews, hrounds, by rw [watch_message, hstreak]⟩
  | _ => exact absurd hx List.not_mem_nil

/-- **A peer that is banned, or whose interval has been counted, is not banned anew**, and of its
streak only the mark is left, up to the next reset. -/
theorem streakOf_step {b : Bool} (h : s.watch.streakOf peer = { flagged := b })
    (hquiet : s.isBanned peer = true ∨ b = true) (e : PostEvent) :
    (s.step e).watch.streakOf peer = { flagged := b && e ≠ .reset } ∧
      ∀ x ∈ s.bans e, x.peer ≠ peer := by
  have hnews : ∀ q a, s.watch.isNews (s.isBanned peer) peer q a = false := by
    intro q a
    rw [FloodWatch.isNews, h]
    rcases hquiet with hbanned | hmarked
    · simp [hbanned]
    · simp [hmarked]
  refine ⟨?_, ?_⟩
  · cases e with
    | message c sender size =>
      have hold : ¬(peer = sender ∧ s.watch.isNews (s.isBanned sender) sender
          (s.ruling c sender size).1 (s.ruling c sender size).2 = true) := by
        rintro ⟨rfl, hyes⟩
        rw [hnews] at hyes
        cases hyes
      rw [watch_message, FloodWatch.streakOf_report, if_neg hold, h]
      simp
    | reset =>
      have hadded : (s.watch.streakOf peer).rounds = 0 := by rw [h]
      rw [watch_reset, FloodWatch.streakOf_endInterval_eq,
        FloodWatch.streakOf_foldl_addExcess hadded, h]
      simp
    | _ =>
      refine Eq.trans h ?_
      simp
  · rintro x hx rfl
    obtain ⟨c, size, -, -, hyes, -, -⟩ := of_mem_bans hx
    rw [hnews] at hyes
    cases hyes

theorem streakOf_run_of_banned {b : Bool} (h : s.watch.streakOf peer = { flagged := b })
    {es : List PostEvent} (held : ∀ before, before <+: es → (s.run before).isBanned peer = true) :
    (s.run es).watch.streakOf peer = { flagged := b && .reset ∉ es } := by
  induction es generalizing s b with
  | nil => simpa [run] using h
  | cons e es ih =>
    have hnow : s.isBanned peer = true := held [] List.nil_prefix
    obtain ⟨hstreak, -⟩ := streakOf_step h (Or.inl hnow) e
    have hrest := ih hstreak fun before hbefore =>
      held (e :: before) ((List.prefix_cons_inj e).mpr hbefore)
    have hmark : ((b && decide (e ≠ .reset)) && decide (.reset ∉ es)) =
        (b && decide (.reset ∉ e :: es)) := by
      rw [Bool.and_assoc, ← Bool.decide_and]
      simp [List.mem_cons, eq_comm]
    exact hrest.trans (by rw [hmark])

theorem streakOf_run_of_marked (h : s.watch.streakOf peer = { flagged := true })
    {es : List PostEvent} (hes : .reset ∉ es) :
    (s.run es).watch.streakOf peer = { flagged := true } ∧
      ∀ xs ∈ s.log es, ∀ x ∈ xs, x.peer ≠ peer := by
  induction es generalizing s with
  | nil => exact ⟨h, fun xs hxs => absurd hxs List.not_mem_nil⟩
  | cons e es ih =>
    obtain ⟨he, hes⟩ := List.ne_and_not_mem_of_not_mem_cons hes
    obtain ⟨hstreak, hbans⟩ := streakOf_step h (Or.inr rfl) e
    rw [decide_eq_true he.symm] at hstreak
    obtain ⟨hlast, hlog⟩ := ih hstreak hes
    exact ⟨hlast, List.forall_mem_cons.mpr ⟨hbans, hlog⟩⟩

/-! ### A fresh streak -/

/-- The streak of a peer is not longer than its flooding has gone on without a break. -/
structure Backed (s : Post) (peer : PeerId) (ms : List Bool) : Prop where
  marked : (s.watch.streakOf peer).flagged = true → (s.watch.streakOf peer).rounds ≤ unbroken ms
  unmarked : (s.watch.streakOf peer).flagged = false →
    (s.watch.streakOf peer).rounds ≤ unbroken ms.tail

theorem mark_of_isNews {c : PeerClass} {size : Nat}
    (h : s.watch.isNews (s.isBanned peer) peer (s.ruling c peer size).1 (s.ruling c peer size).2 =
      true) (ms : List Bool) :
    (s.watch.streakOf peer).flagged = false ∧
      s.mark peer ms (.message c peer size) = true :: ms.tail := by
  simp only [FloodWatch.isNews, Bool.and_eq_true, Bool.not_eq_true'] at h
  obtain ⟨⟨⟨hid, hflood⟩, hfree⟩, hflagged⟩ := h
  refine ⟨hflagged, if_pos ?_⟩
  simp [shows, hid, hflood, hfree]

namespace Backed

variable {ms : List Bool}

theorem start (h : (s.watch.streakOf peer).rounds = 0) (ms : List Bool) : s.Backed peer ms where
  marked _ := h ▸ Nat.zero_le _
  unmarked _ := h ▸ Nat.zero_le _

theorem message (h : s.Backed peer ms) (c : PeerClass) (sender : PeerId) (size : Nat) :
    (s.step (.message c sender size)).Backed peer (s.mark peer ms (.message c sender size)) := by
  have hwatch := watch_message s c sender size
  have hstreak := FloodWatch.streakOf_report s.watch (s.isBanned sender) sender peer
    (s.ruling c sender size).1 (s.ruling c sender size).2
  rw [← hwatch] at hstreak
  by_cases hnews : peer = sender ∧ s.watch.isNews (s.isBanned sender) sender
      (s.ruling c sender size).1 (s.ruling c sender size).2 = true
  · -- one interval more, and one mark more
    rw [if_pos hnews] at hstreak
    obtain ⟨rfl, hnews⟩ := hnews
    obtain ⟨hflagged, hmark⟩ := mark_of_isNews hnews ms
    obtain ⟨hmarked, hrounds⟩ := s.watch.extend_le (s.watch.streakOf peer)
    have hbefore := h.unmarked hflagged
    constructor
    · intro _
      rw [hstreak, hmark, unbroken_true]
      omega
    · intro hno
      rw [hstreak, hmarked] at hno
      cases hno
  · rw [if_neg hnews] at hstreak
    obtain ⟨hle, htail⟩ := unbroken_mark s peer ms c sender size
    constructor
    · rw [hstreak]
      exact fun hyes => Nat.le_trans (h.marked hyes) hle
    · rw [hstreak, htail]
      exact h.unmarked

theorem reset (h : s.Backed peer ms) : (s.step .reset).Backed peer (false :: ms) := by
  obtain ⟨hrounds, hflagged⟩ :=
    s.watch.rounds_foldl_addExcess peer s.lane.tier.active
  obtain ⟨hunmarked, hlast⟩ := FloodWatch.streakOf_endInterval
    (s.lane.tier.active.foldl (fun w e => w.addExcess e.1 e.2) s.watch) peer
  rw [hrounds, hflagged] at hlast
  rw [← watch_reset] at hunmarked hlast
  constructor
  · intro hyes
    rw [hunmarked] at hyes
    cases hyes
  · intro _
    rw [hlast, List.tail_cons]
    split_ifs with hyes
    · exact h.marked hyes
    · exact Nat.zero_le _

/-- **Each event keeps the streak backed.** -/
theorem step (h : s.Backed peer ms) (e : PostEvent) :
    (s.step e).Backed peer (s.mark peer ms e) := by
  cases e with
  | message c sender size => exact h.message c sender size
  | reset => exact h.reset
  | _ => exact ⟨h.marked, h.unmarked⟩

theorem rounds_le (h : s.Backed peer ms) {e : PostEvent} {x : Sentence} (hx : x ∈ s.bans e)
    (hpeer : x.peer = peer) : s.watch.rounds ≤ unbroken (s.mark peer ms e) := by
  subst hpeer
  obtain ⟨c, size, rfl, -, hnews, hrounds, -⟩ := of_mem_bans hx
  obtain ⟨hflagged, hmark⟩ := mark_of_isNews hnews ms
  have hbefore := h.unmarked hflagged
  rw [hmark, unbroken_true]
  omega

/-- A ban at the end of a run takes a streak of the required length in that run. -/
theorem rounds_le_run (h : s.Backed peer ms) {es : List PostEvent} {e : PostEvent} {x : Sentence}
    (hx : x ∈ (s.run es).bans e) (hpeer : x.peer = peer) :
    s.watch.rounds ≤ unbroken (marks peer s ms (es ++ [e])) := by
  induction es generalizing s ms with
  | nil => exact h.rounds_le hx hpeer
  | cons d es ih =>
    have hrules := ih (h.step d) hx
    rwa [sameRules_step s d] at hrules

end Backed

/-! ### After the ban -/

/-- **A served ban leaves no history.** Let the watch ban a peer, let the ban hold up to a sweep
that may lift it, and let anything happen in between. If the tier has been reset since the ban, the
watch issues from the sweep on exactly the bans that it would issue without a record of the peer.
Otherwise the current interval has been counted already: in the rest of it the watch does not ban
the peer, and from the next reset on it issues exactly the bans that it would issue without a record
of the peer. In both cases it bans the peer only after the peer has flooded, from the sweep on, in
as many intervals in a row as its rules require. -/
theorem served_ban_leaves_no_history (s : Post) {e : PostEvent} {x : Sentence} (hx : x ∈ s.bans e)
    {during : List PostEvent}
    (held : ∀ before, before <+: during → (s.run (e :: before)).isBanned x.peer = true) :
    let served := s.run (e :: during ++ [.sweep])
    (.reset ∈ during → ∀ future, served.log future = (served.forget x.peer).log future) ∧
    (.reset ∉ during → ∀ rest, .reset ∉ rest →
      (∀ ys ∈ served.log rest, ∀ y ∈ ys, y.peer ≠ x.peer) ∧
      ∀ future, (served.run (rest ++ [.reset])).log future =
        ((served.run (rest ++ [.reset])).forget x.peer).log future) ∧
    ∀ future f y, y ∈ (served.run future).bans f → y.peer = x.peer →
      s.watch.rounds ≤ unbroken (marks x.peer served [false] (future ++ [f])) := by
  intro served
  obtain ⟨-, -, -, -, -, -, hban⟩ := of_mem_bans hx
  have hserved : served.watch.streakOf x.peer = { flagged := true && .reset ∉ during } := by
    have hrun : served = ((s.step e).run during).step .sweep := run_append s (e :: during) [.sweep]
    rw [hrun]
    exact streakOf_run_of_banned hban held
  refine ⟨?_, ?_, ?_⟩
  · intro hreset future
    have hnew : served.watch.streakOf x.peer = {} := by
      rw [hserved, decide_eq_false (not_not_intro hreset)]
      rfl
    exact ((Alike.forget hnew).log future).symm
  · intro hreset rest hrest
    have hmark : served.watch.streakOf x.peer = { flagged := true } := by
      rw [hserved, decide_eq_true hreset]
      rfl
    obtain ⟨hkept, hlog⟩ := streakOf_run_of_marked hmark hrest
    obtain ⟨hlast, -⟩ := streakOf_step hkept (Or.inr rfl) .reset
    refine ⟨hlog, fun future => ?_⟩
    rw [run_append]
    exact ((Alike.forget hlast).log future).symm
  · intro future f y hy hpeer
    have hbacked := (Backed.start (by rw [hserved]) [false]).rounds_le_run hy hpeer
    have hrules : s.watch.SameRules served.watch := sameRules_run s _
    rwa [hrules] at hbacked

/-- The slow tier for production, with bans of a second for each message in so many intervals. -/
def sternConfig (rounds : UInt32) : TierConfig :=
  { Config.production.tiers.slow with
    ban := { messages := 1, size := 1000, rounds, banSeconds := 1 } }

/-- A lane with stern settings that has seen nobody. -/
def stern (rounds : UInt32) : Post where
  lane :=
    { tier := .new (.ofConfig .slow (sternConfig rounds) {})
      watch := .new .slow (sternConfig rounds).ban }
  ledger := ⟨.empty, .blank⟩
  now := 0

/-- A small message of a peer. -/
def nudge : PostEvent := .message .normal ⟨[1]⟩ 10

theorem make?_stern {rounds : UInt32} (h : rounds = 1 ∨ rounds = 2) :
    Lane.make? .slow (sternConfig rounds) {} = .ok (stern rounds).lane := by
  have htier : Tier.make? .slow (sternConfig rounds) {} = .ok (stern rounds).lane.tier := by
    refine Tier.make?_eq_ok_iff.mpr ⟨?_, rfl⟩
    rcases h with rfl | rfl <;> decide +kernel
  rw [Lane.make?, htier]
  rcases h with rfl | rfl <;> rfl

/-- After a ban of a second in the second interval the peer is as good as new if the interval has
ended, and it is left alone up to the end of the interval if not. -/
theorem second_offence_served :
    let s := (stern 2).run [nudge, .reset]
    let served := s.run [nudge, .wait Span.second, .reset, .sweep]
    let early := s.run [nudge, .wait Span.second, .sweep]
    Lane.make? .slow (sternConfig 2) {} = .ok (stern 2).lane ∧
      (s.bans nudge).map (·.peer) = [⟨[1]⟩] ∧
      served.isBanned ⟨[1]⟩ = false ∧
      (∀ future, served.log future = (served.forget ⟨[1]⟩).log future) ∧
      (served.log [nudge, .reset, nudge]).map List.length = [0, 0, 1] ∧
      early.isBanned ⟨[1]⟩ = false ∧
      ∀ n, ∀ ys ∈ early.log (List.replicate n nudge), ∀ y ∈ ys, y.peer ≠ ⟨[1]⟩ := by
  intro s served early
  have hban : (⟨0, ⟨[1]⟩, (stern 2).watch.verdict 2, Span.second⟩ : Sentence) ∈ s.bans nudge := by
    decide +kernel
  have hlate : ∀ before, before <+: [.wait Span.second, .reset] →
      (s.run (nudge :: before)).isBanned ⟨[1]⟩ = true := by
    simp only [← List.mem_inits]
    decide +kernel
  have hearly : ∀ before, before <+: [.wait Span.second] →
      (s.run (nudge :: before)).isBanned ⟨[1]⟩ = true := by
    simp only [← List.mem_inits]
    decide +kernel
  refine ⟨make?_stern (Or.inr rfl), by decide +kernel, by decide +kernel, ?_, by decide +kernel,
    by decide +kernel, ?_⟩
  · exact (served_ban_leaves_no_history s hban hlate).1 (by decide)
  · intro n
    have hrest : .reset ∉ List.replicate n nudge :=
      fun h => PostEvent.noConfusion (List.eq_of_mem_replicate h)
    exact ((served_ban_leaves_no_history s hban hearly).2.1 (by decide) _ hrest).1

/-- **A ban that is lifted within the interval it was written in leaves its mark**: the next message
of the peer would lead to a ban without it. -/
theorem early_sweep_keeps_mark :
    let served := (stern 1).run [nudge, .wait Span.second, .sweep]
    Lane.make? .slow (sternConfig 1) {} = .ok (stern 1).lane ∧
      (stern 1).log [nudge, .wait Span.second] =
        [[⟨0, ⟨[1]⟩, (stern 1).watch.verdict 1, Span.second⟩], []] ∧
      ((stern 1).run [nudge, .wait Span.second]).isBanned ⟨[1]⟩ = true ∧
      served.isBanned ⟨[1]⟩ = false ∧
      served.log [nudge] = [[]] ∧
      (served.forget ⟨[1]⟩).log [nudge] =
        [[⟨Span.second, ⟨[1]⟩, (stern 1).watch.verdict 1, Span.second⟩]] := by
  refine ⟨make?_stern (Or.inl rfl), ?_, ?_, ?_, ?_, ?_⟩
  · decide +kernel
  · decide +kernel
  · decide +kernel
  · decide +kernel
  · decide +kernel

end Post

end Floodgate
