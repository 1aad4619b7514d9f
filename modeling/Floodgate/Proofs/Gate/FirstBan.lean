import Floodgate.Proofs.Gate.Arrival
import Floodgate.Proofs.Gate.Sentence

/-! # The first watch that bans

Several watches may complete a streak of the sender on one message. `Lane.Completes` says so of a
watch by itself, as if the others were not there, and `Gate.Completes` of the watch of a lane that
the message reaches. The first of these lanes bans the sender, with the span and under the name of
its own watch; the watches behind it see a banned peer (`Lane.sentences_eq`,
`Gate.lease?_screen_of_first`). If there is none, nobody is banned
(`Gate.screen_blacklist_of_none`). -/

namespace Floodgate

namespace Lane

variable {l : Lane} {ls : List Lane} {now : Instant} {m : Message} {ledger : Ledger}

/-- A message of a peer that is not banned completes a streak at the watch of a lane. -/
def Completes (l : Lane) (m : Message) : Prop :=
  l.watch.isNews false m.peer (l.alone m).2.1 (l.alone m).2.2 = true ∧
    l.watch.rounds ≤ (l.watch.streakOf m.peer).rounds + 1

instance (l : Lane) (m : Message) : Decidable (l.Completes m) :=
  inferInstanceAs (Decidable (_ ∧ _))

/-- The ban of the sender for the streak that a message completes. -/
def penalty (l : Lane) (now : Instant) (m : Message) : Sentence :=
  ⟨now, m.peer, l.watch.verdict ((l.watch.streakOf m.peer).rounds + 1), l.watch.banSpan⟩

/-- The first lane to ban the sender, among those that a message reaches. -/
def banning? (m : Message) : List Lane → Option Lane
  | [] => none
  | l :: ls => if l.Completes m then some l else if l.Admits m then banning? m ls else none

/-! ### One lane -/

theorem sentence_eq {b : Blacklist} (unbanned : b.has m.peer = false) :
    l.sentence b now m.peerClass m.peer m.size =
      if l.Completes m then [l.penalty now m] else [] := by
  have hsentence : l.sentence b now m.peerClass m.peer m.size =
      ((l.watch.report (b.has m.peer) m.peer (l.alone m).2.1 (l.alone m).2.2).2.map
        (⟨now, m.peer, ·, l.watch.banSpan⟩)).toList := rfl
  rw [hsentence, unbanned]
  cases hnews : l.watch.isNews false m.peer (l.alone m).2.1 (l.alone m).2.2 with
  | false =>
    have hno : ¬l.Completes m := fun h => Bool.false_ne_true (hnews.symm.trans h.1)
    rw [FloodWatch.report_of_not_isNews hnews, if_neg hno]
    rfl
  | true =>
    rw [FloodWatch.report_of_isNews hnews, FloodWatch.extend]
    by_cases hlong : l.watch.rounds ≤ (l.watch.streakOf m.peer).rounds + 1
    · rw [if_pos hlong, if_pos ⟨hnews, hlong⟩]
      rfl
    · rw [if_neg hlong, if_neg fun h => hlong h.2]
      rfl

/-! ### A pass -/

/-- **Of the watches that a message passes the first that completes a streak bans its sender**, and
no other. -/
theorem sentences_eq (unbanned : ledger.blacklist.has m.peer = false) :
    sentences now m ls ledger = ((banning? m ls).map (·.penalty now m)).toList := by
  induction ls generalizing ledger with
  | nil => rfl
  | cons l ls ih =>
    have hfirst : l.sentence ledger.blacklist now m.peerClass m.peer m.size = _ :=
      sentence_eq unbanned
    rw [banning?]
    by_cases hc : l.Completes m
    · rw [if_pos hc] at hfirst ⊢
      have hmem : l.penalty now m ∈ sentences now m (l :: ls) ledger := by
        rw [sentences, hfirst]
        exact List.mem_append_left _ List.mem_cons_self
      exact (sentences_eq_singleton hmem).2
    · rw [if_neg hc] at hfirst ⊢
      have hkept := consume_blacklist l ledger now m.peerClass m.peer m.size
      rw [hfirst] at hkept
      have hstill : (l.consume ledger now m.peerClass m.peer m.size).2.1.blacklist.has m.peer =
          false := by rw [hkept]; exact unbanned
      have hadmission := consume_admission now m l ledger
      rw [sentences, hfirst, List.nil_append]
      rcases hl : l.consume ledger now m.peerClass m.peer m.size with ⟨l', ledger', _ | e⟩
      · rw [hl] at hadmission hstill
        rw [if_pos (show l.Admits m from hadmission.symm)]
        exact ih hstill
      · rw [hl] at hadmission
        have hrefuses : ¬l.Admits m := fun h => by cases hadmission.trans h
        rw [if_neg hrefuses]
        rfl

theorem banning?_of_first {i : Nat} (hl : ls[i]? = some l) (hc : l.Completes m)
    (hbefore : ∀ x ∈ ls.take i, x.Admits m ∧ ¬x.Completes m) : banning? m ls = some l := by
  induction ls generalizing i with
  | nil => cases hl
  | cons x ls ih =>
    cases i with
    | zero =>
      cases hl
      exact if_pos hc
    | succ i =>
      obtain ⟨⟨hadmits, hno⟩, hrest⟩ := List.forall_mem_cons.mp hbefore
      rw [banning?, if_neg hno, if_pos hadmits]
      exact ih hl hrest

theorem of_banning?_eq_some (h : banning? m ls = some l) :
    ∃ i, ls[i]? = some l ∧ l.Completes m ∧ ∀ x ∈ ls.take i, x.Admits m := by
  induction ls with
  | nil => cases h
  | cons x ls ih =>
    rw [banning?] at h
    split_ifs at h with hc hadmits
    · cases h
      exact ⟨0, rfl, hc, fun y hy => absurd hy List.not_mem_nil⟩
    · obtain ⟨i, hl, hc, hbefore⟩ := ih h
      exact ⟨i + 1, hl, hc, List.forall_mem_cons.mpr ⟨hadmits, hbefore⟩⟩

end Lane

/-! ### The gate -/

namespace Gate

variable {g : Gate} {now : Instant} {m : Message}

/-- A message reaches the lane at an index, and completes a streak of its sender there. -/
def Completes (g : Gate) (m : Message) (i : Nat) : Prop :=
  g.Reaches m i ∧ ∃ l ∈ g.lanes[i]?, l.Completes m

instance (g : Gate) (m : Message) (i : Nat) : Decidable (g.Completes m i) :=
  inferInstanceAs (Decidable (_ ∧ _))

theorem sentences_eq_nil_of_full (unbanned : g.blacklist.has m.peer = false)
    (h : ¬addCount (g.topics.load m.topic).messages 1 ≤ g.topics.limit m.topic) :
    g.sentences now m = [] := by
  rw [sentences, banned?_eq_none g m unbanned,
    Topics.increase_refused _ _ _ _ (Nat.lt_of_not_le h)]

theorem sentences_eq (unbanned : g.blacklist.has m.peer = false)
    (h : addCount (g.topics.load m.topic).messages 1 ≤ g.topics.limit m.topic) :
    g.sentences now m = ((Lane.banning? m g.lanes).map (·.penalty now m)).toList := by
  rw [sentences, banned?_eq_none g m unbanned, Topics.increase_accepted _ _ _ _ h]
  exact Lane.sentences_eq unbanned

theorem screen_blacklist_of_none (unbanned : g.blacklist.has m.peer = false)
    (h : ∀ i, ¬g.Completes m i) : (g.screen now m).1.blacklist = g.blacklist := by
  have hnone : g.sentences now m = [] := by
    by_cases hroom : addCount (g.topics.load m.topic).messages 1 ≤ g.topics.limit m.topic
    · rw [sentences_eq unbanned hroom]
      rcases hl : Lane.banning? m g.lanes with _ | l
      · rfl
      · obtain ⟨i, hi, hc, hbefore⟩ := Lane.of_banning?_eq_some hl
        exact absurd ⟨⟨unbanned, hroom, hbefore⟩, l, hi, hc⟩ (h i)
    · exact sentences_eq_nil_of_full unbanned hroom
  rw [screen_blacklist, hnone]
  rfl

/-- **The first lane where a message completes a streak bans its sender**, on its own terms. -/
theorem lease?_screen_of_first {i : Nat} {l : Lane} (hl : g.lanes[i]? = some l)
    (hc : g.Completes m i) (hbefore : ∀ j < i, ¬g.Completes m j) :
    (g.screen now m).1.blacklist.lease? m.peer =
      some ⟨now, l.watch.banSpan,
        l.watch.verdict ((l.watch.streakOf m.peer).rounds + 1)⟩ := by
  obtain ⟨⟨unbanned, hroom, hpassed⟩, l', hl', hcompletes⟩ := hc
  cases hl.symm.trans hl'
  have hfirst : ∀ x ∈ g.lanes.take i, x.Admits m ∧ ¬x.Completes m := by
    intro x hx
    refine ⟨hpassed x hx, fun hx' => ?_⟩
    obtain ⟨j, hj, rfl⟩ := List.mem_take_iff_getElem.mp hx
    have hji : j < i := hj.trans_le (min_le_left _ _)
    refine hbefore j hji ⟨⟨unbanned, hroom, fun y hy => hpassed y ?_⟩, _,
      List.getElem?_eq_getElem _, hx'⟩
    exact (List.take_subset_take_left _ hji.le) hy
  have hnone : g.blacklist.lease? m.peer = none := by
    rwa [Blacklist.has_eq, Option.isSome_eq_false_iff, Option.isNone_iff_eq_none] at unbanned
  have hid : m.peer.isEmpty = false := by
    have hnews := hcompletes.1
    simp only [FloodWatch.isNews, Bool.and_eq_true, Bool.not_eq_true'] at hnews
    exact hnews.1.1.1
  have hsentences : g.sentences now m = [l.penalty now m] := by
    rw [sentences_eq unbanned hroom, Lane.banning?_of_first hl hcompletes hfirst]
    rfl
  rw [screen_blacklist, hsentences]
  refine (Blacklist.lease?_ban g.blacklist now m.peer m.peer _ _ hid).trans ?_
  rw [if_pos rfl, hnone, Option.elim_none]
  rfl

theorem lease?_screen_of_ne {peer : PeerId} (h : peer ≠ m.peer) :
    (g.screen now m).1.blacklist.lease? peer = g.blacklist.lease? peer := by
  rw [screen_blacklist]
  refine Blacklist.lease?_impose_of_ne fun x hx => ?_
  obtain ⟨-, hpeer, -⟩ := of_mem_sentences hx
  exact hpeer ▸ h.symm

end Gate

end Floodgate
