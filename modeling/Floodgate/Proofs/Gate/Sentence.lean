import Floodgate.Proofs.Cache.Lease
import Floodgate.Proofs.Gate.Pass
import Floodgate.Proofs.Watch.Streak

/-! # The bans that a message leads to

The watches of the lanes that a message reaches may ban its sender. The bans are listed beside the
run of the gate (`Gate.sentences`), and the blacklist that the gate is left with is the one before
with exactly these written to it (`Gate.screen_blacklist`). A message leads to one ban at most, for
the watches behind the one that bans see a banned peer (`Gate.sentences_eq_singleton`). -/

namespace Floodgate

/-- A ban that has been issued. -/
structure Sentence where
  issuedAt : Instant
  peer : PeerId
  ban : Ban
  span : Span
deriving DecidableEq

/-- The blacklist with bans written to it one after the other. -/
def Blacklist.impose (b : Blacklist) (xs : List Sentence) : Blacklist :=
  xs.foldl (fun b x => b.ban x.issuedAt x.peer x.ban x.span) b

theorem Blacklist.impose_append (b : Blacklist) (xs ys : List Sentence) :
    b.impose (xs ++ ys) = (b.impose xs).impose ys := by
  rw [impose, List.foldl_append]
  rfl

theorem Blacklist.lease?_impose_of_ne {b : Blacklist} {peer : PeerId} {xs : List Sentence}
    (h : ∀ x ∈ xs, x.peer ≠ peer) : (b.impose xs).lease? peer = b.lease? peer := by
  induction xs generalizing b with
  | nil => rfl
  | cons x xs ih =>
    obtain ⟨hx, hxs⟩ := List.forall_mem_cons.mp h
    exact (ih hxs).trans (lease?_ban_of_ne _ _ _ _ _ _ hx.symm)

theorem FloodWatch.observe_impose (w : FloodWatch) (b : Blacklist) (now : Instant) (peer : PeerId)
    (q : Quota) (a : Admission) :
    (w.observe b now peer q a).2 =
      b.impose ((w.report (b.has peer) peer q a).2.map (⟨now, peer, ·, w.banSpan⟩)).toList := by
  have hspan : (w.report (b.has peer) peer q a).1.banSpan = w.banSpan := by
    rw [sameRules_report]
  have hobserve := w.observe_snd b now peer q a
  rw [hspan] at hobserve
  rw [hobserve]
  rcases (w.report (b.has peer) peer q a).2 with _ | entry <;> rfl

/-! ### Lanes -/

namespace Lane

/-- The ban that the watch of a lane issues on a message, if any. -/
def sentence (l : Lane) (b : Blacklist) (now : Instant) (c : PeerClass) (peer : PeerId)
    (size : Nat) : List Sentence :=
  let (_, q, a) := l.tier.consume c peer size
  ((l.watch.report (b.has peer) peer q a).2.map (⟨now, peer, ·, l.watch.banSpan⟩)).toList

/-- The bans that are issued while a message passes lanes. -/
def sentences (now : Instant) (m : Message) : List Lane → Ledger → List Sentence
  | [], _ => []
  | l :: ls, ledger =>
    l.sentence ledger.blacklist now m.peerClass m.peer m.size ++
      match l.consume ledger now m.peerClass m.peer m.size with
      | (_, _, .rejected _) => []
      | (_, ledger, .admitted) => sentences now m ls ledger

theorem consume_blacklist (l : Lane) (ledger : Ledger) (now : Instant) (c : PeerClass)
    (peer : PeerId) (size : Nat) :
    (l.consume ledger now c peer size).2.1.blacklist =
      ledger.blacklist.impose (l.sentence ledger.blacklist now c peer size) := by
  rcases htier : l.tier.consume c peer size with ⟨tier, q, a⟩
  simp only [consume, sentence, htier]
  exact l.watch.observe_impose ledger.blacklist now peer q a

/-- A ban names the sender of the message, who has an identifier and is not banned yet. -/
theorem of_mem_sentence {l : Lane} {b : Blacklist} {now : Instant} {c : PeerClass} {peer : PeerId}
    {size : Nat} {x : Sentence} (hx : x ∈ l.sentence b now c peer size) :
    x.issuedAt = now ∧ x.peer = peer ∧ peer.isEmpty = false ∧ b.has peer = false := by
  rcases htier : l.tier.consume c peer size with ⟨tier, q, a⟩
  simp only [sentence, htier] at hx
  cases hnews : l.watch.isNews (b.has peer) peer q a with
  | false =>
    rw [FloodWatch.report_of_not_isNews hnews] at hx
    exact absurd hx List.not_mem_nil
  | true =>
    obtain ⟨entry, -, rfl⟩ := Option.map_eq_some_iff.mp (Option.mem_toList.mp hx)
    simp only [FloodWatch.isNews, Bool.and_eq_true, Bool.not_eq_true'] at hnews
    exact ⟨rfl, rfl, hnews.1.1.1, hnews.1.2⟩

/-- **A pass writes the bans that its lanes issue, and no others.** -/
theorem pass_blacklist (now : Instant) (m : Message) (ls : List Lane) (ledger : Ledger) :
    (pass now m ls ledger).2.1.blacklist = ledger.blacklist.impose (sentences now m ls ledger) := by
  induction ls generalizing ledger with
  | nil => rfl
  | cons l ls ih =>
    have hblacklist := consume_blacklist l ledger now m.peerClass m.peer m.size
    rw [pass, sentences, Blacklist.impose_append, ← hblacklist]
    rcases l.consume ledger now m.peerClass m.peer m.size with ⟨l', ledger', _ | e⟩
    · exact ih ledger'
    · rfl

theorem of_mem_sentences {now : Instant} {m : Message} {ls : List Lane} {ledger : Ledger}
    {x : Sentence} (hx : x ∈ sentences now m ls ledger) :
    x.issuedAt = now ∧ x.peer = m.peer ∧ m.peer.isEmpty = false := by
  induction ls generalizing ledger with
  | nil => exact absurd hx List.not_mem_nil
  | cons l ls ih =>
    rw [sentences] at hx
    rcases List.mem_append.mp hx with hx | hx
    · obtain ⟨hnow, hpeer, hid, -⟩ := of_mem_sentence hx
      exact ⟨hnow, hpeer, hid⟩
    · rcases hc : l.consume ledger now m.peerClass m.peer m.size with ⟨l', ledger', _ | e⟩
      · rw [hc] at hx
        exact ih hx
      · rw [hc] at hx
        exact absurd hx List.not_mem_nil

theorem sentence_eq_singleton {l : Lane} {b : Blacklist} {now : Instant} {c : PeerClass}
    {peer : PeerId} {size : Nat} {x : Sentence} (hx : x ∈ l.sentence b now c peer size) :
    l.sentence b now c peer size = [x] := by
  rcases htier : l.tier.consume c peer size with ⟨tier, q, a⟩
  simp only [sentence, htier] at hx ⊢
  rw [Option.mem_toList.mp hx, Option.toList_some]

theorem sentence_eq_nil {l : Lane} {b : Blacklist} {now : Instant} {c : PeerClass} {peer : PeerId}
    {size : Nat} (h : b.has peer = true) : l.sentence b now c peer size = [] := by
  refine List.eq_nil_iff_forall_not_mem.mpr fun x hx => ?_
  obtain ⟨-, -, -, hnew⟩ := of_mem_sentence hx
  rw [h] at hnew
  cases hnew

theorem consume_has {l : Lane} {ledger : Ledger} {now : Instant} {c : PeerClass} {peer : PeerId}
    {size : Nat} {x : Sentence} (hx : x ∈ l.sentence ledger.blacklist now c peer size) :
    (l.consume ledger now c peer size).2.1.blacklist.has peer = true := by
  obtain ⟨-, hpeer, hid, -⟩ := of_mem_sentence hx
  rw [consume_blacklist, sentence_eq_singleton hx, ← hpeer]
  exact Blacklist.has_ban _ _ _ _ _ (hpeer ▸ hid)

theorem sentences_eq_nil {now : Instant} {m : Message} {ls : List Lane} {ledger : Ledger}
    (h : ledger.blacklist.has m.peer = true) : sentences now m ls ledger = [] := by
  induction ls generalizing ledger with
  | nil => rfl
  | cons l ls ih =>
    have hkept := consume_blacklist l ledger now m.peerClass m.peer m.size
    rw [sentence_eq_nil h] at hkept
    rw [sentences, sentence_eq_nil h, List.nil_append]
    rcases hc : l.consume ledger now m.peerClass m.peer m.size with ⟨l', ledger', _ | e⟩
    · rw [hc] at hkept
      exact ih ((congrArg (·.has m.peer) hkept).trans h)
    · rfl

theorem sentences_eq_singleton {now : Instant} {m : Message} {ls : List Lane} {ledger : Ledger}
    {x : Sentence} (hx : x ∈ sentences now m ls ledger) :
    ledger.blacklist.has m.peer = false ∧ sentences now m ls ledger = [x] := by
  induction ls generalizing ledger with
  | nil => exact absurd hx List.not_mem_nil
  | cons l ls ih =>
    rw [sentences] at hx ⊢
    have hhas : ∀ y ∈ l.sentence ledger.blacklist now m.peerClass m.peer m.size, _ :=
      fun y hy => consume_has hy
    have hkept := consume_blacklist l ledger now m.peerClass m.peer m.size
    rcases List.mem_append.mp hx with hfirst | hrest
    · -- the lanes behind this one see the ban
      obtain ⟨-, -, -, hnew⟩ := of_mem_sentence hfirst
      specialize hhas x hfirst
      refine ⟨hnew, ?_⟩
      rw [sentence_eq_singleton hfirst]
      rcases hc : l.consume ledger now m.peerClass m.peer m.size with ⟨l', ledger', _ | e⟩
      · rw [hc] at hhas
        exact congrArg ([x] ++ ·) (sentences_eq_nil hhas)
      · rfl
    · rcases hc : l.consume ledger now m.peerClass m.peer m.size with ⟨l', ledger', _ | e⟩
      · rw [hc] at hrest hhas hkept
        obtain ⟨hnew, hone⟩ := ih hrest
        have hnil : l.sentence ledger.blacklist now m.peerClass m.peer m.size = [] := by
          refine List.eq_nil_iff_forall_not_mem.mpr fun y hy => ?_
          exact Bool.false_ne_true (hnew.symm.trans (hhas y hy))
        rw [hnil] at hkept ⊢
        exact ⟨(congrArg (·.has m.peer) hkept).symm.trans hnew, hone⟩
      · rw [hc] at hrest
        exact absurd hrest List.not_mem_nil

end Lane

/-! ### The gate -/

namespace Gate

/-- The bans that are issued on a message. -/
def sentences (g : Gate) (now : Instant) (m : Message) : List Sentence :=
  match g.banned? m.peer, g.topics.increase m.topic 1 m.size with
  | none, (_, .ok _) => Lane.sentences now m g.lanes g.ledger
  | _, _ => []

theorem screen_blacklist (g : Gate) (now : Instant) (m : Message) :
    (g.screen now m).1.blacklist = g.blacklist.impose (g.sentences now m) := by
  unfold screen sentences
  rcases g.banned? m.peer with _ | f
  · rcases g.topics.increase m.topic 1 m.size with ⟨topics, f | u⟩
    · rfl
    · exact Lane.pass_blacklist now m g.lanes g.ledger
  · rfl

theorem of_mem_sentences {g : Gate} {now : Instant} {m : Message} {x : Sentence}
    (hx : x ∈ g.sentences now m) :
    x.issuedAt = now ∧ x.peer = m.peer ∧ m.peer.isEmpty = false := by
  unfold sentences at hx
  split at hx
  · exact Lane.of_mem_sentences hx
  · exact absurd hx List.not_mem_nil

/-- **A message leads to one ban at most**, of a sender who has not been banned. -/
theorem sentences_eq_singleton {g : Gate} {now : Instant} {m : Message} {x : Sentence}
    (hx : x ∈ g.sentences now m) :
    g.blacklist.has m.peer = false ∧ g.sentences now m = [x] := by
  unfold sentences at hx ⊢
  split at hx
  · exact Lane.sentences_eq_singleton hx
  · exact absurd hx List.not_mem_nil

theorem screenBatch_blacklist (g : Gate) (peer : PeerId) (topic : String) (messages size : Nat) :
    (g.screenBatch peer topic messages size).1.blacklist = g.blacklist := by
  unfold screenBatch
  rcases g.banned? peer with _ | f <;> rfl

theorem resetLane_blacklist (g : Gate) (i : Nat) : (g.resetLane i).blacklist = g.blacklist := by
  unfold resetLane
  rcases g.lanes[i]? with _ | l <;> rfl

/-- The ban that is issued on a message to one lane alone. -/
def sentenceAt (g : Gate) (now : Instant) (i : Nat) (c : PeerClass) (peer : PeerId) (size : Nat) :
    List Sentence :=
  (g.lanes[i]?.map fun l => l.sentence g.blacklist now c peer size).getD []

theorem consumeAt_blacklist {g g' : Gate} {now : Instant} {i : Nat} {c : PeerClass} {peer : PeerId}
    {size : Nat} {a : Admission} (h : g.consumeAt now i c peer size = some (g', a)) :
    g'.blacklist = g.blacklist.impose (g.sentenceAt now i c peer size) := by
  obtain ⟨l, hl, hg⟩ := Option.map_eq_some_iff.mp h
  have hfst := congrArg (fun r => r.1.blacklist) hg
  rw [sentenceAt, hl]
  exact hfst.symm.trans (Lane.consume_blacklist l g.ledger now c peer size)

theorem sentenceAt_eq_nil {g : Gate} {now : Instant} {i : Nat} {c : PeerClass} {peer : PeerId}
    {size : Nat} (h : g.consumeAt now i c peer size = none) :
    g.sentenceAt now i c peer size = [] := by
  rw [sentenceAt, Option.map_eq_none_iff.mp h]
  rfl

theorem of_mem_sentenceAt {g : Gate} {now : Instant} {i : Nat} {c : PeerClass} {peer : PeerId}
    {size : Nat} {x : Sentence} (hx : x ∈ g.sentenceAt now i c peer size) :
    x.issuedAt = now ∧ x.peer = peer ∧ peer.isEmpty = false := by
  unfold sentenceAt at hx
  rcases hl : g.lanes[i]? with _ | l
  · rw [hl] at hx
    exact absurd hx List.not_mem_nil
  · rw [hl] at hx
    obtain ⟨hnow, hpeer, hid, -⟩ := Lane.of_mem_sentence hx
    exact ⟨hnow, hpeer, hid⟩

theorem sentenceAt_eq_singleton {g : Gate} {now : Instant} {i : Nat} {c : PeerClass}
    {peer : PeerId} {size : Nat} {x : Sentence} (hx : x ∈ g.sentenceAt now i c peer size) :
    g.blacklist.has peer = false ∧ g.sentenceAt now i c peer size = [x] := by
  unfold sentenceAt at hx ⊢
  rcases hl : g.lanes[i]? with _ | l
  · rw [hl] at hx
    exact absurd hx List.not_mem_nil
  · rw [hl] at hx
    obtain ⟨-, -, -, hnew⟩ := Lane.of_mem_sentence hx
    exact ⟨hnew, Lane.sentence_eq_singleton hx⟩

end Gate

end Floodgate
