import Floodgate.Proofs.Gate.Published
import Floodgate.Proofs.Watch.Records

/-! # The excess of a streak

At the end of an interval the watch of a lane adds to a peer's streak what the peer has sent above
the thresholds, and afterwards it drops the streaks of the peers that were quiet. The excess is
added by another operation than the one that counts the interval, and a ban clears it.

The diary of a post lists the reports of each interval together with what the tier has counted of
each peer by its end. In every run the excess on record is what the intervals of the streak come to
according to the diary, or nothing if the watch has banned the peer in the current interval
(`Diary.Owes`); after a reset it is what the streak comes to, the interval included that has just
ended (`Diary.excess_of_streak`). -/

namespace Floodgate

/-- The quota of a peer, that of a newcomer if it has no record. -/
def Tier.quotaOf (t : Tier) (peer : PeerId) : Quota := (t.quota? peer).getD {}

/-- An interval of a post that has ended. -/
structure Stint where
  /-- The reports that the watch took in it. -/
  reports : List Report
  /-- What the tier had counted of each peer at its end. -/
  quotaOf : PeerId → Quota

/-- A post, the reports of the current interval, and the intervals that have ended, the latest
first. -/
structure Diary where
  post : Post
  current : List Report
  closed : List Stint

namespace Diary

/-- The chronicle of the watch. -/
def chronicle (d : Diary) : Chronicle :=
  ⟨d.post.watch, d.post.ledger.blacklist, d.current, d.closed.map (·.reports)⟩

/-- The diary after one more event. -/
def step (d : Diary) (e : PostEvent) : Diary :=
  match e with
  | .message c peer size =>
    let (q, a) := d.post.ruling c peer size
    { d with post := d.post.step e, current := d.current ++ [d.chronicle.take peer q a] }
  | .reset =>
    { post := d.post.step e, current := []
      closed := ⟨d.current, d.post.lane.tier.quotaOf⟩ :: d.closed }
  | .sweep | .wait _ | .ban .. | .lift _ => { d with post := d.post.step e }

/-- The intervals of a peer's streak before the current one: those that count, back to one that does
not or in which the watch has banned the peer. -/
def streak (w : FloodWatch) (d : Diary) (peer : PeerId) : List Stint :=
  d.closed.takeWhile fun i => w.isCounted peer i.reports && !hasBanned peer i.reports

end Diary

/-- The diary of a run. -/
def Post.diary (s : Post) (es : List PostEvent) : Diary := es.foldl Diary.step ⟨s, [], []⟩

/-- The messages of a peer above the threshold, over intervals. -/
def messagesOver (w : FloodWatch) (peer : PeerId) (is : List Stint) : Nat :=
  (is.map fun i => (i.quotaOf peer).received - w.messages).sum

/-- The bytes of a peer above the threshold, over intervals. -/
def bytesOver (w : FloodWatch) (peer : PeerId) (is : List Stint) : Nat :=
  (is.map fun i => (i.quotaOf peer).receivedSize - w.size).sum

/-! ### The operations of the watch -/

namespace FloodWatch

variable {w : FloodWatch} {banned : Bool} {peer x : PeerId} {q : Quota} {a : Admission}

/-- Only the report that bans a peer changes the excess of its streak. -/
theorem excess_report (h : x = peer → (w.report banned peer q a).2 = none) :
    ((w.report banned peer q a).1.streakOf x).excessMessages = (w.streakOf x).excessMessages ∧
      ((w.report banned peer q a).1.streakOf x).excessSize = (w.streakOf x).excessSize := by
  rw [streakOf_report]
  split_ifs with hnews
  · obtain ⟨rfl, hnews⟩ := hnews
    have hnone := h rfl
    rw [report_of_isNews hnews, Option.map_eq_none_iff] at hnone
    have hshort : ¬w.rounds ≤ (w.streakOf x).rounds + 1 := by
      intro hlong
      rw [extend, if_pos hlong] at hnone
      cases hnone
    rw [extend, if_neg hshort]
    exact ⟨rfl, rfl⟩
  · exact ⟨rfl, rfl⟩

theorem exceed_addExcess (sender : PeerId) (q' : Quota) :
    (w.addExcess sender q').exceed q = w.exceed q := by
  rw [sameRules_addExcess w sender q']
  rfl

theorem excess_exceed (w : FloodWatch) (q : Quota) (s : Streak) :
    (w.exceed q s).excessMessages =
        s.excessMessages + (if s.flagged && 0 < s.rounds then q.received - w.messages else 0) ∧
      (w.exceed q s).excessSize =
        s.excessSize + (if s.flagged && 0 < s.rounds then q.receivedSize - w.size else 0) := by
  rw [exceed]
  split_ifs <;> exact ⟨rfl, rfl⟩

theorem exceed_of_idle (hcount : q.received = 0) (hsize : q.receivedSize = 0) (s : Streak) :
    w.exceed q s = s := by
  rw [exceed, hcount, hsize, Nat.zero_sub, Nat.zero_sub]
  split_ifs <;> rfl

theorem streakOf_foldl_addExcess_of_not_mem {es : List (PeerId × Quota)}
    (h : peer ∉ es.map Prod.fst) :
    (es.foldl (fun w e => w.addExcess e.1 e.2) w).streakOf peer = w.streakOf peer := by
  induction es generalizing w with
  | nil => rfl
  | cons e es ih =>
    rw [List.foldl_cons, ih (List.not_mem_of_not_mem_cons h), streakOf_addExcess_eq,
      if_neg (List.ne_of_not_mem_cons h)]

/-- **What a peer has sent is added to its streak once.** -/
theorem streakOf_foldl_addExcess_of_mem {es : List (PeerId × Quota)}
    (hnodup : (es.map Prod.fst).Nodup) (h : (peer, q) ∈ es) :
    (es.foldl (fun w e => w.addExcess e.1 e.2) w).streakOf peer =
      w.exceed q (w.streakOf peer) := by
  induction es generalizing w with
  | nil => exact absurd h List.not_mem_nil
  | cons e es ih =>
    obtain ⟨hfirst, hrest⟩ := List.nodup_cons.mp hnodup
    rw [List.foldl_cons]
    rcases List.mem_cons.mp h with rfl | hmem
    · rw [streakOf_foldl_addExcess_of_not_mem hfirst, streakOf_addExcess_eq, if_pos rfl]
    · have hne : peer ≠ e.1 := fun heq => hfirst (heq ▸ List.mem_map_of_mem hmem)
      rw [ih hrest hmem, exceed_addExcess, streakOf_addExcess_eq, if_neg hne]

end FloodWatch

/-! ### What the tier reports at the end -/

namespace Tier

theorem receivedSize_of_idle (p : Policy) (calls : List TierCall) {peer : PeerId}
    (h : (((new p).transcript calls).tier.quotaOf peer).received = 0) :
    (((new p).transcript calls).tier.quotaOf peer).receivedSize = 0 := by
  have hown := (received_eq_zero_iff p calls peer).mp h
  refine (accounted_transcript p calls peer).receivedSize.trans ?_
  rw [hown]
  rfl

/-- **The excess that is added for the active peers is that of every peer's quota**, for the others
have sent nothing. -/
theorem streakOf_active {t : Tier} {peer : PeerId} (w : FloodWatch)
    (idle : (t.quotaOf peer).received = 0 → (t.quotaOf peer).receivedSize = 0) :
    (t.active.foldl (fun w e => w.addExcess e.1 e.2) w).streakOf peer =
      w.exceed (t.quotaOf peer) (w.streakOf peer) := by
  have hnodup : (t.active.map Prod.fst).Nodup :=
    (List.filter_sublist.map Prod.fst).nodup t.records.nodup
  by_cases h0 : (t.quotaOf peer).received = 0
  · have hnot : peer ∉ t.active.map Prod.fst := by
      intro hmem
      obtain ⟨⟨_, q⟩, he, rfl⟩ := List.mem_map.mp hmem
      obtain ⟨hq, hpos⟩ := (mem_active_iff _ _ _).mp he
      rw [quotaOf, hq] at h0
      exact hpos h0
    rw [FloodWatch.streakOf_foldl_addExcess_of_not_mem hnot,
      FloodWatch.exceed_of_idle h0 (idle h0)]
  · refine FloodWatch.streakOf_foldl_addExcess_of_mem hnodup ((mem_active_iff _ _ _).mpr ⟨?_, h0⟩)
    rcases hq : t.quota? peer with _ | q
    · -- a newcomer has sent nothing
      rw [quotaOf, hq] at h0
      exact absurd rfl h0
    · rw [quotaOf, hq, Option.getD_some]

end Tier

namespace Diary

variable {w : FloodWatch} {d : Diary} {peer : PeerId}

/-! ### The diary and the chronicle -/

theorem diary_append (s : Post) (es : List PostEvent) (e : PostEvent) :
    s.diary (es ++ [e]) = (s.diary es).step e := by
  simp [Post.diary, List.foldl_append]

theorem post_step (d : Diary) (e : PostEvent) : (d.step e).post = d.post.step e := by
  cases e <;> rfl

theorem post_diary (s : Post) (es : List PostEvent) : (s.diary es).post = s.run es := by
  induction es using List.reverseRecOn with
  | nil => rfl
  | append_singleton es e ih => rw [diary_append, post_step, ih, Post.run_singleton]

theorem chronicle_message (d : Diary) (c : PeerClass) (sender : PeerId) (size : Nat) :
    (d.step (.message c sender size)).chronicle =
      d.chronicle.step (.report d.post.now sender (d.post.ruling c sender size).1
        (d.post.ruling c sender size).2) := rfl

theorem agrees_step (h : Chronicle.Agrees w d.chronicle peer) (e : PostEvent) :
    Chronicle.Agrees w (d.step e).chronicle peer := by
  cases e with
  | message c sender size =>
    rw [chronicle_message]
    exact h.step _
  | reset =>
    -- the excess is added before the interval ends
    obtain ⟨hrounds, hflagged⟩ :=
      FloodWatch.rounds_foldl_addExcess d.post.watch peer d.post.lane.tier.active
    have hadded : Chronicle.Agrees w
        { d.chronicle with
          watch := d.post.lane.tier.active.foldl (fun w e => w.addExcess e.1 e.2) d.post.watch }
        peer :=
      h.of_same (FloodWatch.sameRules_foldl_addExcess _ _) hflagged hrounds rfl rfl rfl
    exact hadded.endInterval
  | sweep => exact h.step (.sweep d.post.now)
  | wait span => exact h
  | ban sender entry span => exact h.step (.ban d.post.now sender entry span)
  | lift sender => exact h.step (.lift sender)

theorem agrees_diary {s : Post} (hs : s.watch.streaks = ∅) (hw : 1 ≤ s.watch.rounds)
    (es : List PostEvent) (peer : PeerId) :
    Chronicle.Agrees s.watch (s.diary es).chronicle peer := by
  induction es using List.reverseRecOn with
  | nil => exact .start s.ledger.blacklist hs hw peer
  | append_singleton es e ih =>
    rw [diary_append]
    exact agrees_step ih e

theorem head?_streak (h : 0 < (d.streak w peer).length) :
    (d.streak w peer).head? = d.closed.head? := by
  unfold streak at h ⊢
  generalize d.closed = closed at h ⊢
  rcases closed with _ | ⟨i, is⟩
  · rfl
  · rw [List.takeWhile_cons] at h ⊢
    split_ifs at h ⊢
    · rfl
    · exact absurd h (Nat.lt_irrefl 0)

theorem length_streak (w : FloodWatch) (d : Diary) (peer : PeerId) :
    (d.streak w peer).length = d.chronicle.streakBefore w peer := by
  rw [streak, Chronicle.streakBefore, chronicle, List.takeWhile_map, List.length_map]
  rfl

/-- When an interval begins, the rounds on record are the length of the streak. -/
theorem rounds_of_begun (h : Chronicle.Agrees w d.chronicle peer) (hbegun : d.current = []) :
    (d.post.watch.streakOf peer).rounds = (d.streak w peer).length := by
  have hcurrent : d.chronicle.current = [] := hbegun
  have hrounds : (d.post.watch.streakOf peer).rounds = d.chronicle.standing w peer := h.rounds
  rw [hrounds, length_streak, Chronicle.standing, hcurrent]
  rfl

/-! ### The end of an interval -/

/-- An interval adds to the excess exactly if it counts and the watch has not banned the peer in
it. -/
theorem flagged_and_rounds_pos (h : Chronicle.Agrees w d.chronicle peer) :
    ((d.post.watch.streakOf peer).flagged && 0 < (d.post.watch.streakOf peer).rounds) =
      (w.isCounted peer d.current && !hasBanned peer d.current) := by
  have hflagged : (d.post.watch.streakOf peer).flagged = w.isCounted peer d.current := h.flagged
  have hrounds : (d.post.watch.streakOf peer).rounds = d.chronicle.standing w peer := h.rounds
  have hcurrent : d.chronicle.current = d.current := rfl
  rw [hflagged, hrounds, Chronicle.standing, hcurrent]
  cases w.isCounted peer d.current <;> cases hasBanned peer d.current <;> simp

/-- **The excess after the end of an interval**: that of a quiet peer is dropped. -/
theorem excess_reset (h : Chronicle.Agrees w d.chronicle peer)
    (idle : (d.post.lane.tier.quotaOf peer).received = 0 →
      (d.post.lane.tier.quotaOf peer).receivedSize = 0) :
    ((d.step .reset).post.watch.streakOf peer).excessMessages =
        (if w.isCounted peer d.current then
          (d.post.watch.streakOf peer).excessMessages +
            (if w.isCounted peer d.current && !hasBanned peer d.current then
              (d.post.lane.tier.quotaOf peer).received - w.messages else 0)
        else 0) ∧
      ((d.step .reset).post.watch.streakOf peer).excessSize =
        (if w.isCounted peer d.current then
          (d.post.watch.streakOf peer).excessSize +
            (if w.isCounted peer d.current && !hasBanned peer d.current then
              (d.post.lane.tier.quotaOf peer).receivedSize - w.size else 0)
        else 0) := by
  have hexceed : d.post.watch.exceed = w.exceed := by
    have hrules : w.SameRules d.post.watch := h.rules
    rw [hrules]
    rfl
  have hflagged : (d.post.watch.streakOf peer).flagged = w.isCounted peer d.current := h.flagged
  obtain ⟨-, hkept⟩ := FloodWatch.rounds_foldl_addExcess d.post.watch peer d.post.lane.tier.active
  obtain ⟨hmessages, hsize⟩ := FloodWatch.excess_exceed w (d.post.lane.tier.quotaOf peer)
    (d.post.watch.streakOf peer)
  rw [flagged_and_rounds_pos h] at hmessages hsize
  rw [post_step, Post.watch_reset, FloodWatch.streakOf_endInterval_eq, hkept, hflagged,
    Tier.streakOf_active _ idle, hexceed, ← hmessages, ← hsize]
  split_ifs <;> exact ⟨rfl, rfl⟩

/-! ### What is owed -/

/-- **The excess on record is what the intervals of the streak come to**, or nothing if the watch
has banned the peer in the current interval. -/
structure Owes (w : FloodWatch) (d : Diary) (peer : PeerId) : Prop where
  messages : (d.post.watch.streakOf peer).excessMessages =
    if hasBanned peer d.current then 0 else messagesOver w peer (d.streak w peer)
  size : (d.post.watch.streakOf peer).excessSize =
    if hasBanned peer d.current then 0 else bytesOver w peer (d.streak w peer)

namespace Owes

theorem start {s : Post} (hs : s.watch.streaks = ∅) (w : FloodWatch) (peer : PeerId) :
    Owes w ⟨s, [], []⟩ peer := by
  have hnew : s.watch.streakOf peer = {} := by
    rw [FloodWatch.streakOf, FloodWatch.streak?, hs, Keyed.get?_empty, Option.getD_none]
  constructor
  · rw [hnew]
    rfl
  · rw [hnew]
    rfl

/-- A message leaves the excess as it is, unless it leads to a ban, which clears it. -/
theorem message (h : Owes w d peer) (c : PeerClass) (sender : PeerId) (size : Nat) :
    Owes w (d.step (.message c sender size)) peer := by
  set report := d.post.watch.report (d.post.isBanned sender) sender
    (d.post.ruling c sender size).1 (d.post.ruling c sender size).2
  have hwatch : (d.step (.message c sender size)).post.watch = report.1 :=
    Post.watch_message d.post c sender size
  have hbanned : hasBanned peer (d.step (.message c sender size)).current =
      (hasBanned peer d.current || (sender = peer && report.2.isSome)) :=
    hasBanned_append _ _ _
  have hstreak : (d.step (.message c sender size)).streak w peer = d.streak w peer := rfl
  by_cases hban : sender = peer ∧ report.2.isSome = true
  · obtain ⟨rfl, hsome⟩ := hban
    obtain ⟨entry, hentry⟩ := Option.isSome_iff_exists.mp hsome
    obtain ⟨-, -, hcleared⟩ := FloodWatch.of_report_eq_some hentry
    have hyes : hasBanned sender (d.step (.message c sender size)).current = true := by
      rw [hbanned, hsome, decide_eq_true rfl, Bool.and_true, Bool.or_true]
    constructor
    · rw [hwatch, hcleared, hyes, if_pos rfl]
    · rw [hwatch, hcleared, hyes, if_pos rfl]
  · have hsame : hasBanned peer (d.step (.message c sender size)).current =
        hasBanned peer d.current := by
      have hno : (sender = peer && report.2.isSome) = false := by simpa using hban
      rw [hbanned, hno, Bool.or_false]
    have hnone : peer = sender → report.2 = none := fun heq =>
      Option.not_isSome_iff_eq_none.mp fun hsome => hban ⟨heq.symm, hsome⟩
    obtain ⟨hmessages, hsize⟩ := FloodWatch.excess_report hnone
    constructor
    · rw [hwatch, hmessages, hsame, hstreak, h.messages]
    · rw [hwatch, hsize, hsame, hstreak, h.size]

/-- **The end of an interval adds what has been sent in it**, if the interval belongs to the streak;
otherwise nothing is owed. -/
theorem reset (h : Owes w d peer) (hagrees : Chronicle.Agrees w d.chronicle peer)
    (idle : (d.post.lane.tier.quotaOf peer).received = 0 →
      (d.post.lane.tier.quotaOf peer).receivedSize = 0) :
    Owes w (d.step .reset) peer := by
  obtain ⟨hmessages, hsize⟩ := excess_reset hagrees idle
  have hopen : hasBanned peer (d.step .reset).current = false := rfl
  have hstreak : (d.step .reset).streak w peer =
      if w.isCounted peer d.current && !hasBanned peer d.current then
        ⟨d.current, d.post.lane.tier.quotaOf⟩ :: d.streak w peer
      else [] := List.takeWhile_cons
  constructor
  · rw [hmessages, h.messages, hopen, hstreak]
    cases w.isCounted peer d.current <;> cases hasBanned peer d.current <;>
      simp [messagesOver, Nat.add_comm]
  · rw [hsize, h.size, hopen, hstreak]
    cases w.isCounted peer d.current <;> cases hasBanned peer d.current <;>
      simp [bytesOver, Nat.add_comm]

theorem step (h : Owes w d peer) (hagrees : Chronicle.Agrees w d.chronicle peer)
    (idle : (d.post.lane.tier.quotaOf peer).received = 0 →
      (d.post.lane.tier.quotaOf peer).receivedSize = 0) (e : PostEvent) :
    Owes w (d.step e) peer := by
  cases e with
  | message c sender size => exact h.message c sender size
  | reset => exact h.reset hagrees idle
  | sweep => exact ⟨h.messages, h.size⟩
  | wait span => exact ⟨h.messages, h.size⟩
  | ban sender entry span => exact ⟨h.messages, h.size⟩
  | lift sender => exact ⟨h.messages, h.size⟩

end Owes

theorem idle_diary {s : Post} {p : Policy} (ht : s.lane.tier = .new p) (es : List PostEvent)
    (peer : PeerId) (h : ((s.diary es).post.lane.tier.quotaOf peer).received = 0) :
    ((s.diary es).post.lane.tier.quotaOf peer).receivedSize = 0 := by
  rw [post_diary, Post.run_tier, ht] at h ⊢
  exact Tier.receivedSize_of_idle p _ h

/-- **The account of excess is kept in every run.** -/
theorem owes_diary {s : Post} {p : Policy} (ht : s.lane.tier = .new p)
    (hs : s.watch.streaks = ∅) (hw : 1 ≤ s.watch.rounds) (es : List PostEvent) (peer : PeerId) :
    Owes s.watch (s.diary es) peer := by
  induction es using List.reverseRecOn with
  | nil => exact .start hs _ _
  | append_singleton es e ih =>
    rw [diary_append]
    exact ih.step (agrees_diary hs hw es peer) (idle_diary ht es peer) e

theorem Owes.of_rounds_eq_zero (h : Owes w d peer) (hagrees : Chronicle.Agrees w d.chronicle peer)
    (hzero : (d.post.watch.streakOf peer).rounds = 0) :
    (d.post.watch.streakOf peer).excessMessages = 0 ∧
      (d.post.watch.streakOf peer).excessSize = 0 := by
  rw [h.messages, h.size]
  cases hbanned : hasBanned peer d.current with
  | true => exact ⟨rfl, rfl⟩
  | false =>
    have hstanding : d.chronicle.standing w peer = 0 := hagrees.rounds.symm.trans hzero
    have hnil : d.streak w peer = [] := by
      rw [← List.length_eq_zero_iff, length_streak]
      have hcurrent : hasBanned peer d.chronicle.current = false := hbanned
      rw [Chronicle.standing, hcurrent, if_neg Bool.false_ne_true] at hstanding
      split_ifs at hstanding
      exact hstanding
    rw [hnil]
    exact ⟨rfl, rfl⟩

/-- **The excess of a streak.** Let a lane that was built from settings run, while others ban and
lift as they like. At any time a record of no interval has no excess, so that nothing is left from
before a ban or from before a quiet interval. After each reset the record of a peer, if there is
one, stands at the intervals of its streak, of which the one that has just ended is the latest, and
its excess is the sum over these intervals of what the tier had counted of the peer above the
thresholds at the end of each, in messages and in bytes. -/
theorem excess_of_streak {speed : Speed} {cfg : TierConfig} {cache : CacheConfig} {l : Lane}
    (hl : Lane.make? speed cfg cache = .ok l) (ledger : Ledger) (now : Instant)
    (es : List PostEvent) (peer : PeerId) (x : Streak) :
    let s : Post := ⟨l, ledger, now⟩
    ((s.run es).watch.streak? peer = some x → x.rounds = 0 →
      x.excessMessages = 0 ∧ x.excessSize = 0) ∧
    ((s.run (es ++ [.reset])).watch.streak? peer = some x →
      let d := s.diary (es ++ [.reset])
      x.rounds = (d.streak l.watch peer).length ∧
      (0 < x.rounds → (d.streak l.watch peer).head? = d.closed.head?) ∧
      x.excessMessages = ((d.streak l.watch peer).map fun i =>
        (i.quotaOf peer).received - cfg.ban.messages.toNat).sum ∧
      x.excessSize = ((d.streak l.watch peer).map fun i =>
        (i.quotaOf peer).receivedSize - cfg.ban.size.toNat).sum) := by
  obtain ⟨rfl, hrounds⟩ := Lane.of_make? hl
  intro s
  have hagrees : ∀ es, Chronicle.Agrees s.watch (s.diary es).chronicle peer := fun es =>
    agrees_diary (s := s) rfl hrounds es peer
  have howes : ∀ es, Owes s.watch (s.diary es) peer := fun es =>
    owes_diary (s := s) rfl rfl hrounds es peer
  refine ⟨fun hx hzero => ?_, fun hx => ?_⟩
  · have hstreak := FloodWatch.streakOf_of_streak? hx
    rw [← post_diary] at hstreak
    rw [← hstreak] at hzero ⊢
    exact (howes es).of_rounds_eq_zero (hagrees es) hzero
  · intro d
    have hstreak : d.post.watch.streakOf peer = x := by
      rw [← post_diary] at hx
      exact FloodWatch.streakOf_of_streak? hx
    have hcurrent : d.current = [] := congrArg current (diary_append s es .reset)
    have hlength : x.rounds = (d.streak s.watch peer).length :=
      hstreak ▸ rounds_of_begun (hagrees _) hcurrent
    have hmessages := (howes (es ++ [.reset])).messages
    have hsize := (howes (es ++ [.reset])).size
    rw [hcurrent, hstreak] at hmessages hsize
    exact ⟨hlength, fun hpos => head?_streak (hlength ▸ hpos), hmessages, hsize⟩

/-- The slow tier for production, with a ban for three intervals of two messages or 25 bytes. -/
def watchfulConfig : TierConfig :=
  { Config.production.tiers.slow with
    ban := { messages := 2, size := 25, rounds := 3, banSeconds := 1 } }

/-- A watchful lane that has seen nobody. -/
def watchful : Lane :=
  ⟨.new (.ofConfig .slow watchfulConfig {}), .new .slow watchfulConfig.ban, {}⟩

/-- Four messages of a peer, one of them under a ban by somebody else, and two in the next
interval. -/
def twoFloods : List PostEvent :=
  [.message .normal ⟨[1]⟩ 10, .message .normal ⟨[1]⟩ 10, .ban ⟨[1]⟩ ⟨"manual", Ban.external⟩ 60,
    .message .normal ⟨[1]⟩ 10, .lift ⟨[1]⟩, .message .reserved ⟨[1]⟩ 10, .reset,
    .message .normal ⟨[2]⟩ 10, .message .normal ⟨[1]⟩ 10, .message .normal ⟨[1]⟩ 10]

/-- The third flood leads to a ban. -/
def thirdFlood : List PostEvent := twoFloods ++ [.reset, .message .normal ⟨[1]⟩ 90]

/-- Two intervals come to their excess, and the third one clears the record. -/
theorem excess_of_twoFloods :
    let s : Post := ⟨watchful, ⟨.empty, .blank⟩, 0⟩
    let d := s.diary (twoFloods ++ [.reset])
    let x : Streak := { rounds := 2, excessMessages := 2, excessSize := 15 }
    let cleared : Streak := { flagged := true }
    Lane.make? .slow watchfulConfig {} = .ok watchful ∧
      (s.run (twoFloods ++ [.reset])).watch.streak? ⟨[1]⟩ = some x ∧
      (d.streak watchful.watch ⟨[1]⟩).map (fun i =>
        ((i.quotaOf ⟨[1]⟩).received, (i.quotaOf ⟨[1]⟩).receivedSize)) = [(2, 20), (4, 40)] ∧
      x.excessMessages = ((d.streak watchful.watch ⟨[1]⟩).map fun i =>
        (i.quotaOf ⟨[1]⟩).received - 2).sum ∧
      x.excessSize = ((d.streak watchful.watch ⟨[1]⟩).map fun i =>
        (i.quotaOf ⟨[1]⟩).receivedSize - 25).sum ∧
      (s.run thirdFlood).watch.streak? ⟨[1]⟩ = some cleared ∧
      cleared.excessMessages = 0 ∧ cleared.excessSize = 0 := by
  intro s d x cleared
  have hmake : Lane.make? .slow watchfulConfig {} = .ok watchful := by
    have htier : Tier.make? .slow watchfulConfig {} = .ok watchful.tier :=
      Tier.make?_eq_ok_iff.mpr ⟨by decide +kernel, rfl⟩
    rw [Lane.make?, htier]
    rfl
  have htwo : (s.run (twoFloods ++ [.reset])).watch.streak? ⟨[1]⟩ = some x := by decide +kernel
  have hthree : (s.run thirdFlood).watch.streak? ⟨[1]⟩ = some cleared := by decide +kernel
  obtain ⟨-, hsums⟩ := excess_of_streak hmake ⟨.empty, .blank⟩ 0 twoFloods ⟨[1]⟩ x
  obtain ⟨-, -, hmessages, hsize⟩ := hsums htwo
  obtain ⟨hnothing, -⟩ := excess_of_streak hmake ⟨.empty, .blank⟩ 0 thirdFlood ⟨[1]⟩ cleared
  exact ⟨hmake, htwo, by decide +kernel, hmessages, hsize, hthree, hnothing hthree rfl⟩

end Diary

end Floodgate
