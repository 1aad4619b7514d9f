import Floodgate.Proofs.Cache.Denial
import Floodgate.Proofs.Station.Incident

/-! # Denials end

A denial bans a peer and its key, and both leases run out at the same instant. As long as nobody
bans the peer or the key again, no lease of theirs begins (`Station.Follows`, which describes every
incident that leaves the clock alone), and the first sweep at the end of the denial or after it
drops what is left (`Station.Fades`, which every incident keeps). So the denial ends, if the
maintenance runs (`Station.denial_ends`).

A station whose protection is turned off has no lanes and sweeps nothing (`Station.Idle`): there a
denial stays until it is lifted or the bans are swept by hand. -/

namespace Floodgate

/-- The keys that an operation bans. -/
def Operation.keyBans : Operation → List PublicKey
  | .deny directory peer _ _ => if peer.isEmpty then [] else (directory peer).publicKey.toList
  | _ => []

namespace Incident

/-- The keys that an incident bans. -/
def keyBans : Incident → List PublicKey
  | .moment (.event (.operation o)) => o.keyBans
  | .enterKey key _ | .extendKey key _ => [key]
  | _ => []

/-- The maintenance goes on, and its loops are asked whenever the clock rests. -/
def Attended (i : Incident) : Prop :=
  i ≠ .moment (.event (.operation .cancel)) ∧ ∀ span, i ≠ .moment (.lapse span)

/-- The ban of a peer is lifted, or all bans are swept, by hand. -/
def Frees (peer : PeerId) (i : Incident) : Prop :=
  i = .moment (.event (.lift peer)) ∨ i = .moment (.event (.operation (.visit .peers)))

/-- Does the clock move? -/
def moves : Incident → Bool
  | .moment (.event (.operation (.advance _))) | .moment (.event (.operation (.jump _)))
  | .moment (.lapse _) => true
  | _ => false

end Incident

/-- The ban that a decision leads to which the watch of the lane at an index is told. -/
def Gate.reportSentence (g : Gate) (now : Instant) (i : Nat) (peer : PeerId) (q : Quota)
    (a : Admission) : List Sentence :=
  match g.lanes[i]? with
  | none => []
  | some l =>
    ((l.watch.report (g.blacklist.has peer) peer q a).2.map
      (⟨now, peer, ·, l.watch.banSpan⟩)).toList

theorem Gate.reportAt_blacklist (g : Gate) (now : Instant) (i : Nat) (peer : PeerId) (q : Quota)
    (a : Admission) :
    (g.reportAt now i peer q a).blacklist =
      g.blacklist.impose (g.reportSentence now i peer q a) := by
  unfold reportAt reportSentence
  rcases g.lanes[i]? with _ | l
  · rfl
  · exact l.watch.observe_impose g.blacklist now peer q a

theorem Blacklist.has_ban_of_has {b : Blacklist} {now : Instant} {peer q : PeerId} {entry : Ban}
    {span : Span} (h : b.has q = true) : (b.ban now peer entry span).has q = true := by
  rcases Decidable.eq_or_ne q peer with rfl | hne
  · cases hid : q.isEmpty with
    | true => rwa [ban, if_pos hid]
    | false => exact has_ban _ _ _ _ _ hid
  · rwa [has_eq, lease?_ban_of_ne _ _ _ _ _ _ hne]

namespace Station

/-- The lease of a key's ban. -/
def keyLease? (s : Station) (key : PublicKey) : Option (Lease Unit) := s.keys.lease? key

/-- The bans of peers that an incident issues. -/
def bans (s : Station) : Incident → List Sentence
  | .moment (.event (.operation o)) => s.sentences o
  | .moment (.event (.enter peer entry span)) =>
    if peer.isEmpty then [] else [⟨s.now, peer, entry, span⟩]
  | .report i peer q a => s.gate.reportSentence s.now i peer q a
  | _ => []

/-- Neither the peer nor its key is banned in a run. -/
def Pardons (s : Station) (peer : PeerId) (key? : Option PublicKey) : List Incident → Prop
  | [] => True
  | i :: is =>
    (∀ x ∈ s.bans i, x.peer ≠ peer) ∧ (∀ key ∈ key?, key ∉ i.keyBans) ∧
      (s.meet i).Pardons peer key? is

variable {s s' : Station} {peer : PeerId} {key : PublicKey} {now finish : Instant} {i : Incident}

/-! ### The keys that are banned -/

theorem notify_keys (s : Station) (d : Decision) : (s.notify d).keys = s.keys := by
  obtain ⟨journal, recorded, hnotify⟩ := notify_eq s d
  rw [hnotify]

/-- Of messages, bans and settings only a denial touches the keys, and only the one that it bans. -/
theorem keyLease?_apply {o : Operation} (hkind : o.isForeground = true) (hkey : key ∉ o.keyBans) :
    (s.apply o).keyLease? key = s.keyLease? key := by
  cases o with
  | screen m =>
    rw [apply, screen]
    split_ifs
    · exact congrArg (·.lease? key) (notify_keys _ _)
    · rfl
  | screenBatch peer topic messages size =>
    rw [apply, screenBatch]
    split_ifs
    · exact congrArg (·.lease? key) (notify_keys _ _)
    · rfl
  | consumeAt i c peer size =>
    rw [apply]
    split <;> rfl
  | ban peer reason span => rw [apply, ban]; split_ifs <;> rfl
  | deny directory peer reason span =>
    cases hid : peer.isEmpty with
    | true =>
      rw [apply, deny, Denials.deny, if_pos hid]
      rfl
    | false =>
      have hother : (directory peer).publicKey ≠ some key := by
        rw [Operation.keyBans, hid] at hkey
        exact fun hknown => hkey (by rw [hknown]; exact List.mem_singleton.mpr rfl)
      exact (Denials.deny_keys hid key).trans (if_neg hother)
  | resetTopic topic => rw [apply, resetTopic]; split_ifs <;> rfl
  | setLimit topic max => rw [apply, setLimit]; split_ifs <;> rfl
  | setObserver o => rw [apply, setObserver]; split_ifs <;> rfl
  | _ => cases hkind

theorem swept_keyLease? (key : PublicKey) : Swept fun s => s.keyLease? key := by
  refine ⟨fun {s} h j => ?_, fun _ _ _ => rfl⟩
  cases j with
  | sweep =>
    rw [perform, sweep_eq h.sweepers, if_pos rfl]
    exact TimeCache.lease?_sweep _ _ _
  | _ => exact (if_neg Job.noConfusion).symm

/-! ### Incidents at one instant -/

/-- A maintained station has become another one at the same instant: no lease has begun but those
of bans that have been issued and of keys that have been banned. -/
structure Follows (s s' : Station) (xs : List Sentence) (keys : List PublicKey) : Prop where
  maintained : s'.Maintained
  now : s'.now = s.now
  peer : ∀ peer, (∀ x ∈ xs, x.peer ≠ peer) → ∀ l, s'.lease? peer = some l → s.lease? peer = some l
  key : ∀ key, key ∉ keys → ∀ l, s'.keyLease? key = some l → s.keyLease? key = some l

theorem Maintained.follows_of_gate (h : s.Maintained) {gate : Gate} {xs : List Sentence}
    {keys : List PublicKey}
    (hpeers : ∀ peer, (∀ x ∈ xs, x.peer ≠ peer) → ∀ l,
      gate.blacklist.lease? peer = some l → s.lease? peer = some l) :
    s.Follows { s with gate } xs keys where
  maintained := ⟨h.enabled, h.sweepers, h.sweeps⟩
  now := rfl
  peer := hpeers
  key _ _ _ hl := hl

theorem Maintained.follows_of_keys (h : s.Maintained) {banned : KeyBlacklist}
    {xs : List Sentence} {keys : List PublicKey}
    (hkeys : ∀ key, key ∉ keys → ∀ l, banned.lease? key = some l → s.keyLease? key = some l) :
    s.Follows { s with keys := banned } xs keys where
  maintained := ⟨h.enabled, h.sweepers, h.sweeps⟩
  now := rfl
  peer _ _ _ hl := hl
  key := hkeys

theorem Maintained.follows_visit (h : s.Maintained) (w : Sweeper) {xs : List Sentence}
    {keys : List PublicKey} : s.Follows (s.visit w).1 xs keys := by
  cases w with
  | peers =>
    refine h.follows_of_gate fun p _ l hl => ?_
    have hkept := (Blacklist.lease?_sweep s.gate.blacklist s.now p).symm.trans hl
    exact (Option.filter_eq_some_iff.mp hkept).1
  | keys =>
    refine h.follows_of_keys fun k _ l hl => ?_
    rw [TimeCache.lease?_sweep] at hl
    exact (Option.filter_eq_some_iff.mp hl).1
  | outside visits fails => exact h.follows_of_keys fun _ _ _ hl => hl

theorem Maintained.follows_perform (h : s.Maintained) (j : Job) {xs : List Sentence}
    {keys : List PublicKey} : s.Follows (s.perform j).1 xs keys := by
  have hshrinks : ∀ {α : Type} {view : Station → Option (Lease α)}, Swept view → ∀ l,
      view (s.perform j).1 = some l → view s = some l := by
    intro α view hview l hl
    rw [hview.perform h] at hl
    split_ifs at hl
    · exact (Option.filter_eq_some_iff.mp hl).1
    · exact hl
  exact ⟨h.perform j, perform_now s j, fun p _ => hshrinks (swept_lease? p),
    fun k _ => hshrinks (swept_keyLease? k)⟩

theorem Maintained.follows_apply (h : s.Maintained) {o : Operation} (hkind : o.isForeground = true)
    (ho : o ≠ .cancel) : s.Follows (s.apply o) (s.sentences o) o.keyBans := by
  obtain ⟨gate, keys, journal, observer, recorded, happly, hblacklist⟩ :=
    apply_foreground h.enabled hkind
  refine ⟨h.apply ho, by rw [happly], fun p hp l hl => ?_,
    fun k hk l hl => (keyLease?_apply hkind hk).symm.trans hl⟩
  have hlease : gate.blacklist.lease? p = s.lease? p := by
    rw [hblacklist, Blacklist.lease?_impose_of_ne hp]
    rfl
  rw [happly] at hl
  exact hlease.symm.trans hl

/-- **An incident that leaves the clock alone begins no lease but those of its bans.** -/
theorem Maintained.meet (h : s.Maintained) (hattended : i.Attended) (hmoves : i.moves = false) :
    s.Follows (s.meet i) (s.bans i) i.keyBans := by
  cases i with
  | moment m =>
    cases m with
    | event e =>
      cases e with
      | operation o =>
        have ho : o ≠ .cancel := fun ho => hattended.1 (by rw [ho])
        cases hkind : o.isForeground with
        | true => exact h.follows_apply hkind ho
        | false =>
          cases o with
          | perform j => exact h.follows_perform j
          | visit w => exact h.follows_visit w
          | advance span => cases hmoves
          | jump span => cases hmoves
          | cancel => exact absurd rfl ho
          | _ => cases hkind
      | enter p entry span =>
        refine h.follows_of_gate fun q hq l hl => ?_
        cases hid : p.isEmpty with
        | true =>
          rwa [Gate.blacklist, Gate.withBlacklist, Blacklist.ban, if_pos hid] at hl
        | false =>
          have hother : q ≠ p := by
            rw [bans, hid, if_neg Bool.false_ne_true] at hq
            exact (hq _ (List.mem_singleton.mpr rfl)).symm
          exact (Blacklist.lease?_ban_of_ne _ _ _ _ _ _ hother).symm.trans hl
      | lift p =>
        refine h.follows_of_gate fun q _ l hl => ?_
        have hkept := (TimeCache.lease?_remove s.gate.blacklist.bans p q).symm.trans hl
        split_ifs at hkept
        exact hkept
    | lapse span => cases hmoves
  | enterKey k span =>
    refine h.follows_of_keys fun q hq l hl => ?_
    rwa [TimeCache.lease?_add, if_neg fun hk => hq (List.mem_singleton.mpr hk)] at hl
  | extendKey k span =>
    refine h.follows_of_keys fun q hq l hl => ?_
    rwa [TimeCache.lease?_upsert, if_neg fun hk => hq (List.mem_singleton.mpr hk)] at hl
  | liftKey k =>
    refine h.follows_of_keys fun q _ l hl => ?_
    rw [TimeCache.lease?_remove] at hl
    split_ifs at hl
    exact hl
  | liftKeys => exact h.follows_of_keys fun q _ l hl => by cases hl
  | report i p q a =>
    refine h.follows_of_gate fun r hr l hl => ?_
    rw [Gate.reportAt_blacklist] at hl
    exact (Blacklist.lease?_impose_of_ne hr).symm.trans hl
  | note d => exact ⟨⟨h.enabled, h.sweepers, h.sweeps⟩, rfl, fun _ _ _ hl => hl, fun _ _ _ hl => hl⟩
  | _ => exact h.follows_of_gate fun _ _ _ hl => hl

/-! ### Leases that run out together -/

/-- A lease ends at an instant, if it is there, and is gone from the first sweep on that is not
before that instant. -/
structure Fades {α : Type} (view : Station → Option (Lease α)) (finish : Instant) (s : Station) :
    Prop where
  ends : ∀ l, view s = some l → l.refreshedAt + l.span = finish
  gone : nextSweep finish ≤ s.now → view s = none

variable {α : Type} {view : Station → Option (Lease α)}

theorem Fades.of_begins (h : Fades view finish s) (hnow : s'.now = s.now)
    (hbegins : ∀ l, view s' = some l → view s = some l) : Fades view finish s' := by
  refine ⟨fun l hl => h.ends l (hbegins l hl), fun hover => ?_⟩
  rw [hnow] at hover
  refine Option.eq_none_iff_forall_ne_some.mpr fun l hl => ?_
  cases (h.gone hover).symm.trans (hbegins l hl)

/-- **A rest of the clock at the first sweep that is not before the end drops the lease.** -/
theorem Fades.rest (h : Fades view finish s) (hview : Swept view) (hs : s.Maintained)
    (representable : Span.seconds finish ≤ Instant.lastSecond) (hle : s.now ≤ now) :
    Fades view finish (s.rest now).1 := by
  have hrest := hview.rest hs hle
  refine ⟨fun l hl => ?_, fun hover => ?_⟩
  · rw [hrest] at hl
    split_ifs at hl
    · exact h.ends l (Option.filter_eq_some_iff.mp hl).1
    · exact h.ends l hl
  · rw [rest_now] at hover
    rw [hrest]
    by_cases hbefore : s.now < nextSweep finish
    · rw [if_pos (sweeps_of_nextSweep_le hbefore hover)]
      refine Option.filter_eq_none_iff.mpr fun l hl => ?_
      have hfinish : l.refreshedAt + l.span = finish := h.ends l hl
      have hexpired : l.isExpired now = true := by
        rw [Lease.isExpired_iff, hfinish]
        exact ⟨representable, (le_nextSweep finish).trans hover⟩
      simp [hexpired]
    · rw [h.gone (Nat.le_of_not_lt hbefore)]
      exact ite_self _

theorem Fades.restAll (h : Fades view finish s) (hview : Swept view) (hs : s.Maintained)
    (representable : Span.seconds finish ≤ Instant.lastSecond) {ts : List Instant}
    (hts : (s.now :: ts).Pairwise (· ≤ ·)) : Fades view finish (s.restAll ts).1 := by
  induction ts generalizing s with
  | nil => exact h
  | cons t ts ih =>
    obtain ⟨hle, hts⟩ := List.pairwise_cons.mp hts
    have ht : s.now ≤ t := hle t List.mem_cons_self
    exact ih (h.rest hview hs representable ht) (hs.rest ht) ((rest_now s t).symm ▸ hts)

theorem Fades.meet (h : Fades view finish s) (hview : Swept view) (hs : s.Maintained)
    (representable : Span.seconds finish ≤ Instant.lastSecond) (hattended : i.Attended)
    (hbegins : ∀ l, i.moves = false → view (s.meet i) = some l → view s = some l) :
    Fades view finish (s.meet i) := by
  cases hmoves : i.moves with
  | false => exact h.of_begins (hs.meet hattended hmoves).now fun l => hbegins l hmoves
  | true =>
    have hle : ∀ span, s.now ≤ s.now + span := fun span => Nat.le_add_right _ span
    cases i with
    | moment m =>
      cases m with
      | event e =>
        cases e with
        | operation o =>
          cases o with
          | advance span =>
            exact h.restAll hview hs representable (Instant.pairwise_stops (hle span))
          | jump span => exact h.rest hview hs representable (hle span)
          | _ => cases hmoves
        | _ => cases hmoves
      | lapse span => exact absurd rfl (hattended.2 span)
    | _ => cases hmoves

theorem Maintained.meet_attended (h : s.Maintained) (hattended : i.Attended) :
    (s.meet i).Maintained := by
  cases hmoves : i.moves with
  | false => exact (h.meet hattended hmoves).maintained
  | true =>
    cases i with
    | moment m =>
      cases m with
      | event e => exact h.happen fun he => hattended.1 (by rw [he])
      | lapse span => exact absurd rfl (hattended.2 span)
    | _ => cases hmoves

theorem Maintained.through (h : s.Maintained) {is : List Incident} (his : ∀ i ∈ is, i.Attended) :
    (s.through is).Maintained := by
  induction is generalizing s with
  | nil => exact h
  | cons i is ih =>
    obtain ⟨hi, his⟩ := List.forall_mem_cons.mp his
    exact ih (h.meet_attended hi) his

/-- The ban of a peer and that of its key run out together, and no others follow. -/
structure Subsides (s : Station) (peer : PeerId) (key? : Option PublicKey) (finish : Instant) :
    Prop where
  maintained : s.Maintained
  representable : Span.seconds finish ≤ Instant.lastSecond
  peer : Fades (fun s => s.lease? peer) finish s
  key : ∀ key ∈ key?, Fades (fun s => s.keyLease? key) finish s

/-- **A denial subsides in every run that pardons the peer.** -/
theorem Subsides.through {key? : Option PublicKey} (h : s.Subsides peer key? finish)
    {is : List Incident} (his : ∀ i ∈ is, i.Attended) (hpardons : s.Pardons peer key? is) :
    (s.through is).Subsides peer key? finish := by
  induction is generalizing s with
  | nil => exact h
  | cons i is ih =>
    obtain ⟨hi, his⟩ := List.forall_mem_cons.mp his
    obtain ⟨hpeer, hkey, hpardons⟩ := hpardons
    refine ih ⟨h.maintained.meet_attended hi, h.representable, ?_, fun key hk => ?_⟩ his hpardons
    · exact h.peer.meet (swept_lease? peer) h.maintained h.representable hi
        fun l hmoves => (h.maintained.meet hi hmoves).peer peer hpeer l
    · exact (h.key key hk).meet (swept_keyLease? key) h.maintained h.representable hi
        fun l hmoves => (h.maintained.meet hi hmoves).key key (hkey key hk) l

theorem Maintained.subsides_deny (h : s.Maintained) (directory : Directory) (reason : String)
    {span : Span} (identified : peer.isEmpty = false) (positive : 0 < span)
    (new : s.gate.blacklist.has peer = false)
    (representable : Span.seconds (s.now + span) ≤ Instant.lastSecond) :
    (s.deny directory peer reason span).Subsides peer (directory peer).publicKey
      (s.now + span) := by
  have hrunning : s.now < nextSweep (s.now + span) :=
    (Nat.lt_add_of_pos_right positive).trans_le (le_nextSweep _)
  have hnone : s.gate.blacklist.lease? peer = none := by
    rwa [Blacklist.has_eq, Option.isSome_eq_false_iff, Option.isNone_iff_eq_none] at new
  refine ⟨⟨h.enabled, h.sweepers, h.sweeps⟩, representable, ⟨fun l hl => ?_, fun hover => ?_⟩,
    fun key hknown => ⟨fun l hl => ?_, fun hover => ?_⟩⟩
  · -- the peer has no lease yet, so that of the denial runs for its own span
    have hban : (s.deny directory peer reason span).lease? peer =
        (s.gate.blacklist.ban s.now peer ⟨reason, Ban.external⟩ span).lease? peer :=
      congrArg (·.lease? peer) (Denials.deny_peers identified)
    rw [hban, Blacklist.lease?_ban _ _ _ _ _ _ identified, if_pos rfl, hnone] at hl
    cases hl
    rfl
  · exact absurd hover (Nat.not_le_of_lt hrunning)
  · have hstarted := (Denials.deny_keys identified key).symm.trans hl
    rw [if_pos (Option.mem_def.mp hknown)] at hstarted
    cases hstarted
    rfl
  · exact absurd hover (Nat.not_le_of_lt hrunning)

/-- **A denial that has subsided is over from the first sweep on that is not before its end.** -/
theorem Subsides.isDenied {directory : Directory}
    (h : s.Subsides peer (directory peer).publicKey finish) (hover : nextSweep finish ≤ s.now) :
    s.isDenied directory peer = false := by
  have hpeer : s.gate.blacklist.has peer = false := by
    rw [Blacklist.has_eq, Option.isSome_eq_false_iff, Option.isNone_iff_eq_none]
    exact h.peer.gone hover
  have hkey : ((directory peer).publicKey.map s.keys.has).getD false = false := by
    rcases hknown : (directory peer).publicKey with _ | key
    · rfl
    · show s.keys.has key = false
      rw [TimeCache.has_eq, Option.isSome_eq_false_iff, Option.isNone_iff_eq_none]
      exact (h.key key hknown).gone hover
  rw [Station.isDenied, Denials.isDenied]
  exact Bool.or_eq_false_iff.mpr ⟨hpeer, hkey⟩

/-! ### No maintenance -/

/-- The protection is turned off: there are no lanes, nothing is swept, and certain peers are
banned. -/
structure Idle (s : Station) (held : PeerId → Prop) : Prop where
  disabled : s.enabled = false
  lanes : s.gate.lanes = []
  sweepers : s.sweepers = []
  banned : ∀ peer, held peer → s.gate.blacklist.has peer = true

variable {held : PeerId → Prop}

theorem Idle.withBlacklist (h : s.Idle held) {b : Blacklist}
    (hb : ∀ peer, held peer → b.has peer = true) :
    { s with gate := s.gate.withBlacklist b }.Idle held :=
  ⟨h.disabled, h.lanes, h.sweepers, hb⟩

theorem Idle.perform (h : s.Idle held) (j : Job) : (s.perform j).1.Idle held := by
  cases j with
  | sweep =>
    rw [Station.perform, sweep, h.sweepers]
    exact ⟨h.disabled, h.lanes, rfl, h.banned⟩
  | resetLane i =>
    have hgate : s.gate.resetLane i = s.gate := by rw [Gate.resetLane, h.lanes]; rfl
    rw [Station.perform, hgate]
    exact h
  | resetTopics => exact ⟨h.disabled, h.lanes, h.sweepers, h.banned⟩
  | print => exact ⟨h.disabled, h.lanes, h.sweepers, h.banned⟩

theorem Idle.apply (h : s.Idle held) {o : Operation}
    (ho : o = .visit .peers → ∀ peer, ¬ held peer) :
    (s.apply o).Idle held := by
  have hoff : ¬ s.enabled = true := by rw [h.disabled]; exact Bool.false_ne_true
  have hjob : ∀ (s : Station) j, s.Idle held → (s.perform j).1.Idle held := fun _ j h => h.perform j
  have hclock : ∀ (s : Station) now schedule, s.now ≤ now → s.Idle held →
      { s with now, schedule }.Idle held :=
    fun _ _ _ _ h => ⟨h.disabled, h.lanes, h.sweepers, h.banned⟩
  cases o with
  | screen m => rwa [Station.apply, screen, if_neg hoff]
  | screenBatch p topic messages size => rwa [Station.apply, screenBatch, if_neg hoff]
  | consumeAt i c p size =>
    have hnone : s.gate.consumeAt s.now i c p size = none := by
      rw [Gate.consumeAt, h.lanes]
      rfl
    rwa [Station.apply, hnone]
  | ban p reason span => rwa [Station.apply, ban, if_neg hoff]
  | deny directory p reason span =>
    refine ⟨h.disabled, h.lanes, h.sweepers, fun q hq => ?_⟩
    show (s.denials.deny directory s.now p reason span).peers.has q = true
    rw [Denials.deny]
    split_ifs
    · exact h.banned q hq
    · exact Blacklist.has_ban_of_has (h.banned q hq)
  | resetTopic topic => rwa [Station.apply, resetTopic, if_neg hoff]
  | setLimit topic max => rwa [Station.apply, setLimit, if_neg hoff]
  | setObserver o => rwa [Station.apply, setObserver, if_neg hoff]
  | perform j => exact h.perform j
  | visit w =>
    cases w with
    | peers => exact ⟨h.disabled, h.lanes, h.sweepers, fun q hq => absurd hq (ho rfl q)⟩
    | keys => exact ⟨h.disabled, h.lanes, h.sweepers, h.banned⟩
    | outside visits fails => exact h
  | advance span => exact advance_keeps hjob hclock h span
  | jump span => exact jump_keeps hjob hclock h span
  | cancel => exact ⟨h.disabled, h.lanes, h.sweepers, h.banned⟩

/-- **Without maintenance a ban stays until it is lifted or the bans are swept by hand.** -/
theorem Idle.meet (h : s.Idle held) (hi : ∀ peer, held peer → ¬ i.Frees peer) :
    (s.meet i).Idle held := by
  have hwatch : ∀ i f, s.gate.mapWatch i f = s.gate := by
    intro i f
    rw [Gate.mapWatch, h.lanes, List.modify_nil, ← h.lanes]
  cases i with
  | moment m =>
    cases m with
    | event e =>
      cases e with
      | operation o => exact h.apply fun ho q hq => hi q hq (.inr (by rw [ho]))
      | enter p entry span =>
        exact h.withBlacklist fun q hq => Blacklist.has_ban_of_has (h.banned q hq)
      | lift p =>
        refine h.withBlacklist fun q hq => ?_
        have hother : q ≠ p := fun hp => hi q hq (.inl (by rw [hp]))
        rw [Blacklist.has_eq, Blacklist.lease?_remove_of_ne _ _ _ hother]
        exact h.banned q hq
    | lapse span => exact ⟨h.disabled, h.lanes, h.sweepers, h.banned⟩
  | report i p q a =>
    have hgate : s.gate.reportAt s.now i p q a = s.gate := by rw [Gate.reportAt, h.lanes]; rfl
    rwa [Station.meet, hgate]
  | addExcess i p q => rwa [Station.meet, hwatch]
  | endWatch i => rwa [Station.meet, hwatch]
  | _ => exact ⟨h.disabled, h.lanes, h.sweepers, h.banned⟩

theorem Idle.through (h : s.Idle held) {is : List Incident}
    (his : ∀ i ∈ is, ∀ peer, held peer → ¬ i.Frees peer) : (s.through is).Idle held := by
  induction is generalizing s with
  | nil => exact h
  | cons i is ih =>
    obtain ⟨hi, his⟩ := List.forall_mem_cons.mp his
    exact ih (h.meet hi) his

/-! ### The end of a denial -/

theorem build_disabled {c : Config} (hc : c.enabled = false) (journal : JournalConfig)
    (runtime : Bool) : build c journal runtime = .ok disabled := by
  rw [build, if_neg (by rw [hc]; exact Bool.false_ne_true)]

/-- **Denials end, if the maintenance runs.** In a run of a station of enabled settings whose
maintenance is not cancelled and whose loops are asked whenever the clock rests, let a peer that is
not banned be denied for a span whose end can be represented, and let nobody ban the peer or its key
from then on. Then the peer is not denied at any time from the first multiple of the sweep interval
on that is not before the end of the span. A station whose protection is turned off runs no loops:
there the peer is denied until its ban is lifted or the bans are swept by hand. -/
theorem denial_ends {c : Config} {journal : JournalConfig} {runtime : Bool}
    (hs : build c journal runtime = .ok s) (directory : Directory) (reason : String) {span : Span}
    (before later : List Incident) (identified : peer.isEmpty = false) (positive : 0 < span)
    (representable : Span.seconds ((s.through before).now + span) ≤ Instant.lastSecond) :
    let s₀ := s.through before
    let s₁ := s₀.deny directory peer reason span
    let s₂ := s₁.through later
    (c.enabled = true → (∀ i ∈ before ++ later, i.Attended) →
        s₀.gate.blacklist.has peer = false → s₁.Pardons peer (directory peer).publicKey later →
        nextSweep (s₀.now + span) ≤ s₂.now → s₂.isDenied directory peer = false) ∧
      (c.enabled = false → (∀ i ∈ later, ¬ i.Frees peer) → s₂.isDenied directory peer = true) := by
  intro s₀ s₁ s₂
  refine ⟨fun enabled attended new pardons hover => ?_, fun hoff spared => ?_⟩
  · have hbefore : s₀.Maintained := (maintained_build hs enabled).through fun i hi =>
      attended i (List.mem_append_left _ hi)
    have hdenied := hbefore.subsides_deny directory reason identified positive new representable
    have hlater := hdenied.through (fun i hi => attended i (List.mem_append_right _ hi)) pardons
    exact hlater.isDenied hover
  · rw [build_disabled hoff] at hs
    cases hs
    have hbuilt : disabled.Idle fun _ => False := ⟨rfl, rfl, rfl, fun _ hq => hq.elim⟩
    have hbefore : s₀.Idle fun _ => False := hbuilt.through fun _ _ _ hq => hq.elim
    have hbanned : s₁.gate.blacklist.has peer = true :=
      (congrArg (·.has peer) (Denials.deny_peers identified)).trans
        (Blacklist.has_ban _ _ _ _ _ identified)
    have hdenied : s₁.Idle (· = peer) :=
      ⟨hbefore.disabled, hbefore.lanes, hbefore.sweepers, fun q hq => hq ▸ hbanned⟩
    have hlater : s₂.Idle (· = peer) := hdenied.through fun i hi q hq => hq ▸ spared i hi
    have hpeer : s₂.gate.blacklist.has peer = true := hlater.banned peer rfl
    rw [isDenied, Denials.isDenied]
    exact Bool.or_eq_true_iff.mpr (.inl hpeer)

instance decidablePardons (peer : PeerId) (key? : Option PublicKey) :
    ∀ (s : Station) (is : List Incident), Decidable (s.Pardons peer key? is)
  | _, [] => .isTrue trivial
  | s, i :: is =>
    have := decidablePardons peer key? (s.meet i) is
    inferInstanceAs (Decidable (_ ∧ _ ∧ _))

/-- Every peer is known with its identifier as its key. -/
def selfSigned : Directory := fun peer => { publicKey := some peer.bytes }

/-- The first second of a run. -/
def quiet : List Incident := [.moment (.event (.operation (.advance (.ofSeconds 1))))]

/-- The denied peer goes on sending, another one is denied, a key is banned and set free, and nine
seconds pass. -/
def bustle : List Incident :=
  [.moment (.event (.operation (.screen ⟨⟨[1]⟩, .normal, "blocks", 100⟩))),
    .moment (.event (.operation (.deny selfSigned ⟨[2]⟩ "spam" (.ofSeconds 60)))),
    .enterKey [3] (.ofSeconds 60), .liftKey [3],
    .moment (.event (.operation (.advance (.ofSeconds 9))))]

/-- A denial that is issued after one second for seven is over after ten, but not without
maintenance. -/
theorem bustle_denial_ends :
    let denied (s : Station) :=
      ((s.through quiet).deny selfSigned ⟨[1]⟩ "spam" (.ofSeconds 7)).through bustle
    build .production {} true = .ok production ∧
      (denied production).now = Span.ofSeconds 10 ∧
      (denied production).isDenied selfSigned ⟨[1]⟩ = false ∧
      build { Config.production with enabled := false } {} true = .ok disabled ∧
      (denied disabled).now = Span.ofSeconds 10 ∧
      (denied disabled).isDenied selfSigned ⟨[1]⟩ = true := by
  intro denied
  have hnow : (denied production).now = Span.ofSeconds 10 := by decide +kernel
  have hattended : ∀ i ∈ quiet ++ bustle, i.Attended := by
    simp [quiet, bustle, Incident.Attended]
  have hpardons : ((production.through quiet).deny selfSigned ⟨[1]⟩ "spam"
      (.ofSeconds 7)).Pardons ⟨[1]⟩ (some [1]) bustle := by decide +kernel
  have hspared : ∀ i ∈ bustle, ¬ i.Frees ⟨[1]⟩ := by simp [bustle, Incident.Frees]
  have hoff := build_disabled (c := { Config.production with enabled := false }) rfl {} true
  have hidentified : (⟨[1]⟩ : PeerId).isEmpty = false := by decide
  have hpositive : 0 < Span.ofSeconds 7 := by decide
  have hends := (denial_ends build_production selfSigned "spam" quiet bustle hidentified hpositive
    (by decide +kernel)).1 rfl hattended (by decide +kernel) hpardons
  have hstays := (denial_ends hoff selfSigned "spam" quiet bustle hidentified hpositive
    (by decide +kernel)).2 rfl hspared
  have hover : nextSweep ((production.through quiet).now + Span.ofSeconds 7) ≤
      (denied production).now := by decide +kernel
  exact ⟨build_production, hnow, hends hover, hoff, by decide +kernel, hstays⟩

/-- Without protection a denial of one second is still there at the fifth. -/
theorem disabled_denial_stays :
    build { Config.production with enabled := false } {} true = .ok disabled ∧
      disabled.isDenied .anonymous ⟨[1]⟩ = false ∧
      nextSweep (disabled.now + Span.ofSeconds 1) = Span.ofSeconds 5 ∧
      ((disabled.deny .anonymous ⟨[1]⟩ "spam" (.ofSeconds 1)).advance (.ofSeconds 5)).1.now =
        Span.ofSeconds 5 ∧
      ((disabled.deny .anonymous ⟨[1]⟩ "spam" (.ofSeconds 1)).advance
        (.ofSeconds 5)).1.isDenied .anonymous ⟨[1]⟩ = true :=
  ⟨build_disabled rfl {} true, by decide +kernel⟩

end Station

end Floodgate
