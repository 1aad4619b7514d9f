import Floodgate.Proofs.Station.Maintenance

/-! # A ban is lifted on time

In a run every operation may happen, and bans may be entered and lifted by hand. A peer that is
banned anew stays banned up to the first sweep that is not before the end of its ban, and is free
right after it, whatever messages come, its own included, and whoever else is banned: nothing but
another ban by hand, a removal or a sweep by hand touches the lease in between (`Event.Spares`). The
run is followed by the invariant `Station.Serves`, one event after the other
(`Station.Serves.happen`), and the result is `Station.ban_lifted_on_time`. -/

namespace Floodgate

/-- What happens to a station and to its bans. -/
inductive Event where
  | operation (o : Operation)
  /-- A ban is entered in the blacklist by hand. -/
  | enter (peer : PeerId) (entry : Ban) (span : Span)
  /-- A ban is lifted by hand. -/
  | lift (peer : PeerId)

/-- An event leaves the ban of a peer alone, and the clock stops at every whole second: there is no
other ban by hand, no removal and no sweep by hand. Messages of the peer are no exception. -/
def Event.Spares (peer : PeerId) : Event → Prop
  | .operation (.ban q ..) => q ≠ peer
  | .operation (.deny _ q ..) => q ≠ peer
  | .enter q .. => q ≠ peer
  | .lift q => q ≠ peer
  | .operation (.perform j) => j ≠ .sweep
  | .operation (.visit w) => w ≠ .peers
  | .operation (.jump _) | .operation .cancel => False
  | .operation _ => True

namespace Station

/-- The station after an event. -/
def happen (s : Station) : Event → Station
  | .operation o => s.apply o
  | .enter peer entry span =>
    { s with gate := s.gate.withBlacklist (s.gate.blacklist.ban s.now peer entry span) }
  | .lift peer => { s with gate := s.gate.withBlacklist (s.gate.blacklist.remove peer) }

/-- The station after events. -/
def after (s : Station) (es : List Event) : Station := es.foldl happen s

theorem after_append (s : Station) (es fs : List Event) :
    s.after (es ++ fs) = (s.after es).after fs := List.foldl_append

variable {s : Station} {peer : PeerId} {l : Lease Ban}

theorem Maintained.happen (h : s.Maintained) {e : Event} (he : e ≠ .operation .cancel) :
    (s.happen e).Maintained := by
  cases e with
  | operation o => exact h.apply fun ho => he (congrArg Event.operation ho)
  | enter q entry span => exact ⟨h.enabled, h.sweepers, h.sweeps⟩
  | lift q => exact ⟨h.enabled, h.sweepers, h.sweeps⟩

theorem Maintained.now_le_happen (h : s.Maintained) (e : Event) : s.now ≤ (s.happen e).now := by
  cases e with
  | operation o => exact h.now_le_apply o
  | enter q entry span => exact Nat.le_refl _
  | lift q => exact Nat.le_refl _

theorem Maintained.after (h : s.Maintained) {es : List Event}
    (hes : .operation .cancel ∉ es) : (s.after es).Maintained := by
  induction es generalizing s with
  | nil => exact h
  | cons e es ih =>
    have he : e ≠ .operation .cancel := fun he => hes (he ▸ List.mem_cons_self)
    exact ih (h.happen he) fun hmem => hes (List.mem_cons_of_mem _ hmem)

/-! ### A ban that is spared -/

theorem sentences_eq_singleton {o : Operation} {x : Sentence} (hx : x ∈ s.sentences o) :
    o.isForeground = true ∧ s.sentences o = [x] := by
  cases o with
  | screen m =>
    rw [sentences] at hx ⊢
    split_ifs at hx ⊢
    · exact ⟨rfl, (Gate.sentences_eq_singleton hx).2⟩
    · exact absurd hx List.not_mem_nil
  | consumeAt i c peer size => exact ⟨rfl, (Gate.sentenceAt_eq_singleton hx).2⟩
  | ban peer reason span =>
    rw [sentences] at hx ⊢
    split_ifs at hx ⊢
    · exact ⟨rfl, (of_mem_outside hx).2.2.2⟩
    · exact absurd hx List.not_mem_nil
  | deny directory peer reason span => exact ⟨rfl, (of_mem_outside hx).2.2.2⟩
  | _ => exact absurd hx List.not_mem_nil

theorem peer_ne_of_mem_sentences {o : Operation} {x : Sentence} (hx : x ∈ s.sentences o)
    (hspares : (Event.operation o).Spares peer) (hbanned : s.gate.blacklist.has peer = true) :
    x.peer ≠ peer := by
  cases o with
  | screen m =>
    rw [sentences] at hx
    split_ifs at hx
    · obtain ⟨-, hpeer, -⟩ := Gate.of_mem_sentences hx
      obtain ⟨hnew, -⟩ := Gate.sentences_eq_singleton hx
      rintro rfl
      rw [← hpeer, hbanned] at hnew
      cases hnew
    · exact absurd hx List.not_mem_nil
  | consumeAt i c q size =>
    obtain ⟨-, hpeer, -⟩ := Gate.of_mem_sentenceAt hx
    obtain ⟨hnew, -⟩ := Gate.sentenceAt_eq_singleton hx
    rintro rfl
    rw [← hpeer, hbanned] at hnew
    cases hnew
  | ban q reason span =>
    rw [sentences] at hx
    split_ifs at hx
    · exact (of_mem_outside hx).2.1 ▸ hspares
    · exact absurd hx List.not_mem_nil
  | deny directory q reason span => exact (of_mem_outside hx).2.1 ▸ hspares
  | _ => exact absurd hx List.not_mem_nil

theorem Serves.has (h : s.Serves peer l) :
    s.gate.blacklist.has peer = decide (s.now < nextSweep (l.refreshedAt + l.span)) := by
  have hsome : s.gate.blacklist.has peer = (s.lease? peer).isSome := rfl
  rw [hsome, h.lease]
  split_ifs with hnow <;> simp [hnow]

/-- **A ban of a peer that is not banned is served from now on.** -/
theorem Maintained.serves (h : s.Maintained) {o : Operation} {x : Sentence}
    (hx : x ∈ s.sentences o) (hnew : s.gate.blacklist.has x.peer = false) (hpos : 0 < x.span)
    (hfinish : Span.seconds (x.issuedAt + x.span) ≤ Instant.lastSecond) :
    (s.apply o).Serves x.peer ⟨x.issuedAt, x.span, x.ban⟩ := by
  obtain ⟨hkind, hone⟩ := sentences_eq_singleton hx
  obtain ⟨hissued, hid⟩ := of_mem_sentences hx
  obtain ⟨gate, keys, journal, observer, recorded, happly, hblacklist⟩ :=
    apply_foreground h.enabled hkind
  -- the peer has no lease yet, so the one ban that is issued starts one for its own span
  have hnone : s.gate.blacklist.lease? x.peer = none := by
    rwa [Blacklist.has_eq, Option.isSome_eq_false_iff, Option.isNone_iff_eq_none] at hnew
  have hlease : gate.blacklist.lease? x.peer = some ⟨x.issuedAt, x.span, x.ban⟩ := by
    rw [hblacklist, hone]
    refine (Blacklist.lease?_ban _ _ _ _ _ _ hid).trans ?_
    rw [if_pos rfl, hnone, Option.elim_none]
  have hrunning : s.now < nextSweep (x.issuedAt + x.span) :=
    calc s.now
      _ = x.issuedAt := hissued.symm
      _ < x.issuedAt + x.span := Nat.lt_add_of_pos_right hpos
      _ ≤ nextSweep (x.issuedAt + x.span) := le_nextSweep _
  rw [happly]
  refine ⟨⟨h.enabled, h.sweepers, h.sweeps⟩, hfinish, ?_⟩
  exact hlease.trans (if_pos hrunning).symm

/-- Nothing that is said or set writes to the ban of a banned peer, unless it is banned by hand. -/
theorem Serves.apply_foreground (h : s.Serves peer l) {o : Operation}
    (hkind : o.isForeground = true) (ho : (Event.operation o).Spares peer)
    (hnow : s.now < nextSweep (l.refreshedAt + l.span)) : (s.apply o).Serves peer l := by
  have hbanned : s.gate.blacklist.has peer = true := h.has.trans (decide_eq_true hnow)
  obtain ⟨gate, keys, journal, observer, recorded, happly, hblacklist⟩ :=
    Station.apply_foreground h.maintained.enabled hkind
  have hlease : gate.blacklist.lease? peer = s.gate.blacklist.lease? peer := by
    rw [hblacklist]
    exact Blacklist.lease?_impose_of_ne fun x hx => peer_ne_of_mem_sentences hx ho hbanned
  obtain ⟨henabled, hsweepers, hsweeps⟩ := h.maintained
  rw [happly]
  exact ⟨⟨henabled, hsweepers, hsweeps⟩, h.representable, hlease.trans h.lease⟩

/-- **A ban is served through every event that spares it.** -/
theorem Serves.happen (h : s.Serves peer l) {e : Event} (he : e.Spares peer)
    (hnow : s.now < nextSweep (l.refreshedAt + l.span)) : (s.happen e).Serves peer l := by
  obtain ⟨henabled, hsweepers, hsweeps⟩ := h.maintained
  cases e with
  | enter q entry span =>
    have hlease : (s.gate.blacklist.ban s.now q entry span).lease? peer =
        s.gate.blacklist.lease? peer := Blacklist.lease?_ban_of_ne _ _ _ _ _ _ (Ne.symm he)
    exact ⟨⟨henabled, hsweepers, hsweeps⟩, h.representable, hlease.trans h.lease⟩
  | lift q =>
    have hlease : (s.gate.blacklist.remove q).lease? peer = s.gate.blacklist.lease? peer :=
      Blacklist.lease?_remove_of_ne _ _ _ (Ne.symm he)
    exact ⟨⟨henabled, hsweepers, hsweeps⟩, h.representable, hlease.trans h.lease⟩
  | operation o =>
    cases hkind : o.isForeground with
    | true => exact h.apply_foreground hkind he hnow
    | false =>
      cases o with
      | perform j =>
        -- of the jobs only the sweep touches leases, and it is not done by hand
        refine ⟨h.maintained.perform j, h.representable, ?_⟩
        rw [Station.happen, Station.apply, h.maintained.perform_lease?, if_neg he, perform_now]
        exact h.lease
      | visit w =>
        cases w with
        | peers => exact absurd rfl he
        | keys => exact ⟨⟨henabled, hsweepers, hsweeps⟩, h.representable, h.lease⟩
        | outside visits fails => exact h
      | advance span => exact h.restAll (Instant.isChain_stops (Nat.le_add_right _ _))
      | jump span => exact absurd he id
      | cancel => exact absurd he id
      | _ => cases hkind

theorem Serves.after (h : s.Serves peer l) {es : List Event} (hes : ∀ e ∈ es, e.Spares peer)
    (hnow : (s.after es).now < nextSweep (l.refreshedAt + l.span)) :
    (s.after es).Serves peer l := by
  induction es using List.reverseRecOn with
  | nil => exact h
  | append_singleton es e ih =>
    have hinit : ∀ e ∈ es, e.Spares peer := fun e he => hes e (List.mem_append_left _ he)
    have hlast : e.Spares peer := hes e (List.mem_append_right _ List.mem_cons_self)
    have hmaintained : (s.after es).Maintained :=
      h.maintained.after fun hcancel => hinit _ hcancel
    rw [after_append] at hnow ⊢
    have hbefore : (s.after es).now < nextSweep (l.refreshedAt + l.span) :=
      Nat.lt_of_le_of_lt (hmaintained.now_le_happen e) hnow
    exact (ih hinit hbefore).happen hlast hbefore

theorem nextSweep_mem_stops {i now target : Instant} (hnow : now < nextSweep i)
    (htarget : nextSweep i ≤ target) : nextSweep i ∈ Instant.stops now target := by
  refine Instant.mem_stops.mpr (.inl ⟨hnow, htarget, ?_⟩)
  rw [nextSweep, mul_sweepInterval]
  exact Nat.mul_mod_left _ _

/-- **A ban is lifted on time.** In a run of a station of enabled settings whose maintenance is not
cancelled, let a peer that is not banned be banned, by a watch or by hand, for a span whose end can
be represented; and let nobody ban it by hand, lift its ban or sweep by hand from then on, while the
clock stops at every whole second. Until the first multiple of the sweep interval that is not before
the end of the ban, the peer is banned at every rest of the clock, and from the sweep of that
instant on, at which the clock rests, it is not. -/
theorem ban_lifted_on_time {c : Config} {journal : JournalConfig} {runtime : Bool}
    (hs : build c journal runtime = .ok s) (enabled : c.enabled = true)
    {before later : List Event} (running : .operation .cancel ∉ before) {o : Operation}
    {x : Sentence} (issued : x ∈ (s.after before).sentences o)
    (new : (s.after before).gate.blacklist.has x.peer = false) (positive : 0 < x.span)
    (representable : Span.seconds (x.issuedAt + x.span) ≤ Instant.lastSecond)
    (spared : ∀ e ∈ later, e.Spares x.peer) :
    let lifted := nextSweep (x.issuedAt + x.span)
    let s' := s.after (before ++ .operation o :: later)
    s'.now < lifted → ∀ span,
      (∀ ts, ts <+: Instant.stops s'.now (s'.now + span) →
        (s'.restAll ts).1.gate.blacklist.has x.peer = decide ((s'.restAll ts).1.now < lifted)) ∧
      (lifted ≤ s'.now + span → lifted ∈ Instant.stops s'.now (s'.now + span)) := by
  intro lifted s' hnow span
  have hstart : (s.after before).Maintained := (maintained_build hs enabled).after running
  have hs' : s' = ((s.after before).apply o).after later := after_append s before _
  have hserves : s'.Serves x.peer ⟨x.issuedAt, x.span, x.ban⟩ := by
    rw [hs'] at hnow ⊢
    exact (hstart.serves issued new positive representable).after spared hnow
  refine ⟨fun ts hts => ?_, nextSweep_mem_stops hnow⟩
  obtain ⟨rest, hrest⟩ := hts
  have hchain : (s'.now :: ts ++ rest).IsChain Instant.Near := by
    rw [List.cons_append, hrest]
    exact Instant.isChain_stops (Nat.le_add_right _ _)
  exact (hserves.restAll hchain.left_of_append).has

/-- One second in which nothing happens. -/
def calm : List Event := [.operation (.advance (.ofSeconds 1))]

/-- A peer is banned for seven seconds. -/
def spamBan : Operation := .ban ⟨[1]⟩ "spam" (.ofSeconds 7)

/-- The banned peer goes on sending, two others are banned and one of them is set free, the topics
are reset, and three seconds pass. -/
def unrest : List Event :=
  [.operation (.screen ⟨⟨[1]⟩, .normal, "blocks", 100⟩),
    .operation (.consumeAt 0 .normal ⟨[1]⟩ 100),
    .operation (.ban ⟨[2]⟩ "spam" (.ofSeconds 60)), .enter ⟨[3]⟩ ⟨"spam", "transport"⟩ 1,
    .lift ⟨[2]⟩, .operation (.perform .resetTopics), .operation (.advance (.ofSeconds 3))]

/-- A ban that is issued after one second and ends after eight is lifted after ten. -/
theorem unrest_lifted_on_time :
    let s' := production.after (calm ++ .operation spamBan :: unrest)
    build .production {} true = .ok production ∧ s'.now = Span.ofSeconds 4 ∧
      (s'.advance (.ofMilliseconds 5999)).1.gate.blacklist.has ⟨[1]⟩ = true ∧
      (s'.advance (.ofSeconds 6)).1.gate.blacklist.has ⟨[1]⟩ = false := by
  have hrunning : .operation .cancel ∉ calm := by simp [calm]
  have hissued : ⟨Span.ofSeconds 1, ⟨[1]⟩, ⟨"spam", Ban.external⟩, .ofSeconds 7⟩ ∈
      (production.after calm).sentences spamBan := by decide +kernel
  have hnew : (production.after calm).gate.blacklist.has ⟨[1]⟩ = false := by decide +kernel
  have hspared : ∀ e ∈ unrest, e.Spares ⟨[1]⟩ := by simp [unrest, Event.Spares]
  have hlifted := ban_lifted_on_time build_production rfl hrunning hissued hnew (by decide)
    (by decide +kernel) hspared
  have hsweep : nextSweep (Span.ofSeconds 1 + Span.ofSeconds 7) = Span.ofSeconds 10 := by
    decide +kernel
  simp only [hsweep] at hlifted
  have hnow : (production.after (calm ++ .operation spamBan :: unrest)).now = Span.ofSeconds 4 := by
    decide +kernel
  have hearly : ((production.after (calm ++ .operation spamBan :: unrest)).advance
      (.ofMilliseconds 5999)).1.now = Span.ofMilliseconds 9999 := by decide +kernel
  have hlate : ((production.after (calm ++ .operation spamBan :: unrest)).advance
      (.ofSeconds 6)).1.now = Span.ofSeconds 10 := by decide +kernel
  generalize production.after (calm ++ .operation spamBan :: unrest) = s'
    at hlifted hnow hearly hlate ⊢
  have hstops : ∀ span, (s'.advance span).1.gate.blacklist.has ⟨[1]⟩ =
      decide ((s'.advance span).1.now < Span.ofSeconds 10) :=
    fun span => (hlifted (by rw [hnow]; decide) span).1 _ (List.prefix_refl _)
  refine ⟨build_production, hnow, ?_, ?_⟩
  · rw [hstops, hearly]
    decide
  · rw [hstops, hlate]
    decide

end Station

end Floodgate
