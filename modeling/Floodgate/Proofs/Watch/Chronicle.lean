import Floodgate.FloodWatch
import Mathlib.Data.List.Induction

/-! # Chronicles of a watch

A watch shares its blacklist with others, who may ban and lift and sweep at any time. The chronicle
of a run is the watch and the blacklist that result, together with all reports as the watch took
them, interval by interval.

What a streak is can be read off the reports alone. A report counts for a peer if it shows flooding
of the peer while it is not banned; an interval counts if one of its reports does. The streak
before an interval is the number of counted intervals that directly precede it, back to one that
does not count or in which the watch banned the peer (`streakBefore`). -/

namespace Floodgate

/-- What happens to a watch and to the blacklist. -/
inductive WatchEvent where
  /-- The tier has decided on a message. -/
  | report (now : Instant) (peer : PeerId) (q : Quota) (a : Admission)
  /-- The tier says what a peer has sent in the interval that ends. -/
  | addExcess (peer : PeerId) (q : Quota)
  | endInterval
  /-- Somebody else bans a peer. -/
  | ban (now : Instant) (peer : PeerId) (entry : Ban) (span : Span)
  | lift (peer : PeerId)
  | sweep (now : Instant)

/-- A report as a watch took it. -/
structure Report where
  peer : PeerId
  quota : Quota
  admission : Admission
  /-- Was the peer banned at the time? -/
  banned : Bool
  /-- The ban that the watch wrote. -/
  ban : Option Ban

/-- A watch, the blacklist, and the reports. -/
structure Chronicle where
  watch : FloodWatch
  blacklist : Blacklist
  /-- The reports of the current interval, in order. -/
  current : List Report
  /-- The reports of the intervals that have ended, the latest interval first. -/
  closed : List (List Report)

namespace Chronicle

/-- The report on a decision as the watch takes it now. -/
def take (s : Chronicle) (peer : PeerId) (q : Quota) (a : Admission) : Report :=
  ⟨peer, q, a, s.blacklist.has peer, (s.watch.report (s.blacklist.has peer) peer q a).2⟩

/-- The chronicle after one more event. -/
def step (s : Chronicle) : WatchEvent → Chronicle
  | .report now peer q a =>
    let (watch, blacklist) := s.watch.observe s.blacklist now peer q a
    { s with watch, blacklist, current := s.current ++ [s.take peer q a] }
  | .addExcess peer q => { s with watch := s.watch.addExcess peer q }
  | .endInterval =>
    { s with watch := s.watch.endInterval, current := [], closed := s.current :: s.closed }
  | .ban now peer entry span => { s with blacklist := s.blacklist.ban now peer entry span }
  | .lift peer => { s with blacklist := s.blacklist.remove peer }
  | .sweep now => { s with blacklist := s.blacklist.sweep now }

end Chronicle

/-- The chronicle of a run. -/
def FloodWatch.chronicle (w : FloodWatch) (b : Blacklist) (es : List WatchEvent) : Chronicle :=
  es.foldl Chronicle.step ⟨w, b, [], []⟩

/-! ### Streaks -/

namespace FloodWatch

variable (w : FloodWatch) (peer : PeerId)

/-- Does a report show that a peer floods while it is not banned? -/
def counts (r : Report) : Bool :=
  r.peer = peer && !peer.isEmpty && w.isFlooding r.quota r.admission && !r.banned

/-- Is there a report in an interval that counts? -/
def isCounted (rs : List Report) : Bool := rs.any (w.counts peer)

end FloodWatch

/-- Has the watch banned the peer in an interval? -/
def hasBanned (peer : PeerId) (rs : List Report) : Bool :=
  rs.any fun r => r.peer = peer && r.ban.isSome

namespace Chronicle

variable (w : FloodWatch) (s : Chronicle) (peer : PeerId)

/-- The counted intervals that directly precede the current one, back to one that does not count or
in which the watch has banned the peer. -/
def streakBefore : Nat :=
  (s.closed.takeWhile fun rs => w.isCounted peer rs && !hasBanned peer rs).length

/-- The intervals of the streak that the peer stands at: the current one adds to those before it
once it counts, and a ban ends the streak. -/
def standing : Nat :=
  if w.isCounted peer s.current then
    if hasBanned peer s.current then 0 else s.streakBefore w peer + 1
  else s.streakBefore w peer

/-- Is a report the first one in its interval that counts, and does it complete the streak? -/
def completes (q : Quota) (a : Admission) : Bool :=
  w.counts peer (s.take peer q a) && !w.isCounted peer s.current &&
    s.streakBefore w peer + 1 == w.rounds

end Chronicle

/-! ### One event -/

namespace FloodWatch

theorem isCounted_append (w : FloodWatch) (peer : PeerId) (rs : List Report) (r : Report) :
    w.isCounted peer (rs ++ [r]) = (w.isCounted peer rs || w.counts peer r) := by
  simp [isCounted]

theorem counts_of_ne (w : FloodWatch) {peer : PeerId} {r : Report} (h : r.peer ≠ peer) :
    w.counts peer r = false := by
  simp [counts, h]

end FloodWatch

theorem hasBanned_append (peer : PeerId) (rs : List Report) (r : Report) :
    hasBanned peer (rs ++ [r]) = (hasBanned peer rs || (r.peer = peer && r.ban.isSome)) := by
  simp [hasBanned]

namespace Chronicle

theorem chronicle_append (w : FloodWatch) (b : Blacklist) (es : List WatchEvent) (e : WatchEvent) :
    w.chronicle b (es ++ [e]) = (w.chronicle b es).step e := by
  simp [FloodWatch.chronicle, List.foldl_append]

/-- When an interval ends, the standing of a peer that has flooded in it becomes its streak. -/
theorem streakBefore_endInterval (w : FloodWatch) (s : Chronicle) (peer : PeerId) :
    (s.step .endInterval).streakBefore w peer =
      if w.isCounted peer s.current then s.standing w peer else 0 := by
  simp only [streakBefore, step, standing, List.takeWhile_cons]
  cases w.isCounted peer s.current <;> cases hasBanned peer s.current <;> simp

end Chronicle

end Floodgate
