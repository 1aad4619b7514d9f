import Floodgate.Gate
import Floodgate.Journal
import Floodgate.Schedule

/-! # Stations

A station is a gate in operation: the gate, the banned keys, the journal, an observer of decisions,
and the schedule of the maintenance that resets tiers and topics, sweeps bans and prints the
journal. A station whose protection is turned off admits every message, keeps no counts and runs no
loops. -/

namespace Floodgate

/-- What a sweep visits. -/
inductive Sweeper where
  /-- The bans of peers. -/
  | peers
  /-- The bans of keys. -/
  | keys
  /-- A cache outside the station, of which the number of visits is known and whether they fail. -/
  | outside (visits : Nat) (fails : Bool)
deriving DecidableEq

/-- A maintenance job. -/
inductive Job where
  | resetLane (index : Nat)
  | resetTopics
  | sweep
  | print
deriving DecidableEq

/-- Who is told of decisions. -/
inductive Observer where
  | nobody
  | journal
  | recorder
deriving DecidableEq

/-- A gate in operation. -/
structure Station where
  /-- Is the protection turned on? -/
  enabled : Bool
  now : Instant
  gate : Gate
  keys : KeyBlacklist
  journal : Option Journal
  observer : Observer
  /-- The decisions that the recorder has been told. -/
  recorded : List Decision
  sweepers : List Sweeper
  schedule : Schedule Job

namespace Station

/-! ### Building -/

/-- The time between two resets of the topics. -/
def topicInterval : Span := .ofSeconds 1

/-- The time between two sweeps. -/
def sweepInterval : Span := .ofSeconds 5

/-- The station around a gate that nobody maintains. -/
def unattended (gate : Gate) : Station where
  enabled := true
  now := 0
  gate := gate
  keys := ∅
  journal := none
  observer := .nobody
  recorded := []
  sweepers := []
  schedule := { loops := [] }

/-- The station whose protection is turned off. -/
def disabled : Station := { unattended (.new .unlimited []) with enabled := false }

/-- The jobs of a station, with their periods. -/
def jobs (lanes : List Lane) (resetsTopics : Bool) (sweepers : List Sweeper)
    (journal : Option Journal) : List (Job × Span) :=
  (lanes.zipIdx.map fun (l, i) => (.resetLane i, l.tier.policy.interval)) ++
    (if resetsTopics then [(.resetTopics, topicInterval)] else []) ++
    (if sweepers.isEmpty then [] else [(.sweep, sweepInterval)]) ++
    journal.toList.map fun j => (.print, j.interval)

/-- The station around a gate, with its maintenance started; that needs something to run on. -/
def start (gate : Gate) (resetsTopics : Bool) (sweepers : List Sweeper) (journal : Option Journal)
    (runtime : Bool) : Except Fault Station :=
  if runtime then
    .ok
      { unattended gate with
        journal := journal
        observer := if journal.isSome then .journal else .nobody
        sweepers := sweepers
        schedule := .start 0 (jobs gate.lanes resetsTopics sweepers journal) }
  else .error .noRuntime

/-- The lanes of settings, in the order in which they are asked. -/
def lanes? (c : Config) : Except Fault (List Lane) :=
  c.tiers.toList.mapM fun (speed, tier) => Lane.make? speed tier c.cache

/-- The station of settings. -/
def build (c : Config) (journal : JournalConfig) (runtime : Bool) : Except Fault Station :=
  if c.enabled then do
    c.validate
    journal.validate
    let lanes ← lanes? c
    let topics ← Topics.make? c.topics
    let gate ← Gate.make? topics lanes
    let journal ← if journal.enabled then some <$> Journal.make? journal else pure none
    start gate true [.peers, .keys] journal runtime
  else .ok disabled

/-! ### Admission -/

/-- The observer is told of a decision. -/
def notify (s : Station) (d : Decision) : Station :=
  match s.observer with
  | .nobody => s
  | .journal => { s with journal := s.journal.map (·.add d) }
  | .recorder => { s with recorded := s.recorded ++ [d] }

/-- Decides on one message. -/
def screen (s : Station) (m : Message) : Station × Verdict :=
  if s.enabled then
    let (gate, v) := s.gate.screen s.now m
    ({ s with gate }.notify ⟨m.peer, m.topic, 1, m.size, v⟩, v)
  else (s, .ok ())

/-- Decides on a batch that arrives as one message. -/
def screenBatch (s : Station) (peer : PeerId) (topic : String) (messages size : Nat) :
    Station × Verdict :=
  if s.enabled then
    let (gate, v) := s.gate.screenBatch peer topic messages size
    ({ s with gate }.notify ⟨peer, topic, messages, size, v⟩, v)
  else (s, .ok ())

/-- Bans a peer for a reason outside the quotas. -/
def ban (s : Station) (peer : PeerId) (reason : String) (span : Span) : Station :=
  if s.enabled then { s with gate := s.gate.ban s.now peer reason span } else s

/-- Starts the counts of a topic afresh. -/
def resetTopic (s : Station) (topic : String) : Station :=
  if s.enabled then { s with gate := s.gate.resetTopic topic } else s

/-- Sets the limit of a topic. -/
def setLimit (s : Station) (topic : String) (max : Nat) : Station :=
  if s.enabled then { s with gate := s.gate.setLimit topic max } else s

/-- Tells decisions to another observer from now on. -/
def setObserver (s : Station) (o : Observer) : Station :=
  if s.enabled then { s with observer := o } else s

/-! ### Denial -/

/-- The two caches by which connections are denied. -/
def denials (s : Station) : Denials := ⟨s.gate.blacklist, s.keys⟩

/-- The station with other bans of peers and keys. -/
def withDenials (s : Station) (d : Denials) : Station :=
  { s with gate := s.gate.withBlacklist d.peers, keys := d.keys }

/-- Is a connection to the peer denied? -/
def isDenied (s : Station) (directory : Directory) (peer : PeerId) : Bool :=
  s.denials.isDenied directory peer

/-- Bans a peer and the key that the directory knows for it. -/
def deny (s : Station) (directory : Directory) (peer : PeerId) (reason : String) (span : Span) :
    Station :=
  s.withDenials (s.denials.deny directory s.now peer reason span)

/-! ### Maintenance -/

/-- A visit to one cache, and whether it succeeds. -/
def visit (s : Station) : Sweeper → Station × Sweeper × Bool
  | .peers =>
    ({ s with gate := s.gate.withBlacklist (s.gate.blacklist.sweep s.now) }, .peers, true)
  | .keys => ({ s with keys := s.keys.sweep s.now }, .keys, true)
  | .outside visits fails => (s, .outside (visits + 1) fails, !fails)

/-- Visits caches in order; a visit that fails ends the round. -/
def visitAll (s : Station) : List Sweeper → Station × List Sweeper
  | [] => (s, [])
  | w :: ws =>
    match s.visit w with
    | (s, w, false) => (s, w :: ws)
    | (s, w, true) =>
      let (s, ws) := visitAll s ws
      (s, w :: ws)

/-- Visits all caches. -/
def sweep (s : Station) : Station :=
  let (s, sweepers) := s.visitAll s.sweepers
  { s with sweepers }

/-- Does a job, and says what it prints. -/
def perform (s : Station) : Job → Station × List JournalRow
  | .resetLane i => ({ s with gate := s.gate.resetLane i }, [])
  | .resetTopics => ({ s with gate := { s.gate with topics := s.gate.topics.reset } }, [])
  | .sweep => (s.sweep, [])
  | .print =>
    ({ s with journal := s.journal.map (·.cleared) }, (s.journal.map (·.rows)).getD [])

/-- Does jobs in order. -/
def performAll (s : Station) : List Job → Station × List JournalRow
  | [] => (s, [])
  | j :: js =>
    let (s, rows) := s.perform j
    let (s, more) := performAll s js
    (s, rows ++ more)

/-- The clock moves to an instant and rests there: the jobs that are due are done. -/
def rest (s : Station) (now : Instant) : Station × List JournalRow :=
  { s with now, schedule := s.schedule.tick now }.performAll (s.schedule.due now)

/-- The clock rests at each of a list of instants. -/
def restAll (s : Station) : List Instant → Station × List JournalRow
  | [] => (s, [])
  | t :: ts =>
    let (s, rows) := s.rest t
    let (s, more) := restAll s ts
    (s, rows ++ more)

/-- The clock moves on by a span and rests at every whole second on the way. -/
def advance (s : Station) (span : Span) : Station × List JournalRow :=
  s.restAll (Instant.stops s.now (s.now + span))

/-- The clock moves on by a span in one go. -/
def jump (s : Station) (span : Span) : Station × List JournalRow := s.rest (s.now + span)

/-- Ends the maintenance. -/
def cancel (s : Station) : Station := { s with schedule := s.schedule.cancel }

end Station

end Floodgate
