import Floodgate.Proofs.Config.Sections
import Floodgate.Proofs.Toml.Lines
import Floodgate.Proofs.Toml.Sections

/-! # What is saved of a configuration

The statements of a configuration stand for its document (`documentOf_statements`): every section
has a header behind which its settings stand, but for the limits of topics, which are the tables of
an array, or an empty sequence if there are none. All names do without quotes and all values are of
the kinds that are written, so the text of the statements is read back if its integers can be
written (`ofText?_save`). -/

namespace Floodgate

namespace NodeConfig

open Toml

/-! ### The document of the statements -/

theorem adds_tier (speed : Speed) (c : TierConfig) :
    Adds ["antiflood"] (tierStatements speed c) [(speed.name, .table c.entries)] := by
  have hincrease : Adds ["antiflood", speed.name, "peer_max_input"]
      (.header ["antiflood", speed.name, "peer_max_input", "increase_factor"] ::
        (assigns c.input.increase.entries ++ []))
      [("increase_factor", .table (c.input.increase.entries ++ []))] :=
    Adds.table "increase_factor" c.input.increase.entries Adds.nil
      (by simp [IncreaseConfig.entries])
  have hinput : Adds ["antiflood", speed.name]
      (.header ["antiflood", speed.name, "peer_max_input"] :: (assigns c.input.values ++ _))
      [("peer_max_input", .table (c.input.values ++ _))] :=
    Adds.table "peer_max_input" c.input.values hincrease (by simp [InputConfig.values])
  have hban : Adds ["antiflood", speed.name]
      (.header ["antiflood", speed.name, "black_list"] :: (assigns c.ban.entries ++ []))
      [("black_list", .table (c.ban.entries ++ []))] :=
    Adds.table "black_list" c.ban.entries Adds.nil (by simp [BanConfig.entries])
  exact Adds.table speed.name c.values (hinput.append hban) (by simp [TierConfig.values])

theorem flatMap_limitStatements (ls : List TopicLimit) :
    ls.flatMap limitStatements =
      arrayTables ["antiflood", "topic", "max_messages"] (ls.map TopicLimit.entries) := by
  rw [arrayTables, List.flatMap_map]
  rfl

theorem adds_topics (c : TopicConfig) :
    Adds ["antiflood"] (topicStatements c) [("topic", .table c.entries)] := by
  rw [topicStatements, TopicConfig.entries]
  cases c.limits with
  | nil =>
    exact Adds.table "topic" [("default_max_messages_per_sec", _), ("max_messages", .sequence [])]
      Adds.nil (by simp)
  | cons l ls =>
    have hlimits : Adds ["antiflood", "topic"] ((l :: ls).flatMap limitStatements)
        [("max_messages", .sequence ((l :: ls).map fun l => .table l.entries))] := by
      have hnodup : ∀ l : TopicLimit, (l.entries.map Prod.fst).Nodup := by simp [TopicLimit.entries]
      have hrest : ∀ vs ∈ ls.map TopicLimit.entries, (vs.map Prod.fst).Nodup := by
        simpa using fun l _ => hnodup l
      have htables : Adds ["antiflood", "topic"] _ _ :=
        Adds.tables "max_messages" (hnodup l) hrest
      rw [flatMap_limitStatements]
      simpa [Function.comp_def] using htables
    exact Adds.table "topic" [("default_max_messages_per_sec", _)] hlimits (by simp)

/-- **The statements of a configuration stand for its document.** -/
theorem documentOf_statements (c : NodeConfig) : documentOf c.statements = some c.document := by
  have hcache : Adds ["antiflood"]
      (.header ["antiflood", "cache"] :: (assigns c.protection.cache.entries ++ []))
      [("cache", .table (c.protection.cache.entries ++ []))] :=
    Adds.table "cache" c.protection.cache.entries Adds.nil (by simp [CacheConfig.entries])
  have htiers := Adds.flatMap (fun t : Speed × TierConfig => adds_tier t.1 t.2)
    c.protection.tiers.toList
  have hprotection : Adds [] _ [("antiflood", .table ([("enabled", _)] ++ _))] :=
    Adds.table "antiflood" [("enabled", .boolean c.protection.enabled)]
      ((hcache.append htiers).append (adds_topics c.protection.topics))
      (by simp [PerSpeed.toList, Speed.all, Speed.name])
  have hjournal : Adds [] (.header ["debug", "antiflood"] :: assigns c.journal.entries)
      [("debug", .table [("antiflood", .table c.journal.entries)])] :=
    Adds.implied "debug" "antiflood" (by simp [JournalConfig.entries])
  have hdocument := documentOf_assigns [("node_name", .string c.name)]
    (hprotection.append hjournal) (by simp)
  simpa [statements, document, Config.entries, assigns, assign, assignNat, CacheConfig.entries,
    JournalConfig.entries] using hdocument

/-! ### The text -/

/-- Is a value of one of the kinds that are written? -/
def isRegular : Document → Bool
  | .boolean _ | .integer (.ofNat _) | .number _ | .string _ | .sequence [] => true
  | _ => false

/-- Has a statement a path without quotes and a value of one of the kinds that are written? -/
def isRegularStatement : Statement → Bool
  | .assign path d => decide (IsPath path) && isRegular d
  | .header path | .arrayHeader path => decide (IsPath path)

theorem written_of_isRegular {d : Document} (h : isRegular d = true) (hw : isWritable d = true) :
    Written d := by
  unfold isRegular at h
  split at h
  · exact .boolean _
  · exact .integer hw
  · exact .number _
  · exact .string _
  · exact .none
  · cases h

theorem written_of_isRegularStatement {st : Statement} (h : isRegularStatement st = true)
    (hw : st.isWritable = true) : st.Written := by
  cases st with
  | assign path d =>
    obtain ⟨hpath, hd⟩ := Bool.and_eq_true_iff.mp h
    exact .assign (of_decide_eq_true hpath) (written_of_isRegular hd hw)
  | header path => exact .header (of_decide_eq_true h)
  | arrayHeader path => exact .arrayHeader (of_decide_eq_true h)

theorem all_tierStatements (speed : Speed) (c : TierConfig) :
    (tierStatements speed c).all isRegularStatement = true := by
  cases speed <;> rfl

theorem all_limitStatements (l : TopicLimit) :
    (limitStatements l).all isRegularStatement = true := rfl

theorem all_topicStatements (c : TopicConfig) :
    (topicStatements c).all isRegularStatement = true := by
  rw [topicStatements, List.all_append]
  refine Bool.and_eq_true_iff.mpr ⟨rfl, ?_⟩
  split
  · rfl
  · rw [List.all_flatMap]
    exact List.all_eq_true.mpr fun l _ => all_limitStatements l

theorem all_statements (c : NodeConfig) : c.statements.all isRegularStatement = true := by
  rw [statements, List.all_append, List.all_append, List.all_append, List.all_flatMap,
    all_topicStatements, Bool.and_eq_true_iff, Bool.and_eq_true_iff, Bool.and_eq_true_iff]
  exact ⟨⟨⟨rfl, List.all_eq_true.mpr fun t _ => all_tierStatements t.1 t.2⟩, rfl⟩, rfl⟩

/-- **A configuration is read off the text in which it is saved.** -/
theorem ofText?_save {c : NodeConfig} (h : c.statements.all Statement.isWritable = true) :
    ofText? c.save = some c := by
  have hwritten : ∀ st ∈ c.statements, st.Written := fun st hst =>
    written_of_isRegularStatement (List.all_eq_true.mp c.all_statements st hst)
      (List.all_eq_true.mp h st hst)
  have hmark : skipMark (write c.statements) = write c.statements := rfl
  have hread : Toml.read c.save.toList = some c.document := by
    rw [save, String.toList_ofList, Toml.read, hmark, statements_write hwritten, Option.bind_some,
      documentOf_statements]
  rw [ofText?, hread, Option.bind_some, ofDocument?_document]

end NodeConfig

end Floodgate
