import Floodgate.Proofs.Config.Saved
import Floodgate.Proofs.Station.Validation
import Floodgate.Proofs.Toml.Fits

/-! # A saved configuration reloads

What has been loaded can be saved, for its integers come from a text or are defaults
(`NodeConfig.fits_of_load`), and the saved text loads to the configuration that was saved
(`NodeConfig.saved_reloads`): it is read off the text again, the switches have been applied before
it was saved, and the check that it passed when it was loaded is the same one. -/

namespace Floodgate

open Toml

/-! ### What is read off documents that fit -/

namespace Document

theorem fits_settings? {d : Document} (hd : Fits d) {names : List String}
    {s : List (String × Document)} (h : d.settings? names = some s) : ∀ e ∈ s, Fits e.2 := by
  unfold settings? at h
  split at h
  · cases h
    exact fits_table_iff.mp hd
  · cases h
    exact fun e he => fits_sequence_iff.mp hd _ (List.of_mem_zip he).2
  · cases h
    exact fun e he => absurd he List.not_mem_nil
  · cases h

theorem fits_of_word64? {d : Document} {n : UInt64} (hd : Fits d) (h : d.word64? = some n) :
    Fits (.integer n.toNat) := by
  obtain ⟨m, hm, rfl⟩ := Option.map_eq_some_iff.mp h
  unfold below? at hm
  split at hm
  · rename_i i
    split_ifs at hm with hbound
    cases hm
    obtain ⟨k, rfl⟩ := Int.eq_ofNat_of_zero_le hbound.1
    have hk : k < 2 ^ (63 : Nat) := fits_natCast_iff.mp hd
    refine fits_natCast_iff.mpr ?_
    simp
    omega
  · cases hm

variable {s : List (String × Document)} {name : String}

theorem setting_keeps {α : Type} {value? : Document → Option α} {default a : α} {P : α → Prop}
    (hvalue : ∀ d a, Fits d → value? d = some a → P a) (hdefault : P default)
    (hs : ∀ e ∈ s, Fits e.2) (h : setting s name value? default = some a) : P a := by
  unfold setting at h
  split at h
  · rename_i d hd
    exact hvalue d a (hs _ (Keyed.mem_of_find hd)) h
  · cases h
    exact hdefault

theorem fits_setting_word64 {default n : UInt64} (hdefault : default.toNat < 2 ^ (63 : Nat))
    (hs : ∀ e ∈ s, Fits e.2) (h : setting s name word64? default = some n) :
    Fits (.integer n.toNat) :=
  setting_keeps (P := fun n : UInt64 => Fits (.integer n.toNat)) (fun _ _ => fits_of_word64?)
    (fits_natCast_iff.mpr hdefault) hs h

end Document

/-! ### Sections -/

section Sections

open Document

variable {d : Document}

theorem CacheConfig.fits_entries_iff {c : CacheConfig} :
    Fits (.table c.entries) ↔
      Fits (.integer c.capacity.toNat) ∧ Fits (.integer c.sizeInBytes.toNat) ∧
        Fits (.integer c.shards.toNat) := by
  simp [fits_table_iff, entries]

theorem CacheConfig.fits_of_ofDocument? {c : CacheConfig} (hd : Fits d)
    (h : ofDocument? d = some c) : Fits (.table c.entries) := by
  obtain ⟨s, hs, hcapacity, hsize, hshards⟩ := ofDocument?_eq_some_iff.mp h
  have hfits := fits_settings? hd hs
  exact fits_entries_iff.mpr ⟨fits_setting_word64 (by decide) hfits hcapacity,
    fits_setting_word64 (by decide) hfits hsize, fits_setting_word64 (by decide) hfits hshards⟩

theorem InputConfig.fits_entries_iff {c : InputConfig} :
    Fits (.table c.entries) ↔ Fits (.integer c.totalSize.toNat) := by
  simp [fits_table_iff, entries, values, IncreaseConfig.entries, fits_word32, Fits.number]

theorem InputConfig.fits_of_ofDocument? {c : InputConfig} (hd : Fits d)
    (h : ofDocument? d = some c) : Fits (.table c.entries) := by
  obtain ⟨s, hs, -, hsize, -⟩ := ofDocument?_eq_some_iff.mp h
  exact fits_entries_iff.mpr (fits_setting_word64 (by decide) (fits_settings? hd hs) hsize)

theorem BanConfig.fits_entries_iff {c : BanConfig} :
    Fits (.table c.entries) ↔
      Fits (.integer c.size.toNat) ∧ Fits (.integer c.banSeconds.toNat) := by
  simp [fits_table_iff, entries, fits_word32]

theorem BanConfig.fits_of_ofDocument? {c : BanConfig} (hd : Fits d)
    (h : ofDocument? d = some c) : Fits (.table c.entries) := by
  obtain ⟨s, hs, -, hsize, -, hspan⟩ := ofDocument?_eq_some_iff.mp h
  have hfits := fits_settings? hd hs
  exact fits_entries_iff.mpr ⟨fits_setting_word64 (by decide) hfits hsize,
    fits_setting_word64 (by decide) hfits hspan⟩

theorem TierConfig.fits_entries_iff {c : TierConfig} :
    Fits (.table c.entries) ↔
      Fits (.integer c.intervalSeconds.toNat) ∧ Fits (.table c.input.entries) ∧
        Fits (.table c.ban.entries) := by
  rw [fits_table_iff]
  simp [entries, values, Fits.number]

theorem TierConfig.fits_of_ofDocument? {c : TierConfig} (hd : Fits d)
    (h : ofDocument? d = some c) : Fits (.table c.entries) := by
  obtain ⟨s, hs, hinterval, -, hinput, hban⟩ := ofDocument?_eq_some_iff.mp h
  have hfits := fits_settings? hd hs
  refine fits_entries_iff.mpr ⟨fits_setting_word64 (by decide) hfits hinterval, ?_, ?_⟩
  · exact setting_keeps (P := fun c : InputConfig => Fits (.table c.entries))
      (fun _ _ => InputConfig.fits_of_ofDocument?)
      (InputConfig.fits_entries_iff.mpr (fits_natCast_iff.mpr (by decide))) hfits hinput
  · exact setting_keeps (P := fun c : BanConfig => Fits (.table c.entries))
      (fun _ _ => BanConfig.fits_of_ofDocument?)
      (BanConfig.fits_entries_iff.mpr
        ⟨fits_natCast_iff.mpr (by decide), fits_natCast_iff.mpr (by decide)⟩) hfits hban

theorem TopicConfig.fits_entries (c : TopicConfig) : Fits (.table c.entries) := by
  have hlimit : ∀ l : TopicLimit, Fits (.table l.entries) := by
    simp [fits_table_iff, TopicLimit.entries, fits_word32, Fits.string]
  rw [fits_table_iff]
  simp [entries, fits_word32, fits_sequence_iff, hlimit]

theorem Config.fits_entries_iff {c : Config} :
    Fits (.table c.entries) ↔
      Fits (.table c.cache.entries) ∧ ∀ speed, Fits (.table (c.tiers.get speed).entries) := by
  have hspeeds : ∀ P : Speed → Prop, (∀ speed, P speed) ↔ P .fast ∧ P .slow ∧ P .outOfSpecs :=
    fun P => ⟨fun h => ⟨h _, h _, h _⟩, fun h speed => by cases speed <;> tauto⟩
  rw [fits_table_iff, hspeeds]
  simp [entries, PerSpeed.toList, PerSpeed.get, Speed.all, Fits.boolean, TopicConfig.fits_entries]

theorem Config.fits_production : Fits (.table production.entries) := by
  simp only [fits_entries_iff, CacheConfig.fits_entries_iff, TierConfig.fits_entries_iff,
    InputConfig.fits_entries_iff, BanConfig.fits_entries_iff, fits_natCast_iff]
  refine ⟨by decide, fun speed => ?_⟩
  cases speed <;> decide

theorem Config.fits_of_ofDocument? {c : Config} (hd : Fits d) (h : ofDocument? d = some c) :
    Fits (.table c.entries) := by
  obtain ⟨s, hs, -, hcache, htier, -⟩ := ofDocument?_eq_some_iff.mp h
  obtain ⟨hcache', htier'⟩ := fits_entries_iff.mp fits_production
  have hfits := fits_settings? hd hs
  refine fits_entries_iff.mpr ⟨?_, fun speed => ?_⟩
  · exact setting_keeps (P := fun c : CacheConfig => Fits (.table c.entries))
      (fun _ _ => CacheConfig.fits_of_ofDocument?) hcache' hfits hcache
  · exact setting_keeps (P := fun c : TierConfig => Fits (.table c.entries))
      (fun _ _ => TierConfig.fits_of_ofDocument?) (htier' speed) hfits (htier speed)

theorem JournalConfig.fits_entries_iff {c : JournalConfig} :
    Fits (.table c.entries) ↔
      Fits (.integer c.capacity.toNat) ∧ Fits (.integer c.printSeconds.toNat) := by
  simp [fits_table_iff, entries, Fits.boolean]

theorem JournalConfig.fits_of_ofDocument? {c : JournalConfig} (hd : Fits d)
    (h : ofDocument? d = some c) : Fits (.table c.entries) := by
  obtain ⟨s, hs, -, hcapacity, hprint⟩ := ofDocument?_eq_some_iff.mp h
  have hfits := fits_settings? hd hs
  exact fits_entries_iff.mpr ⟨fits_setting_word64 (by decide) hfits hcapacity,
    fits_setting_word64 (by decide) hfits hprint⟩

theorem JournalConfig.fits_default : Fits (.table ({} : JournalConfig).entries) := by
  simp only [fits_entries_iff, fits_natCast_iff]
  decide

theorem NodeConfig.fits_document_iff {c : NodeConfig} :
    Fits c.document ↔ Fits (.table c.protection.entries) ∧ Fits (.table c.journal.entries) := by
  have hdebug : Fits (.table [("antiflood", .table c.journal.entries)]) ↔
      Fits (.table c.journal.entries) := by
    rw [fits_table_iff]
    simp
  rw [document, fits_table_iff]
  simp [hdebug, Fits.string]

theorem NodeConfig.fits_of_ofDocument? {c : NodeConfig} (hd : Fits d)
    (h : ofDocument? d = some c) : Fits c.document := by
  obtain ⟨s, hs, -, hprotection, hjournal⟩ := ofDocument?_eq_some_iff.mp h
  have hfits := fits_settings? hd hs
  refine fits_document_iff.mpr ⟨?_, ?_⟩
  · exact setting_keeps (P := fun c : Config => Fits (.table c.entries))
      (fun _ _ => Config.fits_of_ofDocument?) Config.fits_production hfits hprotection
  · refine setting_keeps (P := fun c : JournalConfig => Fits (.table c.entries))
      (fun d c hd h => ?_) JournalConfig.fits_default hfits hjournal
    obtain ⟨s, hs, hsection⟩ := JournalConfig.ofSection?_eq_some_iff.mp h
    exact setting_keeps (P := fun c : JournalConfig => Fits (.table c.entries))
      (fun _ _ => JournalConfig.fits_of_ofDocument?) JournalConfig.fits_default
      (fits_settings? hd hs) hsection

end Sections

namespace NodeConfig

variable {file : Option ByteArray} {switches : Switches} {c : NodeConfig}

theorem fits_switched (c : NodeConfig) (switches : Switches) :
    Fits (c.switched switches).document ↔ Fits c.document := by
  simp only [fits_document_iff, Config.fits_entries_iff, JournalConfig.fits_entries_iff, switched]

/-- **What has been loaded can be written.** -/
theorem fits_of_load (h : load file switches = .ok c) : Fits c.document := by
  obtain ⟨read, hread, h⟩ := of_bind_eq_ok h
  obtain ⟨u, -, h⟩ := of_bind_eq_ok h
  cases h
  -- the switches change truth values only
  refine (fits_switched read switches).mpr ?_
  unfold ofFile at hread
  split at hread
  · cases hread
    exact fits_document_iff.mpr ⟨Config.fits_production, JournalConfig.fits_default⟩
  · split at hread
    · cases hread
    · split at hread
      · cases hread
      · rename_i htext
        cases hread
        obtain ⟨d, hd, hc⟩ := Option.bind_eq_some_iff.mp htext
        exact fits_of_ofDocument? (fits_of_read hd) hc

/-! ### Saving -/

theorem isWritable_assignNat {name : String} {n : Nat} (h : Fits (.integer n)) :
    (assignNat name n).isWritable = true :=
  (isWritable_natCast n).mpr (fits_natCast_iff.mp h)

theorem all_isWritable_tier (speed : Speed) {t : TierConfig} (h : Fits (.table t.entries)) :
    (tierStatements speed t).all Statement.isWritable = true := by
  obtain ⟨hinterval, hinput, hban⟩ := TierConfig.fits_entries_iff.mp h
  have hsize := InputConfig.fits_entries_iff.mp hinput
  obtain ⟨hbanSize, hspan⟩ := BanConfig.fits_entries_iff.mp hban
  simp only [tierStatements, List.all_cons, List.all_nil, isWritable_assignNat, fits_word32,
    hinterval, hsize, hbanSize, hspan]
  rfl

theorem all_isWritable_topics (t : TopicConfig) :
    (topicStatements t).all Statement.isWritable = true := by
  have hlimit : ∀ l : TopicLimit, (limitStatements l).all Statement.isWritable = true := fun l => by
    simp only [limitStatements, List.all_cons, isWritable_assignNat (fits_word32 _)]
    rfl
  rw [topicStatements, List.all_append]
  refine Bool.and_eq_true_iff.mpr ⟨?_, ?_⟩
  · simp only [List.all_cons, isWritable_assignNat (fits_word32 _)]
    rfl
  · split
    · rfl
    · rw [List.all_flatMap]
      exact List.all_eq_true.mpr fun l _ => hlimit l

theorem all_isWritable (h : Fits c.document) : c.statements.all Statement.isWritable = true := by
  obtain ⟨hprotection, hjournal⟩ := fits_document_iff.mp h
  obtain ⟨hcache, htier⟩ := Config.fits_entries_iff.mp hprotection
  obtain ⟨hcapacity, hsize, hshards⟩ := CacheConfig.fits_entries_iff.mp hcache
  obtain ⟨hkept, hprint⟩ := JournalConfig.fits_entries_iff.mp hjournal
  have htiers : (c.protection.tiers.toList.flatMap fun t => tierStatements t.1 t.2).all
      Statement.isWritable = true := by
    rw [List.all_flatMap]
    refine List.all_eq_true.mpr fun t ht => ?_
    obtain ⟨speed, -, rfl⟩ := List.mem_map.mp ht
    exact all_isWritable_tier speed (htier speed)
  simp only [statements, List.all_append, List.all_cons, List.all_nil, htiers,
    all_isWritable_topics, isWritable_assignNat, hcapacity, hsize, hshards, hkept, hprint]
  rfl

theorem ofFile_toUTF8 {text : String} (h : ofText? text = some c) :
    ofFile (some text.toUTF8) = .ok c := by
  have hvalid : text.toUTF8.IsValidUTF8 := text.isValidUTF8
  have htext : String.fromUTF8? text.toUTF8 = some text := by
    rw [String.fromUTF8?, dif_pos hvalid]
    rfl
  rw [ofFile, htext]
  dsimp only
  rw [h]

/-- **A saved configuration reloads.** Whatever is loaded, from whatever file and with whatever
switches, can be saved, and the saved text is loaded without switches as the configuration that was
saved. -/
theorem saved_reloads (h : load file switches = .ok c) :
    ∃ text, c.saved? = some text ∧ load (some text.toUTF8) {} = .ok c := by
  have hwritable := all_isWritable (fits_of_load h)
  obtain ⟨hprotection, hjournal⟩ := valid_of_load h
  refine ⟨c.save, if_pos hwritable, load_of_ofFile ?_ ?_⟩
  · exact ofFile_toUTF8 (ofText?_save hwritable)
  · rw [check, hprotection, hjournal]

/-- A configuration without protection whose settings would not be valid, with a name that has all
kinds of quotes, a limit that is set twice for a topic without a name, and a share that is no
number. -/
def unusual : NodeConfig where
  name := "\x01\"\"\"\n\x27\x27\x27é"
  protection :=
    { Config.production with
      enabled := false
      cache := ⟨0, 0, 3⟩
      tiers :=
        .constant { reservedPercent := .nan, input := { increase := ⟨.infinite true, .nan⟩ } }
      topics := ⟨0, [⟨"", 7⟩, ⟨"", 7⟩]⟩ }
  journal := {}

theorem saved_reloads_unusual :
    load (some unusual.save.toUTF8) { withJournal := true } =
        .ok (unusual.switched { withJournal := true }) ∧
      ∃ text, (unusual.switched { withJournal := true }).saved? = some text ∧
        load (some text.toUTF8) {} = .ok (unusual.switched { withJournal := true }) := by
  have hload : load (some unusual.save.toUTF8) { withJournal := true } =
      .ok (unusual.switched { withJournal := true }) := by
    have hwritable : unusual.statements.all Statement.isWritable = true := by decide +kernel
    rw [load, ofFile_toUTF8 (ofText?_save hwritable)]
    rfl
  exact ⟨hload, saved_reloads hload⟩

end NodeConfig

end Floodgate
