import Floodgate.Toml.Reader
import Floodgate.Toml.Writer
import Mathlib.Tactic.SplitIfs

/-! # Documents that are read can be written

A text holds no integer that could not be written again: an integer is read only if it fits
(`fitting`), and every other step of reading puts together what has been read before. So all
integers of a document that is read fit (`fits_of_read`). -/

namespace Floodgate

namespace Toml

/-- All integers of a document can be written. -/
inductive Fits : Document → Prop
  | nothing : Fits .nothing
  | boolean (b : Bool) : Fits (.boolean b)
  | integer {i : Int} (h : isWritable (.integer i) = true) : Fits (.integer i)
  | number (x : Double) : Fits (.number x)
  | string (s : String) : Fits (.string s)
  | moment : Fits .moment
  | sequence {ds : List Document} (h : ∀ d ∈ ds, Fits d) : Fits (.sequence ds)
  | table {es : List (String × Document)} (h : ∀ e ∈ es, Fits e.2) : Fits (.table es)

/-- All integers of an item can be written. -/
inductive Item.Fits : Item → Prop
  | value {d : Document} (h : Toml.Fits d) : Fits (.value d)
  | table {origin : Origin} {es : Entries} (h : ∀ e ∈ es, Fits e.2) : Fits (.table origin es)
  | tables {last : Entries} {before : List Entries} (hlast : ∀ e ∈ last, Fits e.2)
      (hbefore : ∀ es ∈ before, ∀ e ∈ es, Fits e.2) : Fits (.tables last before)

/-- All integers of entries can be written. -/
def EntriesFit (es : Entries) : Prop := ∀ e ∈ es, e.2.Fits

theorem fits_table_iff {es : List (String × Document)} :
    Fits (.table es) ↔ ∀ e ∈ es, Fits e.2 := by
  constructor
  · intro h
    cases h with
    | table h => exact h
  · exact .table

theorem fits_sequence_iff {ds : List Document} : Fits (.sequence ds) ↔ ∀ d ∈ ds, Fits d := by
  constructor
  · intro h
    cases h with
    | sequence h => exact h
  · exact .sequence

theorem isWritable_natCast (n : Nat) :
    isWritable (.integer n) = true ↔ n < 2 ^ (63 : Nat) := by
  rw [isWritable, fitting]
  split_ifs with h
  · simp only [Option.isSome_some, true_iff]
    omega
  · simp only [Option.isSome_none, Bool.false_eq_true, false_iff]
    omega

theorem fits_natCast_iff {n : Nat} : Fits (.integer n) ↔ n < 2 ^ (63 : Nat) := by
  rw [← isWritable_natCast]
  constructor
  · intro h
    cases h with
    | integer h => exact h
  · exact .integer

theorem fits_word32 (n : UInt32) : Fits (.integer n.toNat) :=
  fits_natCast_iff.mpr (Nat.lt_trans n.toNat_lt (by decide))

/-! ### Tables under construction -/

theorem mem_documents {es : Entries} {e : String × Document} (h : e ∈ documents es) :
    ∃ f ∈ es, e.2 = f.2.document := by
  induction es with
  | nil => simp [documents] at h
  | cons f es ih =>
    rw [documents] at h
    rcases List.mem_cons.mp h with rfl | h
    · exact ⟨f, List.mem_cons_self, rfl⟩
    · obtain ⟨g, hg, heq⟩ := ih h
      exact ⟨g, List.mem_cons_of_mem _ hg, heq⟩

theorem mem_tableDocuments {ess : List Entries} {d : Document} (h : d ∈ tableDocuments ess) :
    ∃ es ∈ ess, d = .table (documents es) := by
  induction ess with
  | nil => simp [tableDocuments] at h
  | cons es ess ih =>
    rw [tableDocuments] at h
    rcases List.mem_cons.mp h with rfl | h
    · exact ⟨es, List.mem_cons_self, rfl⟩
    · obtain ⟨fs, hfs, heq⟩ := ih h
      exact ⟨fs, List.mem_cons_of_mem _ hfs, heq⟩

theorem fits_documents {es : Entries} (h : ∀ e ∈ es, Fits e.2.document) :
    Fits (.table (documents es)) := by
  refine .table fun e he => ?_
  obtain ⟨f, hf, heq⟩ := mem_documents he
  rw [heq]
  exact h f hf

theorem Item.Fits.document {item : Item} (h : item.Fits) : Toml.Fits item.document := by
  induction h with
  | value h => rwa [Item.document]
  | table h ih =>
    rw [Item.document]
    exact fits_documents ih
  | tables hlast hbefore ihlast ihbefore =>
    rw [Item.document]
    refine .sequence fun d hd => ?_
    rcases List.mem_append.mp hd with hd | hd
    · obtain ⟨es, hes, rfl⟩ := mem_tableDocuments (List.mem_reverse.mp hd)
      exact fits_documents (ihbefore es hes)
    · rw [List.mem_singleton.mp hd]
      exact fits_documents ihlast

theorem EntriesFit.find {es : Entries} (h : EntriesFit es) {n : String} {item : Item}
    (hfind : Keyed.find n es = some item) : item.Fits :=
  h _ (Keyed.mem_of_find hfind)

theorem EntriesFit.put {es : Entries} (h : EntriesFit es) (n : String) {item : Item}
    (hitem : item.Fits) : EntriesFit (Keyed.put n item es) := by
  induction es with
  | nil => simpa [Keyed.put, EntriesFit] using hitem
  | cons e es ih =>
    obtain ⟨he, hes⟩ := List.forall_mem_cons.mp h
    rw [Keyed.put]
    split_ifs
    · exact List.forall_mem_cons.mpr ⟨hitem, hes⟩
    · exact List.forall_mem_cons.mpr ⟨he, ih hes⟩

theorem fits_enter? {dotted : Bool} {item : Option Item} {t : Reached}
    (h : enter? dotted item = some t) (hitem : ∀ i, item = some i → i.Fits) :
    EntriesFit t.entries ∧ ∀ es, EntriesFit es → (t.rebuild es).Fits := by
  unfold enter? at h
  split at h
  · cases h
    exact ⟨fun e he => absurd he List.not_mem_nil, fun es hes => .table hes⟩
  · split_ifs at h
    cases h
    cases hitem _ rfl with
    | table hes => exact ⟨hes, fun es hes => .table hes⟩
  · cases h
    cases hitem _ rfl with
    | tables hlast hbefore => exact ⟨hlast, fun es hes => .tables hes hbefore⟩
  · cases h

theorem fits_change? {dotted : Bool} {f : Origin → Entries → Option Entries}
    (hf : ∀ o es es', EntriesFit es → f o es = some es' → EntriesFit es') {path : List String}
    {origin : Origin} {es es' : Entries} (hes : EntriesFit es)
    (h : change? dotted f path origin es = some es') : EntriesFit es' := by
  induction path generalizing origin es es' with
  | nil => exact hf origin es es' hes h
  | cons n ns ih =>
    rw [change?] at h
    cases ht : enter? dotted (Keyed.find n es) with
    | none =>
      rw [ht] at h
      cases h
    | some t =>
      rw [ht] at h
      obtain ⟨inner, hinner, rfl⟩ := Option.map_eq_some_iff.mp h
      -- the table that is entered fits, and so does what it is rebuilt to
      obtain ⟨hentries, hrebuild⟩ := fits_enter? ht fun i hi => hes.find hi
      exact hes.put n (hrebuild inner (ih hentries hinner))

theorem fits_assign? {d : Document} (hd : Fits d) {path : List String} {es es' : Entries}
    (hes : EntriesFit es) (h : assign? d path es = some es') : EntriesFit es' := by
  unfold assign? at h
  split at h
  · cases h
  · refine fits_change? (fun o fs fs' hfs hadd => ?_) hes h
    split_ifs at hadd
    unfold Toml.add? at hadd
    split at hadd
    · cases hadd
    · cases hadd
      refine List.forall_mem_append.mpr ⟨hfs, fun e he => ?_⟩
      rw [List.mem_singleton.mp he]
      exact .value hd

theorem fits_open? {item? : Option Item → Option Item}
    (hitem? : ∀ item i, (∀ j, item = some j → j.Fits) → item? item = some i → i.Fits)
    {path : List String} {es es' : Entries} (hes : EntriesFit es)
    (h : open? item? path es = some es') : EntriesFit es' := by
  unfold open? at h
  split at h
  · cases h
  · refine fits_change? (fun o fs fs' hfs hput => ?_) hes h
    obtain ⟨i, hi, rfl⟩ := Option.map_eq_some_iff.mp hput
    exact hfs.put _ (hitem? _ i (fun j hj => hfs.find hj) hi)

theorem fits_headed? {item : Option Item} {i : Item} (hitem : ∀ j, item = some j → j.Fits)
    (h : headed? item = some i) : i.Fits := by
  unfold headed? at h
  split at h
  · cases h
    exact .table fun e he => absurd he List.not_mem_nil
  · cases h
    cases hitem _ rfl with
    | table hes => exact .table hes
  · cases h

theorem fits_arrayHeaded? {item : Option Item} {i : Item} (hitem : ∀ j, item = some j → j.Fits)
    (h : arrayHeaded? item = some i) : i.Fits := by
  have hnone : ∀ e ∈ ([] : Entries), e.2.Fits := fun e he => absurd he List.not_mem_nil
  unfold arrayHeaded? at h
  split at h
  · cases h
    exact .tables hnone fun es hes => absurd hes List.not_mem_nil
  · cases h
    cases hitem _ rfl with
    | tables hlast hbefore => exact .tables hnone (List.forall_mem_cons.mpr ⟨hlast, hbefore⟩)
  · cases h

/-- The value of a statement can be written. -/
def Statement.Fits : Statement → Prop
  | .assign _ d => Toml.Fits d
  | .header _ | .arrayHeader _ => True

theorem fits_draft {t t' : Draft} {st : Statement} (ht : EntriesFit t.root) (hst : st.Fits)
    (h : t.add? st = some t') : EntriesFit t'.root := by
  cases st with
  | assign path d =>
    obtain ⟨root, hroot, rfl⟩ := Option.map_eq_some_iff.mp h
    exact fits_change? (fun o es es' hes hadd => fits_assign? hst hes hadd) ht hroot
  | header path =>
    obtain ⟨root, hroot, rfl⟩ := Option.map_eq_some_iff.mp h
    exact fits_open? (fun _ _ hitem hi => fits_headed? hitem hi) ht hroot
  | arrayHeader path =>
    obtain ⟨root, hroot, rfl⟩ := Option.map_eq_some_iff.mp h
    exact fits_open? (fun _ _ hitem hi => fits_arrayHeaded? hitem hi) ht hroot

theorem foldlM_keeps {α β : Type} {f : β → α → Option β} {P : β → Prop} {as : List α}
    (hf : ∀ a ∈ as, ∀ b b', P b → f b a = some b' → P b') {b b' : β} (hb : P b)
    (h : as.foldlM f b = some b') : P b' := by
  induction as generalizing b with
  | nil =>
    cases h
    exact hb
  | cons a as ih =>
    obtain ⟨ha, has⟩ := List.forall_mem_cons.mp hf
    rw [List.foldlM_cons] at h
    obtain ⟨c, hc, h⟩ := Option.bind_eq_some_iff.mp h
    exact ih has (ha b c hb hc) h

theorem fits_documentOf {ss : List Statement} (hss : ∀ st ∈ ss, st.Fits) {d : Document}
    (h : documentOf ss = some d) : Fits d := by
  obtain ⟨t, ht, rfl⟩ := Option.map_eq_some_iff.mp h
  have hnone : EntriesFit ({} : Draft).root := fun e he => absurd he List.not_mem_nil
  have hroot : EntriesFit t.root :=
    foldlM_keeps (P := fun t => EntriesFit t.root)
      (fun st hst t t' ht hadd => fits_draft ht (hss st hst) hadd) hnone ht
  exact fits_documents fun e he => (hroot e he).document

/-! ### Values -/

/-- What a reader reads can be written. -/
def ReadsFitting (read : Reader Document) : Prop := ∀ s d r, read s = some (d, r) → Fits d

theorem fits_fitting {i : Int} {d : Document} (h : fitting i = some d) : Fits d := by
  have hd : d = .integer i := by
    unfold fitting at h
    split_ifs at h
    exact (Option.some.inj h).symm
  subst hd
  exact .integer (by rw [isWritable, h]; rfl)

theorem based_fitting (base : Nat) : ReadsFitting (based base) := by
  intro s d r h
  obtain ⟨t, -, h⟩ := Option.bind_eq_some_iff.mp h
  obtain ⟨d', hd, heq⟩ := Option.map_eq_some_iff.mp h
  cases heq
  exact fits_fitting hd

theorem integer_fitting : ReadsFitting integer := by
  intro s d r h
  unfold integer at h
  split at h
  · exact based_fitting 16 _ _ _ h
  · exact based_fitting 8 _ _ _ h
  · exact based_fitting 2 _ _ _ h
  · obtain ⟨t, -, h⟩ := Option.bind_eq_some_iff.mp h
    obtain ⟨d', hd, heq⟩ := Option.map_eq_some_iff.mp h
    cases heq
    exact fits_fitting hd

theorem special_fitting (negative : Bool) : ReadsFitting (special negative) := by
  intro s d r h
  unfold special at h
  split at h
  · cases h
    exact .number _
  · cases h
    exact .number _
  · cases h

theorem number_fitting : ReadsFitting number := by
  intro s d r h
  unfold number at h
  dsimp only at h
  split at h
  · rename_i hspecial
    cases h
    exact special_fitting _ _ _ _ hspecial
  · split at h
    · cases h
    · split at h
      · cases h
      · split at h
        · cases h
        · split_ifs at h
          · exact integer_fitting _ _ _ h
          · obtain ⟨x, -, heq⟩ := Option.map_eq_some_iff.mp h
            cases heq
            exact .number x

theorem moment_fitting : ReadsFitting moment := by
  intro s d r h
  unfold moment at h
  split at h
  all_goals
    obtain ⟨t, -, heq⟩ := Option.map_eq_some_iff.mp h
    cases heq
    exact .moment

theorem scalar_fitting : ReadsFitting scalar := by
  intro s d r h
  unfold scalar at h
  split at h
  · cases h
    exact .boolean true
  · cases h
    exact .boolean false
  · obtain ⟨t, -, heq⟩ := Option.map_eq_some_iff.mp h
    cases heq
    exact .string _
  · obtain ⟨t, -, heq⟩ := Option.map_eq_some_iff.mp h
    cases heq
    exact .string _
  · cases hmoment : moment s with
    | some t =>
      rw [hmoment] at h
      cases h
      exact moment_fitting _ _ _ hmoment
    | none =>
      rw [hmoment] at h
      exact number_fitting _ _ _ h

section Nested

variable {value : Reader Document}

theorem fits_items (hvalue : ReadsFitting value) {s r : List Char} {ds : List Document}
    (h : items value s = some (ds, r)) : ∀ d ∈ ds, Fits d := by
  fun_induction items value s generalizing ds r with
  | case1 | case5 | case6 => cases h
  | case2 s d t hd | case3 s d t hd =>
    cases h
    intro d' hd'
    rw [List.mem_singleton.mp hd']
    exact hvalue _ _ _ hd
  | case4 s d t hd t' hcomma hend hshorter ih =>
    obtain ⟨u, hu, heq⟩ := Option.map_eq_some_iff.mp h
    cases heq
    exact List.forall_mem_cons.mpr ⟨hvalue _ _ _ hd, ih hu⟩

theorem array_fitting (hvalue : ReadsFitting value) : ReadsFitting (array value) := by
  intro s d r h
  unfold array at h
  split at h
  · cases h
    exact .sequence fun d hd => absurd hd List.not_mem_nil
  · obtain ⟨t, ht, heq⟩ := Option.map_eq_some_iff.mp h
    cases heq
    exact .sequence (fits_items hvalue ht)

theorem fits_binding (hvalue : ReadsFitting value) {s r : List Char}
    {b : List String × Document} (h : binding value s = some (b, r)) : Fits b.2 := by
  unfold binding at h
  split at h
  · obtain ⟨t, ht, heq⟩ := Option.map_eq_some_iff.mp h
    cases heq
    exact hvalue _ _ _ ht
  · cases h

theorem fits_bindings (hvalue : ReadsFitting value) {s r : List Char}
    {bs : List (List String × Document)} (h : bindings value s = some (bs, r)) :
    ∀ b ∈ bs, Fits b.2 := by
  fun_induction bindings value s generalizing bs r with
  | case1 | case4 | case5 => cases h
  | case2 s b t hb =>
    cases h
    intro b' hb'
    rw [List.mem_singleton.mp hb']
    exact fits_binding hvalue hb
  | case3 s b t hshorter hb ih =>
    obtain ⟨u, hu, heq⟩ := Option.map_eq_some_iff.mp h
    cases heq
    exact List.forall_mem_cons.mpr ⟨fits_binding hvalue hb, ih hu⟩

theorem fits_inlineTable {bs : List (List String × Document)} (hbs : ∀ b ∈ bs, Fits b.2)
    {d : Document} (h : inlineTable bs = some d) : Fits d := by
  obtain ⟨es, hes, rfl⟩ := Option.map_eq_some_iff.mp h
  have hnone : EntriesFit [] := fun e he => absurd he List.not_mem_nil
  have hentries : EntriesFit es :=
    foldlM_keeps (P := EntriesFit)
      (fun b hb es es' hes hassign => fits_assign? (hbs b hb) hes hassign) hnone hes
  exact fits_documents fun e he => (hentries e he).document

theorem braced_fitting (hvalue : ReadsFitting value) : ReadsFitting (braced value) := by
  intro s d r h
  unfold braced at h
  split at h
  · cases h
    exact .table fun e he => absurd he List.not_mem_nil
  · obtain ⟨t, ht, h⟩ := Option.bind_eq_some_iff.mp h
    obtain ⟨d', hd, heq⟩ := Option.map_eq_some_iff.mp h
    cases heq
    exact fits_inlineTable (fits_bindings hvalue ht) hd

end Nested

theorem value_fitting (depth : Nat) : ReadsFitting (value depth) := by
  induction depth with
  | zero => exact scalar_fitting
  | succ depth ih =>
    intro s d r h
    unfold value at h
    split at h
    · exact array_fitting ih _ _ _ h
    · exact braced_fitting ih _ _ _ h
    · exact scalar_fitting _ _ _ h

/-! ### Texts -/

theorem fits_statement {s r : List Char} {st : Statement} (h : statement s = some (st, r)) :
    st.Fits := by
  unfold statement at h
  split at h
  · split at h
    · cases h
      trivial
    · cases h
  · obtain ⟨t, -, heq⟩ := Option.map_eq_some_iff.mp h
    cases heq
    trivial
  · obtain ⟨t, ht, heq⟩ := Option.map_eq_some_iff.mp h
    cases heq
    exact fits_binding (value_fitting _) ht

theorem fits_statements {s : List Char} {ss : List Statement} (h : statements s = some ss) :
    ∀ st ∈ ss, st.Fits := by
  fun_induction statements s generalizing ss with
  | case1 | case2 =>
    cases h
    exact fun st hst => absurd hst List.not_mem_nil
  | case3 | case4 | case5 | case7 => cases h
  | case6 s st t t' hend hshorter hnil hcomment hst ih =>
    obtain ⟨us, hus, rfl⟩ := Option.map_eq_some_iff.mp h
    exact List.forall_mem_cons.mpr ⟨fits_statement hst, ih hus⟩

/-- **What is read can be written.** -/
theorem fits_of_read {s : List Char} {d : Document} (h : read s = some d) : Fits d := by
  obtain ⟨ss, hss, hd⟩ := Option.bind_eq_some_iff.mp h
  exact fits_documentOf (fits_statements hss) hd

end Toml

end Floodgate
