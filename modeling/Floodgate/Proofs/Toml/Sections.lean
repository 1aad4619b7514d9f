import Floodgate.Toml.Statement

/-! # Statements of sections

What the statements of sections build. While a text is read the table of the last header is a hole
in the root table: what changes the entries there changes nothing else (`Hole`). So it can be said
of statements alone which values they add to the table they belong to (`Adds`), whatever stands
around it: sections one after the other (`Adds.append`), a section with its settings and its own
sections (`Adds.table`), one below a table without a header (`Adds.implied`), and the tables of an
array (`Adds.tables`). -/

namespace Floodgate

namespace Keyed

variable {κ α : Type} [DecidableEq κ] {k : κ} {es : List (κ × α)}

theorem put_of_not_mem (h : k ∉ es.map Prod.fst) (a : α) : put k a es = es ++ [(k, a)] := by
  induction es with
  | nil => rfl
  | cons e es ih =>
    simp only [List.map_cons, List.mem_cons, not_or] at h
    rw [put, if_neg (Ne.symm h.1), ih h.2]
    rfl

theorem put_append_self (h : k ∉ es.map Prod.fst) (a b : α) :
    put k a (es ++ [(k, b)]) = es ++ [(k, a)] := by
  induction es with
  | nil => simp [put]
  | cons e es ih =>
    simp only [List.map_cons, List.mem_cons, not_or] at h
    rw [List.cons_append, put, if_neg (Ne.symm h.1), ih h.2]
    rfl

theorem find_append_self (h : k ∉ es.map Prod.fst) (b : α) :
    find k (es ++ [(k, b)]) = some b := by
  induction es with
  | nil => simp [find]
  | cons e es ih =>
    simp only [List.map_cons, List.mem_cons, not_or] at h
    rw [List.cons_append, find, if_neg (Ne.symm h.1), ih h.2]

end Keyed

namespace Toml

/-! ### Items and their values -/

theorem documents_append (es fs : Entries) :
    documents (es ++ fs) = documents es ++ documents fs := by
  induction es with
  | nil => simp [documents]
  | cons e es ih => simp [documents, ih]

theorem keys_documents (es : Entries) : (documents es).map Prod.fst = es.map Prod.fst := by
  induction es with
  | nil => simp [documents]
  | cons e es ih => simp [documents, ih]

/-- Settings as entries of a table under construction. -/
def values (vs : List (String × Document)) : Entries := vs.map fun v => (v.1, .value v.2)

/-- The assignments of settings. -/
def assigns (vs : List (String × Document)) : List Statement := vs.map fun v => .assign [v.1] v.2

theorem documents_values (vs : List (String × Document)) : documents (values vs) = vs := by
  induction vs with
  | nil => simp [values, documents]
  | cons v vs ih => simpa [values, documents, Item.document] using ih

/-! ### Holes -/

/-- The table at the end of a path is a hole in the root table. -/
def Hole (path : List String) (origin : Origin) (fill : Entries → Entries) : Prop :=
  ∀ f es, change? false f path .header (fill es) = (f origin es).map fill

theorem change?_append (f : Origin → Entries → Option Entries) (ns ms : List String) (o : Origin)
    (es : Entries) :
    change? false f (ns ++ ms) o es = change? false (change? false f ms) ns o es := by
  induction ns generalizing o es with
  | nil => rfl
  | cons n ns ih =>
    rw [List.cons_append, change?, change?]
    cases enter? false (Keyed.find n es) with
    | none => rfl
    | some t =>
      dsimp only
      rw [ih]

variable {path : List String} {origin : Origin} {fill : Entries → Entries} {es : Entries}
  {n : String}

theorem hole_root : Hole [] .header id := by
  intro f es
  rw [change?, Option.map_id]
  rfl

theorem Hole.enter (h : Hole path origin fill) (hn : n ∉ es.map Prod.fst) {make : Entries → Item}
    {inner : Origin} (hmake : ∀ fs, enter? false (some (make fs)) = some ⟨inner, fs, make⟩) :
    Hole (path ++ [n]) inner fun fs => fill (es ++ [(n, make fs)]) := by
  intro f fs
  rw [change?_append, h, change?, Keyed.find_append_self hn, hmake]
  dsimp only
  rw [change?]
  cases f inner fs with
  | none => rfl
  | some gs => exact congrArg (some <| fill ·) (Keyed.put_append_self hn _ _)

theorem Hole.table (h : Hole path origin fill) (hn : n ∉ es.map Prod.fst) (inner : Origin) :
    Hole (path ++ [n]) inner fun fs => fill (es ++ [(n, .table inner fs)]) :=
  h.enter hn fun _ => rfl

theorem Hole.tables (h : Hole path origin fill) (hn : n ∉ es.map Prod.fst)
    (before : List Entries) :
    Hole (path ++ [n]) .header fun fs => fill (es ++ [(n, .tables fs before)]) :=
  h.enter hn fun _ => rfl

/-! ### Single statements -/

theorem add?_assign (h : Hole path origin fill) (hn : n ∉ es.map Prod.fst) (d : Document) :
    Draft.add? ⟨fill es, path⟩ (.assign [n] d) = some ⟨fill (es ++ [(n, .value d)]), path⟩ := by
  have hfind : Keyed.find n es = none := Keyed.find_eq_none n es hn
  have hassign : assign? d [n] es = some (es ++ [(n, .value d)]) := by
    simp [assign?, change?, Toml.add?, hfind]
  rw [Draft.add?, h, hassign]
  rfl

theorem foldlM_assigns (h : Hole path origin fill) {vs : List (String × Document)}
    (hnodup : (es.map Prod.fst ++ vs.map Prod.fst).Nodup) :
    (assigns vs).foldlM Draft.add? ⟨fill es, path⟩ = some ⟨fill (es ++ values vs), path⟩ := by
  induction vs generalizing es with
  | nil => simp [assigns, values]
  | cons v vs ih =>
    have hn : v.1 ∉ es.map Prod.fst := fun hmem =>
      (List.nodup_append.mp hnodup).2.2 _ hmem _ List.mem_cons_self rfl
    have hnext : ((es ++ [(v.1, Item.value v.2)]).map Prod.fst ++ vs.map Prod.fst).Nodup := by
      simpa using hnodup
    rw [assigns, List.map_cons, List.foldlM_cons, add?_assign h hn]
    refine (ih hnext).trans ?_
    simp [values]

theorem foldlM_assigns_nil (h : Hole path origin fill) {vs : List (String × Document)}
    (hnodup : (vs.map Prod.fst).Nodup) :
    (assigns vs).foldlM Draft.add? ⟨fill [], path⟩ = some ⟨fill (values vs), path⟩ := by
  have hempty : (([] : Entries).map Prod.fst ++ vs.map Prod.fst).Nodup := hnodup
  exact foldlM_assigns h hempty

theorem open?_append (h : Hole path origin fill) (item? : Option Item → Option Item) :
    open? item? (path ++ [n]) (fill es) =
      (item? (Keyed.find n es)).map fun item => fill (Keyed.put n item es) := by
  rw [open?, List.getLast?_append, List.dropLast_concat]
  dsimp only [List.getLast?_singleton, Option.some_or]
  rw [h, Option.map_map]
  rfl

theorem add?_header (h : Hole path origin fill) (hn : n ∉ es.map Prod.fst) (last : List String) :
    Draft.add? ⟨fill es, last⟩ (.header (path ++ [n])) =
      some ⟨fill (es ++ [(n, .table .header [])]), path ++ [n]⟩ := by
  rw [Draft.add?, open?_append h, Keyed.find_eq_none n es hn, headed?, Option.map_some,
    Keyed.put_of_not_mem hn]
  rfl

theorem add?_arrayHeader (h : Hole path origin fill) (hn : n ∉ es.map Prod.fst)
    (last : List String) :
    Draft.add? ⟨fill es, last⟩ (.arrayHeader (path ++ [n])) =
      some ⟨fill (es ++ [(n, .tables [] [])]), path ++ [n]⟩ := by
  rw [Draft.add?, open?_append h, Keyed.find_eq_none n es hn, arrayHeaded?, Option.map_some,
    Keyed.put_of_not_mem hn]
  rfl

theorem add?_nextArrayHeader (h : Hole path origin fill) (hn : n ∉ es.map Prod.fst)
    (fs : Entries) (before : List Entries) (last : List String) :
    Draft.add? ⟨fill (es ++ [(n, .tables fs before)]), last⟩ (.arrayHeader (path ++ [n])) =
      some ⟨fill (es ++ [(n, .tables [] (fs :: before))]), path ++ [n]⟩ := by
  rw [Draft.add?, open?_append h, Keyed.find_append_self hn, arrayHeaded?, Option.map_some,
    Keyed.put_append_self hn]
  rfl

/-! ### Sections -/

/-- Statements that begin with a header, if there are any, add values to the table at the end of a
path: they can be read behind any others that have not given it values of the same names. -/
def Adds (path : List String) (ss : List Statement) (new : List (String × Document)) : Prop :=
  ∃ added : Entries, documents added = new ∧
    ∀ origin fill es last, Hole path origin fill → (es.map Prod.fst ++ new.map Prod.fst).Nodup →
      ∃ next, ss.foldlM Draft.add? ⟨fill es, last⟩ = some ⟨fill (es ++ added), next⟩

variable {ss ss' : List Statement} {new new' vs : List (String × Document)}

theorem Adds.nil : Adds path [] [] := by
  refine ⟨[], by rw [documents], fun origin fill es last _ _ => ⟨last, ?_⟩⟩
  rw [List.append_nil]
  rfl

theorem Adds.append (h : Adds path ss new) (h' : Adds path ss' new') :
    Adds path (ss ++ ss') (new ++ new') := by
  obtain ⟨added, rfl, hadds⟩ := h
  obtain ⟨added', rfl, hadds'⟩ := h'
  refine ⟨added ++ added', documents_append _ _, fun origin fill es last hole hnodup => ?_⟩
  -- the second statements are read with what the first have added in place
  rw [List.map_append, ← List.append_assoc] at hnodup
  obtain ⟨next, hnext⟩ := hadds origin fill es last hole (List.nodup_append.mp hnodup).1
  rw [keys_documents added, ← List.map_append] at hnodup
  obtain ⟨next', hnext'⟩ := hadds' origin fill (es ++ added) next hole hnodup
  refine ⟨next', ?_⟩
  rw [List.foldlM_append, hnext, ← List.append_assoc]
  exact hnext'

theorem Adds.flatMap {α : Type} {f : α → List Statement} {g : α → String × Document}
    (h : ∀ a, Adds path (f a) [g a]) (as : List α) : Adds path (as.flatMap f) (as.map g) := by
  induction as with
  | nil => exact Adds.nil
  | cons a as ih => exact (h a).append ih

/-- **A section adds a table**: its header is followed by its settings and by its own sections. -/
theorem Adds.table (n : String) (vs : List (String × Document))
    (h : Adds (path ++ [n]) ss new)
    (hnodup : (vs.map Prod.fst ++ new.map Prod.fst).Nodup) :
    Adds path (.header (path ++ [n]) :: (assigns vs ++ ss)) [(n, .table (vs ++ new))] := by
  obtain ⟨added, rfl, hadds⟩ := h
  refine ⟨[(n, .table .header (values vs ++ added))], ?_, fun origin fill es last hole hfresh => ?_⟩
  · simp [documents, Item.document, documents_append, documents_values]
  have hn : n ∉ es.map Prod.fst := fun hmem =>
    (List.nodup_append.mp hfresh).2.2 _ hmem _ List.mem_cons_self rfl
  have hinner : Hole (path ++ [n]) .header fun fs => fill (es ++ [(n, .table .header fs)]) :=
    hole.table hn .header
  have hassigns := foldlM_assigns_nil hinner (List.nodup_append.mp hnodup).1
  have hkeys : ((values vs).map Prod.fst ++ (documents added).map Prod.fst).Nodup := by
    rwa [← keys_documents, documents_values]
  obtain ⟨next, hnext⟩ := hadds .header _ (values vs) (path ++ [n]) hinner hkeys
  refine ⟨next, ?_⟩
  rw [List.foldlM_cons, add?_header hole hn]
  refine (List.foldlM_append ..).trans ?_
  rw [hassigns]
  exact hnext

theorem Adds.implied (m n : String) (hnodup : (vs.map Prod.fst).Nodup) :
    Adds path (.header (path ++ [m] ++ [n]) :: assigns vs) [(m, .table [(n, .table vs)])] := by
  refine ⟨[(m, .table .implied [(n, .table .header (values vs))])], ?_,
    fun origin fill es last hole hfresh => ?_⟩
  · simp [documents, Item.document, documents_values]
  have hm : m ∉ es.map Prod.fst := fun hmem =>
    (List.nodup_append.mp hfresh).2.2 _ hmem _ List.mem_cons_self rfl
  have houter : Hole (path ++ [m]) .implied fun fs => fill (es ++ [(m, .table .implied fs)]) :=
    hole.table hm .implied
  have hinner : Hole (path ++ [m] ++ [n]) .header fun fs =>
      fill (es ++ [(m, .table .implied ([] ++ [(n, .table .header fs)]))]) :=
    houter.table (by simp) .header
  -- the header makes the outer table on its way, and the settings find both tables there
  have hheader : Draft.add? ⟨fill es, last⟩ (.header (path ++ [m] ++ [n])) =
      some ⟨fill (es ++ [(m, .table .implied [(n, .table .header [])])]), path ++ [m] ++ [n]⟩ := by
    rw [Draft.add?, open?, List.getLast?_append, List.dropLast_concat]
    dsimp only [List.getLast?_singleton, Option.some_or]
    rw [change?_append, hole, change?, Keyed.find_eq_none m es hm]
    simp [enter?, change?, Keyed.find, headed?, Keyed.put, Keyed.put_of_not_mem hm]
  have hassigns := foldlM_assigns_nil hinner hnodup
  refine ⟨path ++ [m] ++ [n], ?_⟩
  rw [List.foldlM_cons, hheader]
  exact hassigns

/-- The statements of the tables of an array. -/
def arrayTables (path : List String) (vss : List (List (String × Document))) : List Statement :=
  vss.flatMap fun vs => .arrayHeader path :: assigns vs

/-- An array of tables with more of them behind its last one. -/
def stack : Entries → List Entries → List (List (String × Document)) → Item
  | last, before, [] => .tables last before
  | last, before, vs :: vss => stack (values vs) (last :: before) vss

theorem document_stack (fs : Entries) (before : List Entries)
    (vss : List (List (String × Document))) :
    (stack fs before vss).document =
      .sequence ((tableDocuments before).reverse ++ .table (documents fs) :: vss.map .table) := by
  induction vss generalizing fs before with
  | nil => simp [stack, Item.document]
  | cons vs vss ih => simp [stack, ih, tableDocuments, documents_values]

theorem foldlM_arrayTables (hole : Hole path origin fill) (hn : n ∉ es.map Prod.fst)
    {vss : List (List (String × Document))} (hnodup : ∀ vs ∈ vss, (vs.map Prod.fst).Nodup)
    (fs : Entries) (before : List Entries) (last : List String) :
    ∃ next, (arrayTables (path ++ [n]) vss).foldlM Draft.add?
        ⟨fill (es ++ [(n, .tables fs before)]), last⟩ =
      some ⟨fill (es ++ [(n, stack fs before vss)]), next⟩ := by
  -- each header closes the table before it, so the induction carries the open table
  induction vss generalizing fs before last with
  | nil => exact ⟨last, rfl⟩
  | cons vs vss ih =>
    obtain ⟨hvs, hvss⟩ := List.forall_mem_cons.mp hnodup
    have hassigns := foldlM_assigns_nil (hole.tables hn (fs :: before)) hvs
    obtain ⟨next, hnext⟩ := ih hvss (values vs) (fs :: before) (path ++ [n])
    refine ⟨next, ?_⟩
    rw [arrayTables, List.flatMap_cons, List.cons_append, List.foldlM_cons,
      add?_nextArrayHeader hole hn]
    refine (List.foldlM_append ..).trans ?_
    rw [hassigns]
    exact hnext

/-- **The tables of an array** are added as a sequence. -/
theorem Adds.tables (n : String) (hvs : (vs.map Prod.fst).Nodup)
    {vss : List (List (String × Document))} (hvss : ∀ vs ∈ vss, (vs.map Prod.fst).Nodup) :
    Adds path (arrayTables (path ++ [n]) (vs :: vss))
      [(n, .sequence ((vs :: vss).map .table))] := by
  refine ⟨[(n, stack (values vs) [] vss)], ?_, fun origin fill es last hole hfresh => ?_⟩
  · simp [documents, document_stack, tableDocuments, documents_values]
  have hn : n ∉ es.map Prod.fst := fun hmem =>
    (List.nodup_append.mp hfresh).2.2 _ hmem _ List.mem_cons_self rfl
  have hassigns := foldlM_assigns_nil (hole.tables hn []) hvs
  obtain ⟨next, hnext⟩ := foldlM_arrayTables hole hn hvss (values vs) [] (path ++ [n])
  refine ⟨next, ?_⟩
  rw [arrayTables, List.flatMap_cons, List.cons_append, List.foldlM_cons, add?_arrayHeader hole hn]
  refine (List.foldlM_append ..).trans ?_
  rw [hassigns]
  exact hnext

/-- **The table that statements stand for**: settings, and the sections after them. -/
theorem documentOf_assigns (vs : List (String × Document)) (h : Adds [] ss new)
    (hnodup : (vs.map Prod.fst ++ new.map Prod.fst).Nodup) :
    documentOf (assigns vs ++ ss) = some (.table (vs ++ new)) := by
  obtain ⟨added, rfl, hadds⟩ := h
  have hassigns : (assigns vs).foldlM Draft.add? {} = some ⟨values vs, []⟩ :=
    foldlM_assigns_nil hole_root (List.nodup_append.mp hnodup).1
  have hkeys : ((values vs).map Prod.fst ++ (documents added).map Prod.fst).Nodup := by
    rwa [← keys_documents, documents_values]
  obtain ⟨next, hnext⟩ := hadds .header id (values vs) [] hole_root hkeys
  have hall : (assigns vs ++ ss).foldlM Draft.add? {} = some ⟨values vs ++ added, next⟩ := by
    rw [List.foldlM_append, hassigns]
    exact hnext
  rw [documentOf, hall, Option.map_some, documents_append, documents_values]

end Toml

end Floodgate
