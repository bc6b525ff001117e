import HugePageResearch.Library.Lists
import HugePageResearch.Polars.Frame
import HugePageResearch.Python.Dict
import HugePageResearch.Schema.ChunkFile

/-!
# Loading a collection

`CollectionData.from_data` of `data_schema/schema.py`. A data directory holds one directory for each
benchmark with one directory for each run, and in the older layout one directory for each table
with its files. The files of one run are sorted by `_chunk_sort_key`, grouped by the text before the
first dot, concatenated, given a `collection_id` and handed to the table type.

What a table type's `from_df` does is to accept the frame or to raise: for `SystemInfoTable` there
is the assertion on its length. Some of the others take the frame as it is, some cast it strictly to
their schema, which raises where a value does not fit, and the tables of the THP harness cast with
`strict=False`, which puts null there. The cast of a type is a parameter here: it raises, or makes
of each cell a value of the column's type. It keeps the rows and their order.
-/

namespace Schema

open Lists Polars

variable {τ : Type*}

/-! ### Table types -/

/-- `SystemInfoTable.name()`. -/
def systemInfoName : PyStr := "system_info".toList

/-- `collection_id_column()`. -/
def collectionIdColumn : PyStr := "collection_id".toList

/-- What the cast to a schema makes of cells. In every schema `collection_id` is a `pl.String`. -/
structure SchemaCast extends CellCast where
  /-- A text stays in a column of texts. -/
  text : ∀ s, cell collectionIdColumn (.str s) = .str s

/-- The cast of a type that takes frames as they are. -/
def SchemaCast.same : SchemaCast := ⟨⟨fun _ v ↦ v, fun _ ↦ rfl⟩, fun _ ↦ rfl⟩

/-- A subclass of `CollectionTable`. -/
inductive TableType (τ : Type*) where
  /-- `SystemInfoTable`. -/
  | systemInfo
  /-- A type with its name and its cast, which may refuse a frame. -/
  | other (name : PyStr) (hname : name ≠ systemInfoName)
      (cast : Frame τ → Except LoadError SchemaCast)

namespace TableType

/-- `name()`. -/
def name : TableType τ → PyStr
  | systemInfo => systemInfoName
  | other n _ _ => n

/-- What becomes of the cells of the frame in `from_df`. -/
def cast : TableType τ → Frame τ → Except LoadError SchemaCast
  | systemInfo, f => if f.rows.length = 1 then .ok .same else .error .assertionError
  | other _ _ cast, f => cast f

/-- `from_df`. -/
def fromDf (ty : TableType τ) (f : Frame τ) : Except LoadError (Frame τ) :=
  (ty.cast f).map fun k ↦ f.cast k.toCellCast

/-- The cast accepts the frame. -/
def Accepts : TableType τ → Frame τ → Prop
  | systemInfo, _ => True
  | other _ _ cast, f => ∃ k, cast f = .ok k

/-- The cast changes no cell of the frame: it is of the type's schema. -/
def Keeps (ty : TableType τ) (f : Frame τ) : Prop :=
  ∀ k, ty.cast f = .ok k → ∀ r ∈ f.rows, k.row r = r

/-- **`from_df` keeps the rows and their order**; the cells are those that the cast makes. -/
theorem fromDf_ok {ty : TableType τ} {f g : Frame τ} (h : ty.fromDf f = .ok g) :
    ∃ k, ty.cast f = .ok k ∧ g = f.cast k.toCellCast := by
  obtain ⟨k, hk, rfl⟩ := exists_of_map_eq_ok h
  exact ⟨k, hk, rfl⟩

theorem length_rows_fromDf {ty : TableType τ} {f g : Frame τ} (h : ty.fromDf f = .ok g) :
    g.rows.length = f.rows.length := by
  obtain ⟨k, -, rfl⟩ := fromDf_ok h
  exact List.length_map _

theorem fromDf_systemInfo {f g : Frame τ} (h : (systemInfo : TableType τ).fromDf f = .ok g) :
    f.rows.length = 1 := by
  obtain ⟨k, hk, -⟩ := fromDf_ok h
  rw [cast] at hk
  split_ifs at hk with hlen
  exact hlen

/-- **`from_df` returns** where the cast accepts and `system_info` is one row. -/
theorem exists_fromDf_iff {ty : TableType τ} {f : Frame τ} : (∃ g, ty.fromDf f = .ok g) ↔
    ty.Accepts f ∧ (ty.name = systemInfoName → f.rows.length = 1) := by
  cases ty with
  | systemInfo =>
    constructor
    · rintro ⟨g, h⟩
      exact ⟨trivial, fun _ ↦ fromDf_systemInfo h⟩
    · rintro ⟨-, hlen⟩
      have hcast : (systemInfo : TableType τ).cast f = .ok .same := if_pos (hlen rfl)
      exact ⟨_, by rw [fromDf, hcast]; rfl⟩
  | other n hn cast =>
    constructor
    · rintro ⟨g, h⟩
      obtain ⟨k, hk, -⟩ := fromDf_ok h
      exact ⟨⟨k, hk⟩, fun hname ↦ absurd hname hn⟩
    · rintro ⟨⟨k, hk⟩, -⟩
      have hcast : (other n hn cast).cast f = .ok k := hk
      exact ⟨_, by rw [fromDf, hcast]; rfl⟩

end TableType

/-- `_type_map`. -/
def typeMap (tableTypes : List (TableType τ)) : Dict PyStr (TableType τ) :=
  tableTypes.foldl (fun d ty ↦ d.set ty.name ty) .empty

/-! ### Collections -/

/-- `CollectionData`: tables by name, among them `system_info` with exactly one row. -/
structure CollectionData (τ : Type*) where
  /-- `tables`. -/
  tables : Dict PyStr (Frame τ)
  /-- `system_info`. -/
  systemInfo : Frame τ
  /-- It is the table of that name. -/
  get_systemInfo : tables.get? systemInfoName = some systemInfo
  /-- It has one row. -/
  length_systemInfo : systemInfo.rows.length = 1

/-- `", ".join(names)`. -/
def joinNames (names : List PyStr) : PyStr := (", ".toList).intercalate names

/-- `CollectionData(collection_tables)`. -/
def CollectionData.init (tables : Dict PyStr (Frame τ)) : Except LoadError (CollectionData τ) :=
  match hget : tables.get? systemInfoName with
  | none =>
    let loaded := joinNames (tables.keys.insertionSort (· ≤ ·))
    .error (.valueError (("missing required 'system_info' table while loading collection data " ++
      "(loaded tables: ").toList ++ (if loaded = [] then "<none>".toList else loaded) ++
        ")".toList))
  | some f =>
    if hlen : f.rows.length = 1 then .ok ⟨tables, f, hget, hlen⟩
    else .error (.valueError ("expected exactly one row in 'system_info' table, got ".toList ++
      PyStr.ofInt f.rows.length))

/-! ### Tables from frames -/

/-- `_ensure_collection_id`. -/
def ensureCollectionId (f : Frame τ) (resolvedId : PyStr) : Frame τ :=
  if collectionIdColumn ∈ f.columns then f else f.withLit collectionIdColumn (.str resolvedId)

/-- The body of the loops over the groups: concatenate, add the id, hand over to the type. -/
def loadTable (types : Dict PyStr (TableType τ)) (resolvedId name : PyStr) :
    List (Frame τ) → Except LoadError (Frame τ)
  | [] => .error (.valueError "cannot concat empty list".toList)
  | f :: fs =>
    match types.get? name with
    | none => .error (.keyError name)
    | some ty => ty.fromDf (ensureCollectionId (f.concat fs) resolvedId)

/-- `for table_name, parquet_files in grouped.items()`. -/
def loadTables (types : Dict PyStr (TableType τ)) (resolvedId : PyStr) :
    List (PyStr × List (Frame τ)) → Dict PyStr (Frame τ) →
      Except LoadError (Dict PyStr (Frame τ))
  | [], tables => .ok tables
  | g :: gs, tables =>
    (loadTable types resolvedId g.1 g.2).bind fun f ↦
      loadTables types resolvedId gs (tables.set g.1 f)

/-- The files of a run directory, with their content. -/
abbrev RunDir (τ : Type*) := Dict PyStr (Frame τ)

/-- `run_dir.glob("*.parquet")`. -/
def parquetFiles (run : RunDir τ) : List (PyStr × Frame τ) :=
  run.items.filter fun e ↦ PyStr.endswith e.1 ".parquet".toList

/-- `grouped[table_name].append(parquet_file)`, for the known tables. -/
def groupFiles (types : Dict PyStr (TableType τ)) (files : List (PyStr × Frame τ)) :
    Dict PyStr (List (Frame τ)) :=
  files.foldl (fun grouped e ↦
    if tableOf e.1 ∈ types.keys then
      grouped.set (tableOf e.1) ((grouped.get? (tableOf e.1)).getD [] ++ [e.2])
    else grouped) .empty

/-- A directory of the data directory: a benchmark with its runs, or a table with its files. -/
structure SubDir (τ : Type*) where
  /-- The directories in it. -/
  runDirs : Dict PyStr (RunDir τ)
  /-- The files in it. -/
  files : Dict PyStr (Frame τ)

/-- `data_dir`. -/
structure DataDir (τ : Type*) where
  /-- `str(data_dir)`. -/
  path : PyStr
  /-- Its directories, in the order of the listing. -/
  dirs : Dict PyStr (SubDir τ)

/-- `run_dirs`: benchmark, name and content of the runs whose name starts with the id. -/
def matchingRuns (dataDir : DataDir τ) (collectionId : PyStr) :
    List (PyStr × PyStr × RunDir τ) :=
  dataDir.dirs.items.flatMap fun b ↦
    (b.2.runDirs.items.filter fun r ↦ PyStr.startswith r.1 collectionId).map fun r ↦
      (b.1, r.1, r.2)

/-- The error for a prefix of several runs. -/
def ambiguousError (dataDir : DataDir τ) (collectionId : PyStr)
    (runs : List (PyStr × PyStr × RunDir τ)) : LoadError :=
  let sorted := (runs.map fun r ↦ [r.1, r.2.1]).insertionSort (· ≤ ·)
  .valueError ("collection id prefix '".toList ++ collectionId ++
    "' matched multiple runs: ".toList ++
      joinNames (sorted.map fun parts ↦ ("/".toList).intercalate (dataDir.path :: parts)))

/-- `x.suffix == ".parquet" and x.name.startswith(collection_id)`. -/
def isLegacyFile (collectionId name : PyStr) : Bool :=
  PyStr.endswith name ".parquet".toList && name ≠ ".parquet".toList &&
    PyStr.startswith name collectionId

/-- The files of one table in the older layout, sorted by name. -/
def legacyFiles (collectionId : PyStr) (d : SubDir τ) : List (PyStr × Frame τ) :=
  (d.files.items.filter fun e ↦ isLegacyFile collectionId e.1).insertionSort fun e e' ↦ e.1 ≤ e'.1

/-- The tables of the older layout that have a matching file. -/
def legacyGroups (types : Dict PyStr (TableType τ)) (dataDir : DataDir τ) (collectionId : PyStr) :
    List (PyStr × List (Frame τ)) :=
  ((dataDir.dirs.items.filter fun d ↦ d.1 ∈ types.keys).map fun d ↦
    (d.1, (legacyFiles collectionId d.2).map Prod.snd)).filter fun g ↦ g.2 ≠ []

section Load

variable [Python]

/-- `sorted(files, key=_chunk_sort_key)`: the keys first, then a stable sort. -/
def sortChunks (files : List (PyStr × Frame τ)) : Except LoadError (List (PyStr × Frame τ)) :=
  (files.mapM fun e ↦ (chunkSortKey e.1).map fun k ↦ (k, e)).bind fun keyed ↦
    -- between a number and a name there is no key, so the sort has to compare some two of them
    if keyed.any (fun e ↦ e.1.isNumber) && keyed.any (fun e ↦ e.1.isName) then .error .typeError
    else .ok ((keyed.insertionSort fun e e' ↦ e.1.le e'.1).map Prod.snd)

/-- `_load_run_dir`. -/
def loadRunDir (types : Dict PyStr (TableType τ)) (runName : PyStr) (run : RunDir τ) :
    Except LoadError (Dict PyStr (Frame τ)) :=
  (sortChunks (parquetFiles run)).bind fun files ↦
    loadTables types runName (groupFiles types files).items .empty

/-- `CollectionData.from_data`. -/
def fromData (dataDir : DataDir τ) (collectionId : PyStr) (tableTypes : List (TableType τ)) :
    Except LoadError (CollectionData τ) :=
  let types := typeMap tableTypes
  match matchingRuns dataDir collectionId with
  | [] =>
    (loadTables types collectionId (legacyGroups types dataDir collectionId) .empty).bind
      CollectionData.init
  | [(_, runName, run)] => (loadRunDir types runName run).bind CollectionData.init
  | runs => .error (ambiguousError dataDir collectionId runs)

end Load

/-! ### The type map -/

/-- The map holds exactly the given types, each under its name. -/
theorem typeMap_cases (tys : List (TableType τ)) (d : Dict PyStr (TableType τ)) (n : PyStr) :
    ((tys.foldl (fun d ty ↦ d.set ty.name ty) d).get? n = d.get? n ∧ ∀ ty ∈ tys, ty.name ≠ n) ∨
      ∃ ty ∈ tys, ty.name = n ∧ (tys.foldl (fun d ty ↦ d.set ty.name ty) d).get? n = some ty := by
  induction tys generalizing d with
  | nil => exact Or.inl ⟨rfl, fun _ h ↦ absurd h List.not_mem_nil⟩
  | cons ty tys ih =>
    rw [List.foldl_cons]
    rcases ih (d.set ty.name ty) with ⟨hget, hne⟩ | ⟨ty', hmem, hname, hget⟩
    · rw [Dict.get?_set] at hget
      by_cases hn : ty.name = n
      · rw [if_pos hn] at hget
        exact Or.inr ⟨ty, List.mem_cons_self, hn, hget⟩
      · rw [if_neg hn] at hget
        exact Or.inl ⟨hget, List.forall_mem_cons.2 ⟨hn, hne⟩⟩
    · exact Or.inr ⟨ty', List.mem_cons_of_mem _ hmem, hname, hget⟩

theorem typeMap_get?_some {tys : List (TableType τ)} {n : PyStr} {ty : TableType τ}
    (h : (typeMap tys).get? n = some ty) : ty ∈ tys ∧ ty.name = n := by
  rcases typeMap_cases tys .empty n with ⟨hget, -⟩ | ⟨ty', hmem, hname, hget⟩
  · rw [typeMap, hget] at h
    cases h
  · rw [typeMap, hget] at h
    obtain rfl := Option.some.inj h
    exact ⟨hmem, hname⟩

theorem typeMap_get? {tys : List (TableType τ)} {n : PyStr} (h : n ∈ tys.map TableType.name) :
    ∃ ty ∈ tys, ty.name = n ∧ (typeMap tys).get? n = some ty := by
  rcases typeMap_cases tys .empty n with ⟨-, hne⟩ | hty
  · obtain ⟨ty, hmem, hname⟩ := List.mem_map.1 h
    exact absurd hname (hne ty hmem)
  · exact hty

/-- **The known tables** are those of the given types. -/
theorem mem_keys_typeMap {tys : List (TableType τ)} {n : PyStr} :
    n ∈ (typeMap tys).keys ↔ n ∈ tys.map TableType.name := by
  constructor
  · intro h
    obtain ⟨e, he, rfl⟩ := List.mem_map.1 h
    obtain ⟨hmem, hname⟩ := typeMap_get?_some (Dict.get?_eq_some.2 he)
    exact List.mem_map.2 ⟨e.2, hmem, hname⟩
  · intro h
    obtain ⟨ty, -, -, hget⟩ := typeMap_get? h
    by_contra hkey
    rw [Dict.get?_eq_none hkey] at hget
    cases hget

/-! ### Groups -/

/-- **Grouping keeps the order of the files within each table**, and drops unknown tables. -/
theorem groupFiles_get? (types : Dict PyStr (TableType τ)) (files : List (PyStr × Frame τ))
    (n : PyStr) : (groupFiles types files).get? n =
      if n ∈ types.keys ∧ (files.filter fun e ↦ tableOf e.1 = n) ≠ [] then
        some ((files.filter fun e ↦ tableOf e.1 = n).map Prod.snd) else none := by
  have key : ∀ grouped : Dict PyStr (List (Frame τ)),
      (files.foldl (fun grouped e ↦
        if tableOf e.1 ∈ types.keys then
          grouped.set (tableOf e.1) ((grouped.get? (tableOf e.1)).getD [] ++ [e.2])
        else grouped) grouped).get? n =
      if n ∈ types.keys ∧ (files.filter fun e ↦ tableOf e.1 = n) ≠ [] then
        some ((grouped.get? n).getD [] ++ (files.filter fun e ↦ tableOf e.1 = n).map Prod.snd)
      else grouped.get? n := by
    induction files with
    | nil => exact fun grouped ↦ (if_neg fun h ↦ h.2 rfl).symm
    | cons e files ih =>
      intro grouped
      rw [List.foldl_cons, ih]
      by_cases hn : tableOf e.1 = n
      · rw [List.filter_cons_of_pos (by rw [hn]; exact decide_eq_true rfl)]
        by_cases hk : n ∈ types.keys
        · have hcons : n ∈ types.keys ∧ (e :: files.filter fun e ↦ tableOf e.1 = n) ≠ [] :=
            ⟨hk, List.cons_ne_nil _ _⟩
          rw [if_pos (show tableOf e.1 ∈ types.keys from hn ▸ hk), Dict.get?_set, hn, if_pos rfl,
            if_pos hcons, List.map_cons]
          by_cases hfiles : (files.filter fun e ↦ tableOf e.1 = n) = []
          · rw [if_neg fun h ↦ h.2 hfiles, hfiles]
            rfl
          · rw [if_pos ⟨hk, hfiles⟩, Option.getD_some, List.append_assoc]
            rfl
        · rw [if_neg (show tableOf e.1 ∉ types.keys from fun h ↦ hk (hn ▸ h)),
            if_neg fun h ↦ hk h.1, if_neg fun h ↦ hk h.1]
      · rw [List.filter_cons_of_neg (by simpa using hn)]
        have hget : (if tableOf e.1 ∈ types.keys then
            grouped.set (tableOf e.1) ((grouped.get? (tableOf e.1)).getD [] ++ [e.2])
            else grouped).get? n = grouped.get? n := by
          split_ifs
          · rw [Dict.get?_set, if_neg hn]
          · rfl
        rw [hget]
  rw [groupFiles, key, Dict.get?_empty]
  rfl

/-! ### Loading the groups -/

/-- **What loading the groups yields**: one table for each group, in place of any before. -/
theorem loadTables_ok {types : Dict PyStr (TableType τ)} {rid : PyStr}
    {groups : List (PyStr × List (Frame τ))} {d d' : Dict PyStr (Frame τ)}
    (hnd : (groups.map Prod.fst).Nodup) (h : loadTables types rid groups d = .ok d') :
    (∀ g ∈ groups, ∃ f, loadTable types rid g.1 g.2 = .ok f ∧ d'.get? g.1 = some f) ∧
      ∀ n ∉ groups.map Prod.fst, d'.get? n = d.get? n := by
  induction groups generalizing d with
  | nil =>
    obtain rfl := Except.ok.inj h
    exact ⟨fun _ hg ↦ absurd hg List.not_mem_nil, fun _ _ ↦ rfl⟩
  | cons g gs ih =>
    rw [List.map_cons, List.nodup_cons] at hnd
    obtain ⟨f, hg, h⟩ := exists_of_bind_eq_ok h
    obtain ⟨hin, hout⟩ := ih hnd.2 h
    refine ⟨List.forall_mem_cons.2 ⟨⟨f, hg, ?_⟩, hin⟩, fun n hn ↦ ?_⟩
    · rw [hout g.1 hnd.1, Dict.get?_set, if_pos rfl]
    · rw [List.map_cons, List.mem_cons, not_or] at hn
      rw [hout n hn.2, Dict.get?_set, if_neg (Ne.symm hn.1)]

theorem exists_loadTables {types : Dict PyStr (TableType τ)} {rid : PyStr}
    {groups : List (PyStr × List (Frame τ))}
    (h : ∀ g ∈ groups, ∃ f, loadTable types rid g.1 g.2 = .ok f) (d : Dict PyStr (Frame τ)) :
    ∃ d', loadTables types rid groups d = .ok d' := by
  induction groups generalizing d with
  | nil => exact ⟨d, rfl⟩
  | cons g gs ih =>
    obtain ⟨⟨f, hg⟩, hgs⟩ := List.forall_mem_cons.1 h
    obtain ⟨d', hd'⟩ := ih hgs (d.set g.1 f)
    exact ⟨d', by rw [loadTables, hg]; exact hd'⟩

/-- The rows of frames in order, with the id where no frame has one. -/
def rowsWithId (rid : PyStr) (fs : List (Frame τ)) : List (Row τ) :=
  if ∃ g ∈ fs, collectionIdColumn ∈ g.columns then fs.flatMap Frame.rows
  else (fs.flatMap Frame.rows).map (Frame.setCell collectionIdColumn (.str rid))

theorem length_rowsWithId (rid : PyStr) (fs : List (Frame τ)) :
    (rowsWithId rid fs).length = (fs.flatMap Frame.rows).length := by
  rw [rowsWithId]
  split_ifs
  · rfl
  · exact List.length_map _

/-- The frame that is handed over to the type. -/
theorem ensureCollectionId_concat (rid : PyStr) (g : Frame τ) (gs : List (Frame τ)) :
    (ensureCollectionId (g.concat gs) rid).rows = rowsWithId rid (g :: gs) ∧
      ∀ c, c ∈ (ensureCollectionId (g.concat gs) rid).columns ↔
        c = collectionIdColumn ∨ ∃ g' ∈ g :: gs, c ∈ g'.columns := by
  have hrows : (g.concat gs).rows = (g :: gs).flatMap Frame.rows := by
    rw [Frame.rows_concat, List.flatMap_cons]
  by_cases hc : collectionIdColumn ∈ (g.concat gs).columns
  · rw [ensureCollectionId, if_pos hc, rowsWithId, if_pos (Frame.mem_columns_concat.1 hc)]
    refine ⟨hrows, fun c ↦ ⟨fun h ↦ Or.inr (Frame.mem_columns_concat.1 h), ?_⟩⟩
    rintro (rfl | h)
    · exact hc
    · exact Frame.mem_columns_concat.2 h
  · rw [ensureCollectionId, if_neg hc, rowsWithId,
      if_neg fun h ↦ hc (Frame.mem_columns_concat.2 h)]
    refine ⟨by rw [← hrows]; rfl, fun c ↦ ?_⟩
    show c ∈ (if collectionIdColumn ∈ (g.concat gs).columns then _ else _) ↔ _
    rw [if_neg hc, List.mem_append, List.mem_singleton, Frame.mem_columns_concat, or_comm]

/-- **What one table holds**: the rows of its frames in order, with the id where no frame has one,
as the cast of its type makes them. -/
theorem loadTable_ok {types : Dict PyStr (TableType τ)} {rid n : PyStr} {fs : List (Frame τ)}
    {f : Frame τ} (h : loadTable types rid n fs = .ok f) : fs ≠ [] ∧
      ∃ ty k, types.get? n = some ty ∧
        (∀ g gs, fs = g :: gs → ty.cast (ensureCollectionId (g.concat gs) rid) = .ok k) ∧
        f.rows = (rowsWithId rid fs).map k.row ∧
        ∀ c, c ∈ f.columns ↔ c = collectionIdColumn ∨ ∃ g ∈ fs, c ∈ g.columns := by
  cases fs with
  | nil => cases h
  | cons g gs =>
    refine ⟨List.cons_ne_nil g gs, ?_⟩
    rcases hty : types.get? n with - | ty
    · rw [loadTable, hty] at h
      cases h
    rw [loadTable, hty] at h
    obtain ⟨k, hk, rfl⟩ := TableType.fromDf_ok h
    obtain ⟨hrows, hcolumns⟩ := ensureCollectionId_concat rid g gs
    refine ⟨ty, k, rfl, fun g' gs' heq ↦ ?_, congrArg (List.map k.row) hrows, hcolumns⟩
    obtain ⟨rfl, rfl⟩ := List.cons.inj heq
    exact hk

/-- No row is lost. -/
theorem length_rows_loadTable {types : Dict PyStr (TableType τ)} {rid n : PyStr}
    {fs : List (Frame τ)} {f : Frame τ} (h : loadTable types rid n fs = .ok f) :
    f.rows.length = (fs.flatMap Frame.rows).length := by
  obtain ⟨-, ty, k, -, -, hrows, -⟩ := loadTable_ok h
  rw [hrows, List.length_map, length_rowsWithId]

/-- A loaded `system_info` table has one row. -/
theorem length_systemInfo_of_loadTable {tys : List (TableType τ)} {rid : PyStr}
    {fs : List (Frame τ)} {f : Frame τ}
    (h : loadTable (typeMap tys) rid systemInfoName fs = .ok f) : f.rows.length = 1 := by
  cases fs with
  | nil => cases h
  | cons g gs =>
    rcases hty : (typeMap tys).get? systemInfoName with - | ty
    · rw [loadTable, hty] at h
      cases h
    rw [loadTable, hty] at h
    obtain ⟨-, hname⟩ := typeMap_get?_some hty
    cases ty with
    | systemInfo => exact (TableType.length_rows_fromDf h).trans (TableType.fromDf_systemInfo h)
    | other n hn cast => exact absurd hname hn

/-- The number of rows does not depend on the id. -/
theorem length_rows_ensureCollectionId (f : Frame τ) (rid : PyStr) :
    (ensureCollectionId f rid).rows.length = f.rows.length := by
  rw [ensureCollectionId]
  split_ifs
  · rfl
  · exact List.length_map _

/-- **A group of a known table loads** where the cast accepts it and `system_info` is one row. -/
theorem exists_loadTable_iff {tys : List (TableType τ)} {rid n : PyStr} {ty : TableType τ}
    (hget : (typeMap tys).get? n = some ty) (g : Frame τ) (gs : List (Frame τ)) :
    (∃ f, loadTable (typeMap tys) rid n (g :: gs) = .ok f) ↔
      ty.Accepts (ensureCollectionId (g.concat gs) rid) ∧
        (n = systemInfoName → ((g :: gs).flatMap Frame.rows).length = 1) := by
  rw [loadTable, hget, ← (typeMap_get?_some hget).2, List.flatMap_cons, ← Frame.rows_concat,
    ← length_rows_ensureCollectionId _ rid]
  exact TableType.exists_fromDf_iff

/-! ### The collection -/

theorem init_ok {tables : Dict PyStr (Frame τ)} {data : CollectionData τ}
    (h : CollectionData.init tables = .ok data) : data.tables = tables := by
  rw [CollectionData.init] at h
  split at h
  · cases h
  · split_ifs at h
    obtain rfl := Except.ok.inj h
    rfl

/-- The tables that a collection was built from are its tables. -/
theorem bind_init_ok {x : Except LoadError (Dict PyStr (Frame τ))} {data : CollectionData τ}
    (h : x.bind CollectionData.init = .ok data) : x = .ok data.tables := by
  obtain ⟨tables, hx, hinit⟩ := exists_of_bind_eq_ok h
  rw [hx, init_ok hinit]

/-- **A collection is built exactly from tables with one row of `system_info`.** -/
theorem exists_init_iff {tables : Dict PyStr (Frame τ)} :
    (∃ data, CollectionData.init tables = .ok data) ↔
      ∃ f, tables.get? systemInfoName = some f ∧ f.rows.length = 1 := by
  constructor
  · rintro ⟨data, h⟩
    obtain rfl := init_ok h
    exact ⟨data.systemInfo, data.get_systemInfo, data.length_systemInfo⟩
  · rintro ⟨f, hget, hlen⟩
    rw [CollectionData.init]
    split
    · rename_i h
      rw [h] at hget
      cases hget
    · rename_i g h
      obtain rfl := Option.some.inj (h.symm.trans hget)
      exact ⟨_, dif_pos hlen⟩

/-! ### Sorting the files -/

section Sorting

variable [Python]

/-- The keys that `sorted` computes are those of the names. -/
theorem mapM_key_ok {files : List (PyStr × Frame τ)} {keyed : List (ChunkKey × PyStr × Frame τ)}
    (h : (files.mapM fun e ↦ (chunkSortKey e.1).map fun k ↦ (k, e)) = .ok keyed) :
    keyed.map Prod.snd = files ∧ ∀ e ∈ keyed, chunkSortKey e.2.1 = .ok e.1 := by
  induction files generalizing keyed with
  | nil =>
    obtain rfl := Except.ok.inj h
    exact ⟨rfl, fun _ he ↦ absurd he List.not_mem_nil⟩
  | cons e files ih =>
    rw [List.mapM_cons] at h
    rcases hkey : chunkSortKey e.1 with err | k
    · rw [hkey] at h
      cases h
    rcases hrest : (files.mapM fun e ↦ (chunkSortKey e.1).map fun k ↦ (k, e)) with err | ks
    · rw [hkey, hrest] at h
      cases h
    · rw [hkey, hrest] at h
      obtain rfl := Except.ok.inj h
      obtain ⟨hmap, hkeys⟩ := ih hrest
      exact ⟨by rw [List.map_cons, hmap], List.forall_mem_cons.2 ⟨hkey, hkeys⟩⟩

/-- A sort by keys rearranges the files, and names with keys come in the order of their keys. -/
theorem sortChunks_ok {files out : List (PyStr × Frame τ)} (h : sortChunks files = .ok out) :
    out.Perm files ∧ out.Pairwise fun e e' ↦ ∀ k k', chunkSortKey e.1 = .ok k →
      chunkSortKey e'.1 = .ok k' → k.le k' := by
  obtain ⟨keyed, hkeyed, h⟩ := exists_of_bind_eq_ok h
  split_ifs at h
  obtain rfl := Except.ok.inj h
  obtain ⟨hmap, hkeys⟩ := mapM_key_ok hkeyed
  have htotal : Std.Total fun e e' : ChunkKey × PyStr × Frame τ ↦ e.1.le e'.1 :=
    ⟨fun e e' ↦ Std.Total.total e.1 e'.1⟩
  have htrans : IsTrans _ fun e e' : ChunkKey × PyStr × Frame τ ↦ e.1.le e'.1 :=
    ⟨fun _ _ _ h h' ↦ IsTrans.trans _ _ _ h h'⟩
  have hperm := List.perm_insertionSort (fun e e' : ChunkKey × PyStr × Frame τ ↦ e.1.le e'.1) keyed
  refine ⟨hmap ▸ hperm.map Prod.snd, ?_⟩
  rw [List.pairwise_map]
  refine (List.pairwise_insertionSort _ keyed).imp_of_mem fun he he' hle k k' hk hk' ↦ ?_
  rw [hkeys _ (hperm.mem_iff.1 he)] at hk
  rw [hkeys _ (hperm.mem_iff.1 he')] at hk'
  obtain rfl := Except.ok.inj hk
  obtain rfl := Except.ok.inj hk'
  exact hle

/-- Files that are all chunks can be sorted. -/
theorem exists_sortChunks {files : List (PyStr × Frame τ)}
    (h : ∀ e ∈ files, ∃ c : Chunk, chunkSortKey e.1 = .ok c.key) :
    ∃ out, sortChunks files = .ok out := by
  have hkeyed : ∃ keyed : List (ChunkKey × PyStr × Frame τ),
      (files.mapM fun e ↦ (chunkSortKey e.1).map fun k ↦ (k, e)) = .ok keyed ∧
        ∀ e ∈ keyed, e.1.isName = false := by
    induction files with
    | nil => exact ⟨[], rfl, fun _ he ↦ absurd he List.not_mem_nil⟩
    | cons e files ih =>
      obtain ⟨⟨c, hc⟩, hfiles⟩ := List.forall_mem_cons.1 h
      obtain ⟨keyed, hkeyed, hname⟩ := ih hfiles
      refine ⟨(c.key, e) :: keyed, ?_, List.forall_mem_cons.2 ⟨?_, hname⟩⟩
      · rw [List.mapM_cons, hc, hkeyed]
        rfl
      · cases c with
        | number d hne hd => rfl
        | last => rfl
  obtain ⟨keyed, hkeyed, hname⟩ := hkeyed
  have hany : keyed.any (fun e ↦ e.1.isName) = false := by
    rw [List.any_eq_false]
    exact fun e he ↦ by rw [hname e he]; exact Bool.false_ne_true
  refine ⟨(keyed.insertionSort fun e e' ↦ e.1.le e'.1).map Prod.snd, ?_⟩
  rw [sortChunks, hkeyed]
  show (if keyed.any (fun e ↦ e.1.isNumber) && keyed.any (fun e ↦ e.1.isName) then
    Except.error LoadError.typeError else _) = _
  rw [hany, Bool.and_false, if_neg Bool.false_ne_true]

end Sorting

end Schema
