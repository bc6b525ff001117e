import HugePageResearch.Schema.FromData

/-!
# Runs in the current layout

A data directory in which one run matches the id, and every parquet file of that run is a chunk of
some table. `fromData_of_run` says what `from_data` returns there, table by table, and when it
returns at all: the constructor of `CollectionData` insists on one row of `system_info`.

The specification does not mention the sort or the groups of the code: a table's chunks are those
files whose name is the table's with a chunk, listed without repetition, in the order of the chunks.
-/

namespace Schema

open Polars

variable {τ : Type*}

/-- Every parquet file of a run directory is a chunk of a table; a table's name has no dot. -/
def ChunkNamed (run : RunDir τ) : Prop :=
  ∀ e ∈ run.items, PyStr.endswith e.1 ".parquet".toList = true →
    ∃ (t : PyStr) (c : Chunk), '.' ∉ t ∧ e.1 = chunkFile t c.text

/-- The chunks of table `n`, each once, in increasing order with `end` last. -/
structure IsListing (run : RunDir τ) (n : PyStr) (ordered : List (PyStr × Frame τ)) : Prop where
  nodup : (ordered.map Prod.fst).Nodup
  mem_iff : ∀ e, e ∈ ordered ↔ e ∈ run.items ∧ ∃ c : Chunk, e.1 = chunkFile n c.text
  sorted : ordered.Pairwise fun e e' ↦ ∀ c c' : Chunk,
    e.1 = chunkFile n c.text → e'.1 = chunkFile n c'.text → c.le c'

/-- The loaded table of a type is the concatenation of its chunks in order: its rows are theirs, as
the cast of the type makes their cells, its columns are theirs and `collection_id`, and where no
chunk has that column it is the name of the run. Without a chunk there is no table. -/
def LoadsChunks (ty : TableType τ) (run : RunDir τ) (runName : PyStr) (loaded : Option (Frame τ)) :
    Prop :=
  ∃ ordered, IsListing run ty.name ordered ∧
    ((ordered = [] ∧ loaded = none) ∨ (ordered ≠ [] ∧ ∃ f k, loaded = some f ∧
      (∀ e rest, ordered = e :: rest →
        ty.cast (ensureCollectionId (e.2.concat (rest.map Prod.snd)) runName) = .ok k) ∧
      f.rows = (rowsWithId runName (ordered.map Prod.snd)).map k.row ∧
      (∀ c, c ∈ f.columns ↔ c = collectionIdColumn ∨ ∃ e ∈ ordered, c ∈ e.2.columns) ∧
      ((∀ e ∈ ordered, collectionIdColumn ∉ e.2.columns) →
        ∀ r ∈ f.rows, r.cells collectionIdColumn = .str runName)))

/-- Every known table is loaded from its chunks, and nothing else is. -/
structure LoadsRun (tys : List (TableType τ)) (run : RunDir τ) (runName : PyStr)
    (tables : Dict PyStr (Frame τ)) : Prop where
  known : ∀ n ∈ tys.map TableType.name,
    ∃ ty ∈ tys, ty.name = n ∧ LoadsChunks ty run runName (tables.get? n)
  unknown : ∀ n ∉ tys.map TableType.name, tables.get? n = none

/-- The casts accept the chunks of the run, table by table. -/
def CastsAccept (tys : List (TableType τ)) (runName : PyStr) (run : RunDir τ) : Prop :=
  ∀ ty ∈ tys, ∀ e rest, IsListing run ty.name (e :: rest) →
    ty.Accepts (ensureCollectionId (e.2.concat (rest.map Prod.snd)) runName)

/-- The chunks of the run have the schemas of their tables already: the casts change no cell. -/
def CastsKeep (tys : List (TableType τ)) (runName : PyStr) (run : RunDir τ) : Prop :=
  ∀ ty ∈ tys, ∀ e rest, IsListing run ty.name (e :: rest) →
    ty.Keeps (ensureCollectionId (e.2.concat (rest.map Prod.snd)) runName)

/-- `system_info` is a known table, and its chunks have one row in all. -/
def HasSystemInfo (tys : List (TableType τ)) (run : RunDir τ) : Prop :=
  systemInfoName ∈ tys.map TableType.name ∧ ∃ ordered, IsListing run systemInfoName ordered ∧
    (ordered.flatMap fun e ↦ e.2.rows).length = 1

variable {run : RunDir τ} {runName n : PyStr} {tys : List (TableType τ)}

section Loading

variable [Python]

omit [Python] in
theorem mem_parquetFiles {e : PyStr × Frame τ} : e ∈ parquetFiles run ↔
    e ∈ run.items ∧ PyStr.endswith e.1 ".parquet".toList = true :=
  List.mem_filter

/-- The files of a run of chunks can be sorted. -/
theorem ChunkNamed.exists_sortChunks (hrun : ChunkNamed run) :
    ∃ files, sortChunks (parquetFiles run) = .ok files := by
  refine Schema.exists_sortChunks fun e he ↦ ?_
  obtain ⟨hmem, hsuffix⟩ := mem_parquetFiles.1 he
  obtain ⟨t, c, ht, hname⟩ := hrun e hmem hsuffix
  exact ⟨c, by rw [hname, chunkSortKey_chunkFile ht]⟩

/-- **The group of a table lists its chunks.** -/
theorem ChunkNamed.isListing (hrun : ChunkNamed run) {files : List (PyStr × Frame τ)}
    (hsort : sortChunks (parquetFiles run) = .ok files) (n : PyStr) :
    IsListing run n (files.filter fun e ↦ tableOf e.1 = n) := by
  obtain ⟨hperm, hsorted⟩ := sortChunks_ok hsort
  -- a file of the group carries the table's name
  have hname : ∀ e ∈ run.items, PyStr.endswith e.1 ".parquet".toList = true →
      (tableOf e.1 = n ↔ ∃ c : Chunk, e.1 = chunkFile n c.text) ∧
        ∀ c : Chunk, e.1 = chunkFile n c.text → chunkSortKey e.1 = .ok c.key := by
    intro e he hsuffix
    obtain ⟨t, c, ht, hname⟩ := hrun e he hsuffix
    have htable : tableOf e.1 = t := by rw [hname, tableOf_chunkFile ht]
    refine ⟨?_, fun c' hc' ↦ ?_⟩
    · rw [htable]
      constructor
      · rintro rfl
        exact ⟨c, hname⟩
      · rintro ⟨c', hc'⟩
        exact (chunkFile_text_inj (hname.symm.trans hc')).1
    · obtain ⟨rfl, -⟩ := chunkFile_text_inj (hname.symm.trans hc')
      rw [hc', chunkSortKey_chunkFile ht]
  have hmem : ∀ e, e ∈ files ↔ e ∈ run.items ∧ PyStr.endswith e.1 ".parquet".toList = true :=
    fun e ↦ hperm.mem_iff.trans mem_parquetFiles
  refine ⟨?_, fun e ↦ ?_, ?_⟩
  · have hnd : (files.map Prod.fst).Nodup :=
      ((hperm.map Prod.fst).nodup_iff).2 (run.nodupKeys.sublist (List.filter_sublist.map Prod.fst))
    exact hnd.sublist (List.filter_sublist.map Prod.fst)
  · rw [List.mem_filter, decide_eq_true_iff, hmem]
    constructor
    · rintro ⟨⟨he, hsuffix⟩, htable⟩
      exact ⟨he, (hname e he hsuffix).1.1 htable⟩
    · rintro ⟨he, c, hc⟩
      have hsuffix : PyStr.endswith e.1 ".parquet".toList = true := by
        rw [hc]
        exact endswith_chunkFile n c.text
      exact ⟨⟨he, hsuffix⟩, (hname e he hsuffix).1.2 ⟨c, hc⟩⟩
  · refine (hsorted.filter _).imp_of_mem fun he he' hle c c' hc hc' ↦ ?_
    obtain ⟨hmem₁, hsuffix⟩ := (hmem _).1 (List.mem_of_mem_filter he)
    obtain ⟨hmem₂, hsuffix'⟩ := (hmem _).1 (List.mem_of_mem_filter he')
    exact Chunk.key_le_iff.1 (hle _ _ ((hname _ hmem₁ hsuffix).2 c hc)
      ((hname _ hmem₂ hsuffix').2 c' hc'))

omit [Python] in
/-- Where no chunk has a column `collection_id`, the name of the run directory is put into one, and
the cast leaves it there. -/
theorem collectionId_of_cast {fs : List (Frame τ)} {k : SchemaCast}
    (hno : ∀ g ∈ fs, collectionIdColumn ∉ g.columns) {r : Row τ}
    (hr : r ∈ (rowsWithId runName fs).map k.row) :
    r.cells collectionIdColumn = .str runName := by
  have hnone : ¬ ∃ g ∈ fs, collectionIdColumn ∈ g.columns := by
    rintro ⟨g, hg, hc⟩
    exact hno g hg hc
  rw [rowsWithId, if_neg hnone, List.map_map] at hr
  obtain ⟨r', -, rfl⟩ := List.mem_map.1 hr
  show k.cell collectionIdColumn
    (Function.update r'.cells collectionIdColumn (.str runName) collectionIdColumn) = _
  rw [Function.update_self, k.text]

/-- **The tables of a run directory**, one by one. -/
theorem loadRunDir_ok (hrun : ChunkNamed run) {tables : Dict PyStr (Frame τ)}
    (h : loadRunDir (typeMap tys) runName run = .ok tables) : LoadsRun tys run runName tables := by
  obtain ⟨files, hsort⟩ := hrun.exists_sortChunks
  rw [loadRunDir, hsort] at h
  obtain ⟨hin, hout⟩ := loadTables_ok (groupFiles (typeMap tys) files).nodupKeys h
  have hnone : ∀ n, (groupFiles (typeMap tys) files).get? n = none → tables.get? n = none := by
    intro n hn
    refine hout n fun hkey ↦ ?_
    obtain ⟨e, he, rfl⟩ := List.mem_map.1 hkey
    rw [Dict.get?_eq_some.2 he] at hn
    cases hn
  constructor
  · intro n hn
    obtain ⟨ty, hty, rfl, htype⟩ := typeMap_get? hn
    refine ⟨ty, hty, rfl, _, hrun.isListing hsort ty.name, ?_⟩
    have hget := groupFiles_get? (typeMap tys) files ty.name
    by_cases hfiles : (files.filter fun e ↦ tableOf e.1 = ty.name) = []
    · rw [if_neg fun h ↦ h.2 hfiles] at hget
      exact Or.inl ⟨hfiles, hnone ty.name hget⟩
    · rw [if_pos ⟨mem_keys_typeMap.2 hn, hfiles⟩] at hget
      obtain ⟨f, hload, htable⟩ := hin _ (Dict.get?_eq_some.1 hget)
      obtain ⟨-, ty', k, htype', hcast, hrows, hcolumns⟩ := loadTable_ok hload
      obtain rfl := Option.some.inj (htype.symm.trans htype')
      refine Or.inr ⟨hfiles, f, k, htable, fun e rest heq ↦ hcast e.2 (rest.map Prod.snd) ?_, hrows,
        fun c ↦ ?_, fun hno r hr ↦ collectionId_of_cast (fun g hg ↦ ?_) (hrows ▸ hr)⟩
      · rw [heq, List.map_cons]
      · rw [hcolumns]
        simp only [List.mem_map, exists_exists_and_eq_and]
      · obtain ⟨e, he, rfl⟩ := List.mem_map.1 hg
        exact hno e he
  · intro n hn
    refine hnone n ?_
    rw [groupFiles_get?, if_neg fun h ↦ hn (mem_keys_typeMap.1 h.1)]

omit [Python] in
/-- Two listings of the same chunks have the same rows, up to order. -/
theorem IsListing.perm {l l' : List (PyStr × Frame τ)} (h : IsListing run n l)
    (h' : IsListing run n l') : l.Perm l' :=
  (List.perm_ext_iff_of_nodup h.nodup.of_map h'.nodup.of_map).2 fun e ↦
    (h.mem_iff e).trans (h'.mem_iff e).symm

omit [Python] in
theorem IsListing.length_rows_eq {l l' : List (PyStr × Frame τ)} (h : IsListing run n l)
    (h' : IsListing run n l') :
    (l.flatMap fun e ↦ e.2.rows).length = (l'.flatMap fun e ↦ e.2.rows).length :=
  ((h.perm h').flatMap_right _).length_eq

/-- **Every table is loaded** where there is one row of system information. -/
theorem exists_loadRunDir_ok (hrun : ChunkNamed run) (htys : CastsAccept tys runName run)
    (hinfo : HasSystemInfo tys run) :
    ∃ tables, loadRunDir (typeMap tys) runName run = .ok tables := by
  obtain ⟨-, ordered, hlist, hlen⟩ := hinfo
  obtain ⟨files, hsort⟩ := hrun.exists_sortChunks
  have hload : ∀ g ∈ (groupFiles (typeMap tys) files).items,
      ∃ f, loadTable (typeMap tys) runName g.1 g.2 = .ok f := by
    intro g hg
    have hget := Dict.get?_eq_some.2 hg
    rw [groupFiles_get?] at hget
    split_ifs at hget with hcond
    obtain hfs := Option.some.inj hget
    rcases hfiles : files.filter fun e ↦ tableOf e.1 = g.1 with - | ⟨e, rest⟩
    · exact absurd hfiles hcond.2
    rw [← hfs, hfiles, List.map_cons]
    obtain ⟨ty, hty, hname, hget⟩ := typeMap_get? (mem_keys_typeMap.1 hcond.1)
    refine (exists_loadTable_iff hget _ _).2 ⟨htys ty hty e rest ?_, fun hname ↦ ?_⟩
    · rw [hname, ← hfiles]
      exact hrun.isListing hsort g.1
    · rw [← List.map_cons (f := Prod.snd), ← hfiles, hname, List.flatMap_map]
      exact ((hrun.isListing hsort systemInfoName).length_rows_eq hlist).trans hlen
  obtain ⟨tables, htables⟩ := exists_loadTables hload .empty
  refine ⟨tables, ?_⟩
  rw [loadRunDir, hsort]
  exact htables

/-- **When the tables of a run directory make a collection.** -/
theorem exists_loadRunDir_iff (hrun : ChunkNamed run) (htys : CastsAccept tys runName run) :
    (∃ data, (loadRunDir (typeMap tys) runName run).bind CollectionData.init = .ok data) ↔
      HasSystemInfo tys run := by
  constructor
  · rintro ⟨data, hdata⟩
    have hget := data.get_systemInfo
    have hlen := data.length_systemInfo
    obtain ⟨hknown, hunknown⟩ := loadRunDir_ok hrun (bind_init_ok hdata)
    have hmem : systemInfoName ∈ tys.map TableType.name := by
      by_contra hn
      rw [hunknown _ hn] at hget
      cases hget
    obtain ⟨ty, -, hname, ordered, hlist, ⟨-, hnone⟩ | ⟨-, g, k, hg, -, hrows, -⟩⟩ := hknown _ hmem
    · rw [hnone] at hget
      cases hget
    · rw [hg] at hget
      obtain rfl := Option.some.inj hget
      refine ⟨hmem, ordered, hname ▸ hlist, ?_⟩
      rwa [hrows, List.length_map, length_rowsWithId, List.flatMap_map] at hlen
  · intro hinfo
    obtain ⟨tables, hrundir⟩ := exists_loadRunDir_ok hrun htys hinfo
    obtain ⟨hmem, ordered, hlist, hlen⟩ := hinfo
    rw [hrundir]
    refine exists_init_iff.2 ?_
    obtain ⟨ty, -, hname, ordered', hlist', hloaded⟩ := (loadRunDir_ok hrun hrundir).known _ hmem
    rw [hname] at hlist'
    have hlen' : (ordered'.flatMap fun e ↦ e.2.rows).length = 1 :=
      (hlist'.length_rows_eq hlist).trans hlen
    rcases hloaded with ⟨rfl, -⟩ | ⟨-, f, k, hf, -, hrows, -⟩
    · cases hlen'
    · refine ⟨f, hf, ?_⟩
      rwa [hrows, List.length_map, length_rowsWithId, List.flatMap_map]

/-- **The tables of the collection** that a run of chunks makes. -/
theorem fromData_ok {dataDir : DataDir τ} {collectionId bench : PyStr}
    (hmatch : matchingRuns dataDir collectionId = [(bench, runName, run)])
    (hrun : ChunkNamed run) {data : CollectionData τ}
    (hdata : fromData dataDir collectionId tys = .ok data) :
    LoadsRun tys run runName data.tables := by
  rw [fromData, hmatch] at hdata
  exact loadRunDir_ok hrun (bind_init_ok hdata)

/-- **When a run of chunks makes a collection.** -/
theorem exists_fromData_iff {dataDir : DataDir τ} {collectionId bench : PyStr}
    (hmatch : matchingRuns dataDir collectionId = [(bench, runName, run)])
    (hrun : ChunkNamed run) (htys : CastsAccept tys runName run) :
    (∃ data, fromData dataDir collectionId tys = .ok data) ↔ HasSystemInfo tys run := by
  rw [← exists_loadRunDir_iff hrun htys, fromData, hmatch]

/-- **What `from_data` returns for a run of chunks.** It returns exactly where `system_info` is a
known table whose chunks have one row in all, provided the casts accept; and then every known table
is the concatenation of its chunks, and there is no other table. -/
theorem fromData_of_run {dataDir : DataDir τ} {collectionId bench : PyStr}
    (hmatch : matchingRuns dataDir collectionId = [(bench, runName, run)])
    (hrun : ChunkNamed run) (tys : List (TableType τ)) :
    (∀ data, fromData dataDir collectionId tys = .ok data →
      LoadsRun tys run runName data.tables) ∧
    (CastsAccept tys runName run →
      ((∃ data, fromData dataDir collectionId tys = .ok data) ↔ HasSystemInfo tys run)) :=
  ⟨fun _ hdata ↦ fromData_ok hmatch hrun hdata, exists_fromData_iff hmatch hrun⟩

end Loading

/-! ### Examples -/

/-- A frame with one row. -/
def oneRow : Frame Unit := .nullRow "pid".toList ()

/-- `ProcMapsTable`. -/
def procMaps : TableType Unit := .other "proc_maps".toList (by decide) fun _ ↦ .ok .same

/-- A type that takes every frame as it is. -/
theorem castsAccept_of_total {n : PyStr} (hn : n ≠ systemInfoName) (runName : PyStr)
    (run : RunDir Unit) :
    CastsAccept [.systemInfo, .other n hn fun _ ↦ .ok .same] runName run := by
  intro ty hty e rest _
  simp only [List.mem_cons, List.not_mem_nil, or_false] at hty
  rcases hty with rfl | rfl
  · trivial
  · exact ⟨.same, rfl⟩

theorem castsKeep_of_total {n : PyStr} (hn : n ≠ systemInfoName) (runName : PyStr)
    (run : RunDir Unit) :
    CastsKeep [.systemInfo, .other n hn fun _ ↦ .ok .same] runName run := by
  intro ty hty e rest _ k hk r _
  simp only [List.mem_cons, List.not_mem_nil, or_false] at hty
  rcases hty with rfl | rfl
  · rw [TableType.cast] at hk
    split_ifs at hk
    obtain rfl := Except.ok.inj hk
    rfl
  · obtain rfl := Except.ok.inj hk
    rfl

/-- A data directory with one run, `redis/run-abc`. -/
def redisDir (run : RunDir Unit) : DataDir Unit where
  path := "data".toList
  dirs := ⟨[("redis".toList, ⟨⟨[("run-abc".toList, run)], List.nodup_singleton _⟩, .empty⟩)],
    List.nodup_singleton _⟩

/-- `cast(pl.UInt64(), strict=False)`, of an integer. -/
def fitUInt64 : Value → Value
  | .int n => if 0 ≤ n ∧ n < 2 ^ 64 then .int n else .null
  | v => v

/-- The cast of a column `pfn` to `pl.UInt64`. -/
def pfnCast : SchemaCast where
  cell c v := if c = "pfn".toList then fitUInt64 v else v
  null c := by split_ifs <;> rfl
  text s := rfl

/-- `THPScanEventTable`. -/
def thpScanEvents : TableType Unit :=
  .other "thp_scan_events".toList (by decide) fun _ ↦ .ok pfnCast

/-- A scan event with a PFN that does not fit. -/
def wideScan : Frame Unit :=
  Frame.ofRows ["pid".toList, "pfn".toList] (by decide) (by decide) [([.int 7, .int (-1)], ())]

/-- The chunks `0`, `10` and `2` of one table, listed as text, a chunk of another whose cells do not
fit, and the system information. -/
def chunkedRun : RunDir Unit where
  items := [("proc_maps.0.parquet".toList, oneRow), ("proc_maps.10.parquet".toList, oneRow),
    ("proc_maps.2.parquet".toList, oneRow), ("thp_scan_events.0.parquet".toList, wideScan),
    ("system_info.end.parquet".toList, oneRow)]
  nodupKeys := by decide

theorem chunkedRun_chunkNamed : ChunkNamed chunkedRun := by
  intro e he _
  simp only [chunkedRun, List.mem_cons, List.not_mem_nil, or_false] at he
  rcases he with rfl | rfl | rfl | rfl | rfl
  · exact ⟨"proc_maps".toList, .number ['0'] (by decide) (List.all_eq_true.1 rfl), by decide,
      by decide⟩
  · exact ⟨"proc_maps".toList, .number ['1', '0'] (by decide) (List.all_eq_true.1 rfl), by decide,
      by decide⟩
  · exact ⟨"proc_maps".toList, .number ['2'] (by decide) (List.all_eq_true.1 rfl), by decide,
      by decide⟩
  · exact ⟨"thp_scan_events".toList, .number ['0'] (by decide) (List.all_eq_true.1 rfl),
      by decide, by decide⟩
  · exact ⟨"system_info".toList, .last, by decide, by decide⟩

theorem fromData_chunkedRun :
    ∃ data, @fromData Unit Python.ascii (redisDir chunkedRun) "run-".toList
        [.systemInfo, procMaps, thpScanEvents] = .ok data ∧
      LoadsRun [.systemInfo, procMaps, thpScanEvents] chunkedRun "run-abc".toList data.tables :=
  ⟨_, rfl, (@fromData_of_run Unit chunkedRun "run-abc".toList Python.ascii
    (redisDir chunkedRun) "run-".toList "redis".toList rfl chunkedRun_chunkNamed
      [.systemInfo, procMaps, thpScanEvents]).1 _ rfl⟩

/-- A run whose system information was never written. -/
def bareRun : RunDir Unit where
  items := [("proc_maps.0.parquet".toList, oneRow)]
  nodupKeys := by decide

/-- `from_data` refuses the run, although every file of it is a chunk. -/
theorem fromData_bareRun :
    matchingRuns (redisDir bareRun) "run-".toList =
        [("redis".toList, "run-abc".toList, bareRun)] ∧ ChunkNamed bareRun ∧
      @fromData Unit Python.ascii (redisDir bareRun) "run-".toList [.systemInfo, procMaps] =
        .error (.valueError
          ("missing required 'system_info' table while loading collection data " ++
            "(loaded tables: proc_maps)").toList) := by
  refine ⟨rfl, fun e he _ ↦ ?_, rfl⟩
  rw [List.mem_singleton.1 he]
  exact ⟨"proc_maps".toList, .number ['0'] (by decide) (List.all_eq_true.1 rfl), by decide,
    by decide⟩

end Schema
