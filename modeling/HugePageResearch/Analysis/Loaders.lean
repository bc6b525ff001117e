import HugePageResearch.Library.Lists
import HugePageResearch.Schema.RunLayout

/-!
# Three loaders of one table

The rows of a table of a run are read by `try_load` of `compaction_analysis.py`, by `_load_table` of
`analysis/thp_harness.py` and by `CollectionData.from_data`. The last two read every chunk of the
table. `try_load` reads one file: `<table>.end.parquet` where it exists, and otherwise the file
whose name comes last as text.

`loadersAgree_iff` says for which runs and tables the three return the same rows, in whatever order.
-/

namespace Analysis

open Lists Polars Schema

variable {τ : Type*}

/-- The name of a table: a text with no character that is special in a pattern of `Path.glob`. -/
structure TableName where
  /-- The text. -/
  text : PyStr
  /-- It stands for itself in a pattern. -/
  plain : ∀ c ∈ text, c ∉ "*?[/".toList

/-! ### The loaders -/

/-- The pattern `f"{name}.*.parquet"` matches the name of the file. -/
def isFileOf (n : TableName) (file : PyStr) : Bool :=
  PyStr.startswith file (n.text ++ ['.']) &&
    PyStr.endswith (file.drop (n.text.length + 1)) ".parquet".toList

/-- `sorted(run_dir.glob(f"{table_name}.*.parquet"))`. -/
def tableFiles (run : RunDir τ) (n : TableName) : List (PyStr × Frame τ) :=
  (run.items.filter fun e ↦ isFileOf n e.1).insertionSort fun e e' ↦ e.1 ≤ e'.1

/-- `f"{name}.end.parquet"`. -/
def endFile (n : TableName) : PyStr := chunkFile n.text "end".toList

/-- `try_load`. -/
def tryLoad (base : RunDir τ) (n : TableName) : Option (Frame τ) :=
  match base.get? (endFile n) with
  | some f => some f
  | none => (tableFiles base n).getLast?.map Prod.snd

/-- `_load_table`; `none` is the frame `pl.DataFrame()` without a column. -/
def loadTable (run : RunDir τ) (n : TableName) : Option (Frame τ) :=
  match tableFiles run n with
  | [] => none
  | e :: es => some (e.2.concat (es.map Prod.snd))

/-! ### Agreement -/

/-- The rows that were loaded, apart from their `collection_id`. -/
def rowsOf (loaded : Option (Frame τ)) : List (Row τ) :=
  (loaded.elim [] Frame.rows).map (Frame.setCell collectionIdColumn .null)

/-- The file is a chunk of the table. -/
def IsChunkOf (n : TableName) (file : PyStr) : Prop := ∃ c : Chunk, file = chunkFile n.text c.text

/-- The rows of the table are in `end`, or there is no `end` and they are in the chunk whose name
comes last as text. -/
def OneChunkCounts (run : RunDir τ) (n : TableName) : Prop :=
  ∀ e ∈ run.items, IsChunkOf n e.1 → e.2.rows ≠ [] → e.1 = endFile n ∨
    (endFile n ∉ run.keys ∧ ∀ e' ∈ run.items, IsChunkOf n e'.1 → e'.1 ≤ e.1)

variable {run : RunDir τ} {n : TableName}

theorem isFileOf_iff {file : PyStr} :
    isFileOf n file = true ↔ ∃ mid, file = chunkFile n.text mid := by
  rw [isFileOf, Bool.and_eq_true, PyStr.startswith, PyStr.endswith, List.isPrefixOf_iff_prefix,
    List.isSuffixOf_iff_suffix]
  constructor
  · rintro ⟨⟨rest, rfl⟩, mid, hmid⟩
    refine ⟨mid, ?_⟩
    rw [List.drop_left' (by rw [List.length_append]; rfl)] at hmid
    rw [← hmid, chunkFile, List.append_assoc]
    rfl
  · rintro ⟨mid, rfl⟩
    have hsplit : chunkFile n.text mid = (n.text ++ ['.']) ++ (mid ++ ".parquet".toList) := by
      rw [chunkFile, List.append_assoc]
      rfl
    refine ⟨⟨_, hsplit.symm⟩, mid, ?_⟩
    rw [hsplit, List.drop_left' (by rw [List.length_append]; rfl)]

/-- In a run of chunks the pattern finds the chunks of the table and nothing else. -/
theorem isFileOf_iff_isChunkOf (hrun : ChunkNamed run) {e : PyStr × Frame τ} (he : e ∈ run.items) :
    isFileOf n e.1 = true ↔ IsChunkOf n e.1 := by
  rw [isFileOf_iff]
  constructor
  · rintro ⟨mid, hmid⟩
    obtain ⟨t, c, ht, hname⟩ := hrun e he (by rw [hmid]; exact endswith_chunkFile _ _)
    -- a chunk has two dots in its name, so the name of the table has none
    have hdots := congrArg (List.count '.') (hmid.symm.trans hname)
    simp only [chunkFile, List.count_append, List.count_cons_self,
      List.count_eq_zero_of_not_mem ht, List.count_eq_zero_of_not_mem c.dot_not_mem_text] at hdots
    have hn : '.' ∉ n.text := List.count_eq_zero.1 (by omega)
    have htable : t = n.text := by
      rw [← tableOf_chunkFile ht c.text, ← hname, hmid, tableOf_chunkFile hn]
    exact ⟨c, by rw [hname, htable]⟩
  · rintro ⟨c, hc⟩
    exact ⟨c.text, hc⟩

theorem mem_tableFiles (hrun : ChunkNamed run) {e : PyStr × Frame τ} :
    e ∈ tableFiles run n ↔ e ∈ run.items ∧ IsChunkOf n e.1 := by
  rw [tableFiles, List.mem_insertionSort, List.mem_filter]
  exact and_congr_right fun he ↦ isFileOf_iff_isChunkOf hrun he

theorem nodup_tableFiles (run : RunDir τ) (n : TableName) : (tableFiles run n).Nodup :=
  ((List.perm_insertionSort _ _).nodup_iff).2 (run.nodupKeys.of_map.filter _)

theorem pairwise_tableFiles (run : RunDir τ) (n : TableName) :
    (tableFiles run n).Pairwise fun e e' ↦ e.1 ≤ e'.1 := by
  have htotal : Std.Total fun e e' : PyStr × Frame τ ↦ e.1 ≤ e'.1 :=
    ⟨fun e e' ↦ le_total e.1 e'.1⟩
  have htrans : IsTrans _ fun e e' : PyStr × Frame τ ↦ e.1 ≤ e'.1 :=
    ⟨fun _ _ _ h h' ↦ le_trans h h'⟩
  exact List.pairwise_insertionSort _ _

/-- **The order of the names and the order of the chunks list the same files.** -/
theorem perm_tableFiles (hrun : ChunkNamed run) {ordered : List (PyStr × Frame τ)}
    (hlist : IsListing run n.text ordered) : ordered.Perm (tableFiles run n) :=
  (List.perm_ext_iff_of_nodup hlist.nodup.of_map (nodup_tableFiles run n)).2 fun e ↦
    (hlist.mem_iff e).trans (mem_tableFiles hrun).symm

/-! ### What each loader returns -/

/-- **`_load_table` reads every file.** -/
theorem rows_loadTable (run : RunDir τ) (n : TableName) :
    (loadTable run n).elim [] Frame.rows = (tableFiles run n).flatMap fun e ↦ e.2.rows := by
  rw [loadTable]
  rcases tableFiles run n with - | ⟨e, es⟩
  · rfl
  · show Frame.rows _ = _
    rw [Frame.rows_concat, List.flatMap_map, List.flatMap_cons]

theorem rowsOf_loadTable (run : RunDir τ) (n : TableName) : rowsOf (loadTable run n) =
    (tableFiles run n).flatMap fun e ↦ e.2.rows.map (Frame.setCell collectionIdColumn .null) := by
  rw [rowsOf, rows_loadTable, List.map_flatMap]

/-- **`try_load` reads one file**: `end`, or in its absence the last of the list. -/
theorem tryLoad_cases (hrun : ChunkNamed run) (n : TableName) :
    (tableFiles run n = [] ∧ tryLoad run n = none) ∨
      ∃ p ∈ tableFiles run n, tryLoad run n = some p.2 ∧ (p.1 = endFile n ∨
        (endFile n ∉ run.keys ∧ ∀ e ∈ tableFiles run n, e.1 ≤ p.1)) := by
  rcases hend : run.get? (endFile n) with - | f
  · have hkey : endFile n ∉ run.keys := by
      intro hmem
      obtain ⟨e, he, hname⟩ := List.mem_map.1 hmem
      rw [← hname, Dict.get?_eq_some.2 he] at hend
      exact absurd hend (Option.some_ne_none _)
    rcases (tableFiles run n).eq_nil_or_concat with h | ⟨es, p, hes⟩
    · exact Or.inl ⟨h, by rw [tryLoad, hend, h]; rfl⟩
    · rw [List.concat_eq_append] at hes
      refine Or.inr ⟨p, by rw [hes]; exact List.mem_append_right _ List.mem_cons_self, ?_,
        Or.inr ⟨hkey, fun e he ↦ ?_⟩⟩
      · rw [tryLoad, hend, hes, List.getLast?_concat]
        rfl
      · have hsorted := pairwise_tableFiles run n
        rw [hes] at hsorted he
        rcases List.mem_append.1 he with he | he
        · exact (List.pairwise_append.1 hsorted).2.2 e he p List.mem_cons_self
        · exact (congrArg Prod.fst (List.mem_singleton.1 he)).le
  · refine Or.inr ⟨(endFile n, f), (mem_tableFiles hrun).2 ⟨Dict.get?_eq_some.1 hend, .last, rfl⟩,
      by rw [tryLoad, hend], Or.inl rfl⟩

/-! ### When they agree -/

/-- The condition on the names is one on the file that `try_load` reads. -/
theorem oneChunkCounts_iff (hrun : ChunkNamed run) {p : PyStr × Frame τ}
    (hp : p ∈ tableFiles run n) (hpick : p.1 = endFile n ∨
      (endFile n ∉ run.keys ∧ ∀ e ∈ tableFiles run n, e.1 ≤ p.1)) :
    OneChunkCounts run n ↔ ∀ e ∈ tableFiles run n, e ≠ p → e.2.rows = [] := by
  have hitems := ((mem_tableFiles hrun).1 hp).1
  -- a file is determined by its name
  have hname : ∀ e ∈ tableFiles run n, e.1 = p.1 → e = p := fun e he h ↦
    List.inj_on_of_nodup_map run.nodupKeys ((mem_tableFiles hrun).1 he).1 hitems h
  constructor
  · intro h e he hne
    obtain ⟨hmem, hchunk⟩ := (mem_tableFiles hrun).1 he
    by_contra hrows
    rcases h e hmem hchunk hrows with hend | ⟨hend, hlast⟩
    · rcases hpick with hpend | ⟨hpend, -⟩
      · exact hne (hname e he (hend.trans hpend.symm))
      · exact hpend (hend ▸ List.mem_map_of_mem hmem)
    · rcases hpick with hpend | ⟨-, hplast⟩
      · exact hend (hpend ▸ List.mem_map_of_mem hitems)
      · have hle := hlast p hitems ((mem_tableFiles hrun).1 hp).2
        exact hne (hname e he (le_antisymm (hplast e he) hle))
  · intro h e hmem hchunk hrows
    have he := (mem_tableFiles hrun).2 ⟨hmem, hchunk⟩
    obtain rfl : e = p := by
      by_contra hne
      exact hrows (h e he hne)
    exact hpick.imp_right fun hlast ↦
      ⟨hlast.1, fun e' hmem' hchunk' ↦ hlast.2 e' ((mem_tableFiles hrun).2 ⟨hmem', hchunk'⟩)⟩

/-- **`try_load` against `_load_table`.** -/
theorem tryLoad_perm_iff (hrun : ChunkNamed run) (n : TableName) :
    (rowsOf (tryLoad run n)).Perm (rowsOf (loadTable run n)) ↔ OneChunkCounts run n := by
  rw [rowsOf_loadTable]
  rcases tryLoad_cases hrun n with ⟨hfiles, hload⟩ | ⟨p, hp, hload, hpick⟩
  · rw [hload, hfiles]
    refine iff_of_true (List.Perm.refl _) fun e hmem hchunk ↦ ?_
    have he := (mem_tableFiles hrun).2 ⟨hmem, hchunk⟩
    rw [hfiles] at he
    exact absurd he List.not_mem_nil
  · rw [hload, oneChunkCounts_iff hrun hp hpick]
    show (p.2.rows.map _).Perm _ ↔ _
    rw [perm_flatMap_iff (nodup_tableFiles run n) hp
      fun e ↦ e.2.rows.map (Frame.setCell collectionIdColumn .null)]
    simp only [List.map_eq_nil_iff]

/-- **`_load_table` against a table that `from_data` returned**, where the cast of the table's type
changes nothing. -/
theorem loadTable_perm (hrun : ChunkNamed run) {runName : PyStr} {ty : TableType τ}
    {loaded : Option (Frame τ)} (hname : ty.name = n.text)
    (hkeep : ∀ e rest, IsListing run ty.name (e :: rest) →
      ty.Keeps (ensureCollectionId (e.2.concat (rest.map Prod.snd)) runName))
    (h : LoadsChunks ty run runName loaded) :
    (rowsOf (loadTable run n)).Perm (rowsOf loaded) := by
  obtain ⟨ordered, hlist, ⟨rfl, rfl⟩ | ⟨hne, f, k, rfl, hcast, hrows, -⟩⟩ := h
  · rw [rowsOf_loadTable, (perm_tableFiles hrun (hname ▸ hlist)).symm.eq_nil]
    exact List.Perm.refl _
  · obtain ⟨e, rest, rfl⟩ := List.exists_cons_of_ne_nil hne
    have hkept : f.rows = rowsWithId runName ((e :: rest).map Prod.snd) := by
      rw [hrows]
      refine (List.map_congr_left fun r hr ↦ ?_).trans (List.map_id _)
      rw [List.map_cons, ← (ensureCollectionId_concat runName e.2 (rest.map Prod.snd)).1] at hr
      exact hkeep e rest hlist k (hcast e rest rfl) r hr
    have hdrop : rowsOf (some f) = ((e :: rest).flatMap fun e ↦ e.2.rows).map
        (Frame.setCell collectionIdColumn .null) := by
      show f.rows.map _ = _
      rw [hkept, rowsWithId, List.flatMap_map]
      split_ifs
      · rfl
      · rw [List.map_map]
        exact List.map_congr_left fun r _ ↦ by simp [Frame.setCell]
    rw [rowsOf_loadTable, hdrop, List.map_flatMap]
    exact ((perm_tableFiles hrun (hname ▸ hlist)).flatMap_right _).symm

theorem rows_loadTable_eq_nil_iff (hrun : ChunkNamed run) (n : TableName) :
    rowsOf (loadTable run n) = [] ↔ ∀ e ∈ run.items, IsChunkOf n e.1 → e.2.rows = [] := by
  rw [rowsOf_loadTable, List.flatMap_eq_nil_iff]
  simp only [List.map_eq_nil_iff, mem_tableFiles hrun, and_imp]

section Agreement

variable [Python]

/-- The three loaders return the same rows of the table, up to their order. -/
def LoadersAgree (dataDir : DataDir τ) (collectionId : PyStr) (tableTypes : List (TableType τ))
    (run : RunDir τ) (n : TableName) : Prop :=
  ∃ data, fromData dataDir collectionId tableTypes = .ok data ∧
    (rowsOf (tryLoad run n)).Perm (rowsOf (loadTable run n)) ∧
    (rowsOf (loadTable run n)).Perm (rowsOf (data.tables.get? n.text))

/-- **When the three loaders agree.** `from_data` has to return, which takes one row of
`system_info`; the rows of the table have to be in the chunk that `try_load` reads; and a table that
`from_data` does not know has to have no row. The chunks that `run_collect` writes have the schemas
of their tables, so that the casts of `from_data` change none of their cells. -/
theorem loadersAgree_iff {dataDir : DataDir τ} {collectionId bench runName : PyStr}
    {tys : List (TableType τ)}
    (hmatch : matchingRuns dataDir collectionId = [(bench, runName, run)])
    (hrun : ChunkNamed run) (htys : CastsAccept tys runName run)
    (hkeep : CastsKeep tys runName run) (n : TableName) :
    LoadersAgree dataDir collectionId tys run n ↔
      HasSystemInfo tys run ∧ OneChunkCounts run n ∧
        (n.text ∉ tys.map TableType.name →
          ∀ e ∈ run.items, IsChunkOf n e.1 → e.2.rows = []) := by
  rw [← exists_fromData_iff hmatch hrun htys, ← tryLoad_perm_iff hrun n,
    ← rows_loadTable_eq_nil_iff hrun n]
  constructor
  · rintro ⟨data, hdata, htry, hload⟩
    refine ⟨⟨data, hdata⟩, htry, fun hn ↦ ?_⟩
    rw [(fromData_ok hmatch hrun hdata).unknown n.text hn] at hload
    exact hload.eq_nil
  · rintro ⟨⟨data, hdata⟩, htry, hunknown⟩
    refine ⟨data, hdata, htry, ?_⟩
    obtain ⟨hin, hout⟩ := fromData_ok hmatch hrun hdata
    rcases em (n.text ∈ tys.map TableType.name) with hn | hn
    · obtain ⟨ty, hty, hname, hloads⟩ := hin n.text hn
      exact loadTable_perm hrun hname (hkeep ty hty) hloads
    · rw [hunknown hn, hout n.text hn]
      exact List.Perm.refl _

end Agreement

/-! ### Examples -/

/-- `proc_maps`. -/
def procMapsName : TableName where
  text := "proc_maps".toList
  plain := List.all_iff_forall_prop.1 (by decide)

/-- A short run: the output thread wrote nothing before the end. -/
def shortRun : RunDir Unit where
  items := [("proc_maps.end.parquet".toList, oneRow), ("system_info.end.parquet".toList, oneRow)]
  nodupKeys := by decide

/-- A run of two output intervals. -/
def longRun : RunDir Unit where
  items := [("proc_maps.0.parquet".toList, oneRow), ("proc_maps.end.parquet".toList, oneRow),
    ("system_info.0.parquet".toList, oneRow)]
  nodupKeys := by decide

theorem shortRun_chunkNamed : ChunkNamed shortRun := by
  intro e he _
  simp only [shortRun, List.mem_cons, List.not_mem_nil, or_false] at he
  rcases he with rfl | rfl
  · exact ⟨"proc_maps".toList, .last, by decide, by decide⟩
  · exact ⟨"system_info".toList, .last, by decide, by decide⟩

theorem longRun_chunkNamed : ChunkNamed longRun := by
  intro e he _
  simp only [longRun, List.mem_cons, List.not_mem_nil, or_false] at he
  rcases he with rfl | rfl | rfl
  · exact ⟨"proc_maps".toList, .number ['0'] (by decide) (List.all_eq_true.1 rfl), by decide,
      by decide⟩
  · exact ⟨"proc_maps".toList, .last, by decide, by decide⟩
  · exact ⟨"system_info".toList, .number ['0'] (by decide) (List.all_eq_true.1 rfl), by decide,
      by decide⟩

theorem oneChunkCounts_shortRun : OneChunkCounts shortRun procMapsName := by
  intro e he hchunk _
  simp only [shortRun, List.mem_cons, List.not_mem_nil, or_false] at he
  rcases he with rfl | rfl
  · exact Or.inl (by decide)
  · obtain ⟨c, hc⟩ := hchunk
    exact absurd (isFileOf_iff.2 ⟨c.text, hc⟩) (by decide)

theorem loadersAgree_shortRun :
    @LoadersAgree Unit Python.ascii (redisDir shortRun) "run-".toList [.systemInfo, procMaps]
      shortRun procMapsName :=
  (@loadersAgree_iff Unit shortRun Python.ascii (redisDir shortRun) "run-".toList "redis".toList
    "run-abc".toList [.systemInfo, procMaps] rfl shortRun_chunkNamed
      (castsAccept_of_total (by decide) _ _) (castsKeep_of_total (by decide) _ _) procMapsName).2
    ⟨(@exists_fromData_iff Unit shortRun "run-abc".toList [.systemInfo, procMaps] Python.ascii
      (redisDir shortRun) "run-".toList "redis".toList rfl shortRun_chunkNamed
        (castsAccept_of_total (by decide) _ _)).1 ⟨_, rfl⟩,
      oneChunkCounts_shortRun, fun hn ↦ absurd (by decide) hn⟩

/-- `try_load` leaves out the row of the first interval. -/
theorem not_loadersAgree_longRun :
    matchingRuns (redisDir longRun) "run-".toList =
        [("redis".toList, "run-abc".toList, longRun)] ∧ ChunkNamed longRun ∧
      ¬ @LoadersAgree Unit Python.ascii (redisDir longRun) "run-".toList [.systemInfo, procMaps]
        longRun procMapsName := by
  refine ⟨rfl, longRun_chunkNamed, ?_⟩
  rintro ⟨data, -, htry, -⟩
  exact absurd htry.length_eq (by decide)

end Analysis
