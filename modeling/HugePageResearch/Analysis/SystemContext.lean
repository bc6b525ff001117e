import HugePageResearch.Analysis.Counters
import HugePageResearch.Polars.Joins

/-!
# The system context

`build_system_context` of `compaction_analysis.py`: the observations of the memory, with the nearest
row of the counters of the kernel and with the nearest sums of the perf counters. The perf tables
are written through `PerfCollectionTable.from_df_id`, which gives the counts a name of their own.

## The result

`systemTotals_iff`: the columns for the perf counters hold the sums of the latest counts, exactly
where there is no observation or no count.
-/

namespace Analysis

open Polars Schema

/-! ### Perf tables -/

/-- What Polars does besides what its documentation says, and the arithmetic of floats. -/
structure Context where
  engine : Engine Unit
  grouping : Grouping Unit
  asof : Asof Unit
  /-- The quotient of two columns. -/
  quotient : ℚ → ℚ → ℚ
  /-- The strict casts. -/
  strictInt64 : Value → Option Value
  strictString : Value → Option Value

/-- `cumulative_count`. -/
def cumulativeCount : PyStr := "cumulative_count".toList

/-- `UPTIME_TIMESTAMP`. -/
def uptimeTimestamp : PyStr := "ts_uptime_us".toList

/-- `ts_ns`. -/
def tsNsColumn : PyStr := "ts_ns".toList

/-- `cumulative_column_name`. -/
def cumulativeColumnName (name : PyStr) : PyStr := "cumulative_".toList ++ name

/-- `PerfCollectionTable.schema`, with the cast to each type. -/
def perfSchema (C : Context) (name : PyStr) : List (PyStr × (Value → Option Value)) :=
  [("cpu".toList, C.strictInt64), ("pid".toList, C.strictInt64), ("tgid".toList, C.strictInt64),
    (uptimeTimestamp, C.strictInt64), (collectionIdColumn, C.strictString),
    (cumulativeColumnName name, C.strictInt64), ("pmu_enabled_time_us".toList, C.strictInt64),
    ("pmu_running_time_us".toList, C.strictInt64)]

/-- `PerfCollectionTable.from_df_id`; there is no table where Polars raises. -/
def fromDfId (C : Context) (name : PyStr) (table : Frame Unit) (collectionId : PyStr) :
    Option (Frame Unit) := do
  let table ← (table.withLit collectionIdColumn (.str collectionId)).rename cumulativeCount
    (cumulativeColumnName name)
  (perfSchema C name).foldlM (fun f e ↦ f.castColumn e.1 e.2) table

/-! ### The code -/

/-- `observation_ts_ns`. -/
def observationTsNs : PyStr := "observation_ts_ns".toList

/-- `(pl.col(c) / (1024 * 1024)).alias(name)`. -/
def megabytes (C : Context) (c name : PyStr) : PyStr × (Row Unit → Value) :=
  (name, fun r ↦ (r.cells c).castFloat64.elim .null fun n ↦ .float (C.quotient n (1024 * 1024)))

/-- `(pl.col(c) / 1024).cast(pl.Int64).alias(c)`. -/
def pageCount (C : Context) (c : PyStr) : PyStr × (Row Unit → Value) :=
  (c, fun r ↦ (r.cells c).castFloat64.elim .null fun n ↦
    .int ((C.quotient n 1024).num.tdiv (C.quotient n 1024).den))

/-- `hugepage_fraction`. -/
def hugepageFraction (C : Context) : PyStr × (Row Unit → Value) :=
  ("hugepage_fraction".toList, fun r ↦
    (r.cells "anon_hugepages_total_bytes".toList).castFloat64.elim .null fun huge ↦
      (r.cells "anon_pages_total_bytes".toList).castFloat64.elim .null fun pages ↦
        .float (C.quotient huge (max pages 1)))

/-- The columns of `memory_usage` that are read. -/
def memorySources : List PyStr :=
  ["mem_free_bytes".toList, "mem_available_bytes".toList, "anon_hugepages_total_bytes".toList,
    "anon_pages_total_bytes".toList, "swap_free_bytes".toList, "swap_total_bytes".toList,
    "dirty_bytes".toList, "writeback_bytes".toList, "hugepages_total".toList,
    "hugepages_free".toList]

/-- The columns that are computed from them. -/
def memoryColumns (C : Context) (benchmark collectionId : PyStr) :
    List (PyStr × (Row Unit → Value)) :=
  [(collectionIdColumn, fun _ ↦ .str collectionId), ("benchmark".toList, fun _ ↦ .str benchmark),
    megabytes C "mem_free_bytes".toList "mem_free_mb".toList,
    megabytes C "mem_available_bytes".toList "mem_available_mb".toList,
    megabytes C "anon_hugepages_total_bytes".toList "anon_hugepages_mb".toList,
    megabytes C "anon_pages_total_bytes".toList "anon_pages_mb".toList,
    megabytes C "swap_free_bytes".toList "swap_free_mb".toList,
    megabytes C "swap_total_bytes".toList "swap_total_mb".toList,
    megabytes C "dirty_bytes".toList "dirty_mb".toList,
    megabytes C "writeback_bytes".toList "writeback_mb".toList,
    pageCount C "hugepages_total".toList, pageCount C "hugepages_free".toList, hugepageFraction C]

/-- `mem_cols`. -/
def memCols : List PyStr :=
  [collectionIdColumn, "benchmark".toList, observationTsNs, "mem_free_mb".toList,
    "mem_available_mb".toList, "anon_hugepages_mb".toList, "anon_pages_mb".toList,
    "hugepages_free".toList, "hugepages_total".toList, "swap_free_mb".toList,
    "swap_total_mb".toList, "dirty_mb".toList, "writeback_mb".toList, "hugepage_fraction".toList]

/-- `vmstat_cols_to_keep`. -/
def vmstatColsToKeep : List PyStr :=
  [tsNsColumn, "pgfault".toList, "pgmajfault".toList, "pgmigrate_success".toList,
    "pgmigrate_fail".toList, "compact_stall".toList, "compact_fail".toList,
    "compact_success".toList, "compact_daemon_wake".toList, "compact_migrate_scanned".toList,
    "compact_free_scanned".toList, "compact_isolated".toList, "thp_fault_alloc".toList,
    "thp_fault_fallback".toList, "thp_collapse_alloc".toList, "thp_collapse_alloc_failed".toList,
    "thp_split_page".toList, "thp_split_page_failed".toList, "thp_deferred_split_page".toList,
    "thp_split_pmd".toList]

/-- `memory_usage`. -/
def memoryUsageTable : TableName where
  text := "memory_usage".toList
  plain := List.all_iff_forall_prop.1 (by decide)

/-- `vmstat_samples`. -/
def vmstatTable : TableName where
  text := "vmstat_samples".toList
  plain := List.all_iff_forall_prop.1 (by decide)

/-- `dtlb_misses`. -/
def dtlbMissesTable : TableName where
  text := "dtlb_misses".toList
  plain := List.all_iff_forall_prop.1 (by decide)

/-- `itlb_misses`. -/
def itlbMissesTable : TableName where
  text := "itlb_misses".toList
  plain := List.all_iff_forall_prop.1 (by decide)

/-- `tlb_flushes`. -/
def tlbFlushesTable : TableName where
  text := "tlb_flushes".toList
  plain := List.all_iff_forall_prop.1 (by decide)

/-- `dtlb_walk_duration`. -/
def dtlbWalkTable : TableName where
  text := "dtlb_walk_duration".toList
  plain := List.all_iff_forall_prop.1 (by decide)

/-- The perf tables, each with its column of the result. -/
def perfTotals : List (TableName × PyStr) :=
  [(dtlbMissesTable, "system_dtlb_miss_total".toList),
    (itlbMissesTable, "system_itlb_miss_total".toList),
    (tlbFlushesTable, "system_tlb_flush_total".toList),
    (dtlbWalkTable, "system_dtlb_walk_total".toList)]

/-- The table with `observation_ts_ns`, and the columns of `mem_cols`. -/
def selectMemory (C : Context) (memory : Frame Unit) (benchmark collectionId : PyStr) :
    Except HarnessError (Frame Unit) :=
  let memory := memory.withColumn observationTsNs fun r ↦ times1000 (r.cells uptimeTimestamp)
  if ∀ c ∈ memorySources, c ∈ memory.columns then
    let result := memory.withColumns (memoryColumns C benchmark collectionId)
    polars (result.select (memCols.filter (· ∈ result.columns)))
  else .error .polarsError

/-- Sort, `join_asof` and drop `ts_ns`. -/
def joinNearest (C : Context) (result right : Frame Unit) : Except HarnessError (Frame Unit) := do
  let right ← polars (C.engine.sortBy right tsNsColumn)
  let result ← polars (C.engine.sortBy result observationTsNs)
  let result ← polars (Frame.joinAsof C.asof result right observationTsNs tsNsColumn)
  if tsNsColumn ∈ result.columns then polars (result.drop tsNsColumn) else return result

/-- The columns of `/proc/vmstat`. -/
def joinVmstat (C : Context) (vmstat : Option (Frame Unit)) (result : Frame Unit) :
    Except HarnessError (Frame Unit) :=
  match vmstat with
  | none => .ok result
  | some f =>
    if f.rows = [] then .ok result
    else do
      let sub ← polars (f.select (vmstatColsToKeep.filter (· ∈ f.columns)))
      joinNearest C result sub

/-- The column of one perf counter. -/
def joinPerf (C : Context) (perf : Option (Frame Unit)) (name : PyStr) (result : Frame Unit) :
    Except HarnessError (Frame Unit) :=
  match perf with
  | none => .ok result
  | some f =>
    if cumulativeCount ∈ f.columns ∧ f.rows ≠ [] ∧ uptimeTimestamp ∈ f.columns then do
      let timed := f.withColumn tsNsColumn fun r ↦ times1000 (r.cells uptimeTimestamp)
      let perfAgg ← polars (C.grouping.sumBy timed tsNsColumn cumulativeCount name)
      joinNearest C result perfAgg
    else .ok result

/-- `build_system_context`. -/
def buildSystemContext (C : Context) (collectionDir : RunDir Unit)
    (benchmark collectionId : PyStr) : Except HarnessError (Option (Frame Unit)) :=
  match tryLoad collectionDir memoryUsageTable with
  | none => .ok none
  | some memory =>
    if memory.rows = [] ∨ uptimeTimestamp ∉ memory.columns then .ok none
    else do
      let result ← selectMemory C memory benchmark collectionId
      let result ← joinVmstat C (tryLoad collectionDir vmstatTable) result
      let result ← perfTotals.foldlM
        (fun result e ↦ joinPerf C (tryLoad collectionDir e.1) e.2 result) result
      return some result

/-! ### The rows of the context -/

/-- **A run directory**: the tables have the columns with which they are written. -/
structure WrittenBy (C : Context) (collectionDir : RunDir Unit) : Prop where
  memory : ∀ f, tryLoad collectionDir memoryUsageTable = some f → f.rows ≠ [] →
    uptimeTimestamp ∈ f.columns ∧ ∀ c ∈ memorySources, c ∈ f.columns
  vmstat : ∀ f, tryLoad collectionDir vmstatTable = some f → f.rows ≠ [] → tsNsColumn ∈ f.columns
  perf : ∀ e ∈ perfTotals, ∀ f, tryLoad collectionDir e.1 = some f →
    ∃ table collectionId, fromDfId C e.1.text table collectionId = some f

/-- There is no observation of the memory. -/
def NoObservation (collectionDir : RunDir Unit) : Prop :=
  ∀ f, tryLoad collectionDir memoryUsageTable = some f → f.rows = []

/-- No perf table has a row. -/
def NoCount (collectionDir : RunDir Unit) : Prop :=
  ∀ e ∈ perfTotals, ∀ f, tryLoad collectionDir e.1 = some f → f.rows = []

section Spec

variable [Python]

/-- **The column holds the cumulative count** of a perf table at the time of each observation. -/
def HoldsCumulative (C : Context) (name : PyStr) (perf : Frame Unit) (column : PyStr)
    (result : Frame Unit) : Prop :=
  column ∈ result.columns ∧ ∃ index,
    buildCounterIndex C.engine C.grouping (some perf) (cumulativeColumnName name) none = .ok index ∧
    ∀ r ∈ result.rows, ∃ t, r.cells observationTsNs = .int t ∧
      (r.cells column).castFloat64 = some (index.cumulativeAt t)

/-- **Each observation has the totals** of the counters that were sampled. -/
def SystemTotals (C : Context) (collectionDir : RunDir Unit) (benchmark collectionId : PyStr) :
    Prop :=
  ∃ context, buildSystemContext C collectionDir benchmark collectionId = .ok context ∧
    ∀ result, context = some result → ∀ e ∈ perfTotals, ∀ perf,
      tryLoad collectionDir e.1 = some perf → perf.rows ≠ [] →
        HoldsCumulative C e.1.text perf e.2 result

end Spec

/-! ### Tables of `from_df_id` -/

section PerfTables

variable {C : Context} {name : PyStr} {f g table : Frame Unit} {collectionId : PyStr}

theorem columns_castColumn {c : PyStr} {cast : Value → Option Value}
    (h : f.castColumn c cast = some g) : g.columns = f.columns := by
  rw [Frame.castColumn] at h
  split_ifs at h
  rw [← Option.some.inj h]

theorem columns_castColumns {casts : List (PyStr × (Value → Option Value))}
    (h : casts.foldlM (fun f e ↦ f.castColumn e.1 e.2) f = some g) : g.columns = f.columns := by
  induction casts generalizing f with
  | nil => rw [Option.some.inj h]
  | cons e casts ih =>
    obtain ⟨f', hf', hrest⟩ := Option.bind_eq_some_iff.1 (List.foldlM_cons.symm.trans h)
    exact (ih hrest).trans (columns_castColumn hf')

theorem cumulativeColumnName_ne (h : name ≠ "count".toList) :
    cumulativeColumnName name ≠ cumulativeCount := fun heq ↦
  h (List.append_cancel_left (heq.trans (show _ = "cumulative_".toList ++ "count".toList from rfl)))

/-- **There is no `cumulative_count`** in a table of `from_df_id`. -/
theorem cumulativeCount_not_mem (hname : name ≠ "count".toList)
    (h : fromDfId C name table collectionId = some f) : cumulativeCount ∉ f.columns := by
  obtain ⟨renamed, hrenamed, hcast⟩ := Option.bind_eq_some_iff.1 h
  rw [columns_castColumns hcast]
  exact Frame.not_mem_columns_rename (cumulativeColumnName_ne hname) hrenamed

theorem name_ne_of_mem_perfTotals {e : TableName × PyStr} (he : e ∈ perfTotals) :
    e.1.text ≠ "count".toList := by
  have hall : perfTotals.all fun e ↦ e.1.text ≠ "count".toList := by decide
  exact of_decide_eq_true (List.all_eq_true.1 hall e he)

end PerfTables

/-! ### The result -/

section Result

variable {C : Context} {dir : RunDir Unit} {benchmark collectionId : PyStr}
  {f result right : Frame Unit}

/-- `sort` keeps the columns and the rows. -/
theorem exists_sortBy {c : PyStr} (hc : c ∈ f.columns) :
    ∃ g, C.engine.sortBy f c = some g ∧ g.columns = f.columns ∧
      g.rows.length = f.rows.length :=
  ⟨_, if_pos hc, rfl, (C.engine.sort_perm c f.rows).length_eq⟩

/-- **The memory columns** of each observation. -/
theorem exists_selectMemory (C : Context) (benchmark collectionId : PyStr)
    (hsources : ∀ c ∈ memorySources, c ∈ f.columns) :
    ∃ g, selectMemory C f benchmark collectionId = .ok g ∧ (∀ c ∈ g.columns, c ∈ memCols) ∧
      observationTsNs ∈ g.columns ∧ g.rows.length = f.rows.length := by
  set timed := f.withColumn observationTsNs fun r ↦ times1000 (r.cells uptimeTimestamp)
  have htimed : observationTsNs ∈ timed.columns := Frame.mem_columns_withColumn.2 (.inr rfl)
  have hmem : observationTsNs ∈ memCols.filter
      (· ∈ (timed.withColumns (memoryColumns C benchmark collectionId)).columns) :=
    List.mem_filter.2 ⟨by decide, decide_eq_true (Frame.mem_columns_withColumns.2 (.inl htimed))⟩
  have hnodup : memCols.Nodup := by decide
  obtain ⟨g, hg, hcolumns, hlength⟩ := Frame.exists_select (List.ne_nil_of_mem hmem)
    (hnodup.filter _) fun c hc ↦ of_decide_eq_true (List.mem_filter.1 hc).2
  refine ⟨g, ?_, fun c hc ↦ (List.mem_filter.1 (hcolumns ▸ hc)).1, hcolumns ▸ hmem, ?_⟩
  · have hall : ∀ c ∈ memorySources, c ∈ timed.columns := fun c hc ↦
      Frame.mem_columns_withColumn.2 (.inl (hsources c hc))
    show (if ∀ c ∈ memorySources, c ∈ timed.columns then polars _ else _) = _
    rw [if_pos hall, hg]
    rfl
  · rw [hlength, Frame.length_rows_withColumns, Frame.rows_withColumn, List.length_map]

/-- **A join adds the columns on the right**, but for the time. -/
theorem exists_joinNearest (hobservation : observationTsNs ∈ result.columns)
    (hts : tsNsColumn ∈ right.columns) (hno : tsNsColumn ∉ result.columns)
    (hdisjoint : ∀ c ∈ right.columns, c ≠ tsNsColumn → c ∉ result.columns) :
    ∃ g, joinNearest C result right = .ok g ∧
      (∀ c ∈ g.columns, c ∈ result.columns ∨ c ∈ right.columns ∧ c ≠ tsNsColumn) ∧
      g.rows.length = result.rows.length := by
  obtain ⟨right', hright', hrightColumns, -⟩ := exists_sortBy (C := C) hts
  obtain ⟨result', hresult', hresultColumns, hresultLength⟩ := exists_sortBy (C := C) hobservation
  obtain ⟨g, hg, hcolumns, hlength⟩ := Frame.exists_joinAsof (A := C.asof)
    (hresultColumns ▸ hobservation) (hrightColumns ▸ hts)
    (by rw [hrightColumns, hresultColumns]; exact hdisjoint)
  rw [hresultColumns, Frame.addedColumns, hrightColumns] at hcolumns
  have hadded : ∀ c ∈ g.columns, c ∈ result.columns ∨ c ∈ right.columns ∧ c ≠ tsNsColumn := by
    intro c hc
    rw [hcolumns, List.mem_append, List.mem_filter, decide_eq_true_iff] at hc
    exact hc
  have hdropped : tsNsColumn ∉ g.columns := fun hc ↦ (hadded _ hc).elim hno fun h ↦ h.2 rfl
  refine ⟨g, ?_, hadded, hlength.trans hresultLength⟩
  rw [joinNearest, hright', hresult']
  show (polars (Frame.joinAsof C.asof result' right' observationTsNs tsNsColumn)).bind _ = _
  rw [hg]
  exact if_neg hdropped

/-- **The columns of `/proc/vmstat`** are the ones that are kept. -/
theorem exists_joinVmstat {vmstat : Option (Frame Unit)}
    (hvmstat : ∀ f, vmstat = some f → f.rows ≠ [] → tsNsColumn ∈ f.columns)
    (hobservation : observationTsNs ∈ result.columns) (hmem : ∀ c ∈ result.columns, c ∈ memCols) :
    ∃ g, joinVmstat C vmstat result = .ok g ∧
      (∀ c ∈ g.columns, c ∈ memCols ∨ c ∈ vmstatColsToKeep) ∧
      g.rows.length = result.rows.length := by
  have hkeep : ∃ g, Except.ok (ε := HarnessError) result = .ok g ∧
      (∀ c ∈ g.columns, c ∈ memCols ∨ c ∈ vmstatColsToKeep) ∧
      g.rows.length = result.rows.length := ⟨result, rfl, fun c hc ↦ .inl (hmem c hc), rfl⟩
  have hapart : ∀ c ∈ vmstatColsToKeep, c ∉ memCols := List.all_iff_forall_prop.1 (by decide)
  rcases vmstat with _ | f
  · exact hkeep
  · by_cases hrows : f.rows = []
    · rw [joinVmstat, if_pos hrows]
      exact hkeep
    · have hts := hvmstat f rfl hrows
      have htsKept : tsNsColumn ∈ vmstatColsToKeep.filter (· ∈ f.columns) :=
        List.mem_filter.2 ⟨List.mem_cons_self, decide_eq_true hts⟩
      have hnodup : vmstatColsToKeep.Nodup := by decide
      obtain ⟨sub, hsub, hcolumns, -⟩ := Frame.exists_select (List.ne_nil_of_mem htsKept)
        (hnodup.filter _) fun c hc ↦ of_decide_eq_true (List.mem_filter.1 hc).2
      have hsubKept : ∀ c ∈ sub.columns, c ∈ vmstatColsToKeep := fun c hc ↦
        (List.mem_filter.1 (hcolumns ▸ hc)).1
      obtain ⟨g, hg, hgColumns, hlength⟩ := exists_joinNearest (C := C) hobservation
        (hcolumns ▸ htsKept) (fun hc ↦ hapart _ List.mem_cons_self (hmem _ hc))
        fun c hc _ hresult ↦ hapart c (hsubKept c hc) (hmem c hresult)
      refine ⟨g, ?_, fun c hc ↦ ?_, hlength⟩
      · simp only [joinVmstat, if_neg hrows, hsub, polars]
        exact hg
      · exact (hgColumns c hc).imp (hmem c) fun h ↦ hsubKept c h.1

/-- **A table of `from_df_id` adds nothing.** -/
theorem joinPerf_eq {perf : Option (Frame Unit)} {name : PyStr}
    (h : ∀ f, perf = some f → cumulativeCount ∉ f.columns) :
    joinPerf C perf name result = .ok result := by
  rcases perf with _ | f
  · rfl
  · exact if_neg fun hperf ↦ h f rfl hperf.1

theorem foldlM_joinPerf (hdir : WrittenBy C dir) (result : Frame Unit) :
    perfTotals.foldlM (fun result e ↦ joinPerf C (tryLoad dir e.1) e.2 result) result =
      .ok result := by
  have hstep : ∀ totals : List (TableName × PyStr), (∀ e ∈ totals, e ∈ perfTotals) →
      totals.foldlM (fun result e ↦ joinPerf C (tryLoad dir e.1) e.2 result) result =
        .ok result := by
    intro totals
    induction totals with
    | nil => exact fun _ ↦ rfl
    | cons e totals ih =>
      intro hall
      obtain ⟨he, hall⟩ := List.forall_mem_cons.1 hall
      rw [List.foldlM_cons, joinPerf_eq fun f hf ↦ ?_]
      · exact ih hall
      · obtain ⟨table, collectionId, htable⟩ := hdir.perf e he f hf
        exact cumulativeCount_not_mem (name_ne_of_mem_perfTotals he) htable
  exact hstep perfTotals fun _ ↦ id

/-- **Each observation has a row**, and none of the columns for the perf counters. -/
theorem exists_buildSystemContext (hdir : WrittenBy C dir)
    (hf : tryLoad dir memoryUsageTable = some f) (hrows : f.rows ≠ []) :
    ∃ g, buildSystemContext C dir benchmark collectionId = .ok (some g) ∧
      (∀ e ∈ perfTotals, e.2 ∉ g.columns) ∧ g.rows.length = f.rows.length := by
  obtain ⟨huptime, hsources⟩ := hdir.memory f hf hrows
  obtain ⟨memory, hmemory, hcolumns, hobservation, hlength⟩ :=
    exists_selectMemory C benchmark collectionId hsources
  obtain ⟨g, hg, hgColumns, hgLength⟩ :=
    exists_joinVmstat (C := C) hdir.vmstat hobservation hcolumns
  have hapart : perfTotals.all fun e ↦ e.2 ∉ memCols ∧ e.2 ∉ vmstatColsToKeep := by decide
  refine ⟨g, ?_, fun e he hc ↦ ?_, hgLength.trans hlength⟩
  · simp only [buildSystemContext, hf]
    rw [if_neg (not_or.2 ⟨hrows, not_not.2 huptime⟩), hmemory]
    show (joinVmstat C (tryLoad dir vmstatTable) memory).bind _ = _
    rw [hg]
    show Except.bind (perfTotals.foldlM
      (fun result e ↦ joinPerf C (tryLoad dir e.1) e.2 result) g) _ = _
    rw [foldlM_joinPerf hdir]
    rfl
  · have hnot := of_decide_eq_true (List.all_eq_true.1 hapart e he)
    exact (hgColumns _ hc).elim hnot.1 hnot.2

/-- Without an observation there is no table. -/
theorem buildSystemContext_eq_none (h : NoObservation dir) :
    buildSystemContext C dir benchmark collectionId = .ok none := by
  rcases hf : tryLoad dir memoryUsageTable with _ | f
  · simp only [buildSystemContext, hf]
  · simp only [buildSystemContext, hf]
    exact if_pos (.inl (h f hf))

variable [Python]

/-- **A counter that was sampled is missing** in the rows of the observations. -/
theorem not_systemTotals (hdir : WrittenBy C dir) (hf : tryLoad dir memoryUsageTable = some f)
    (hrows : f.rows ≠ []) {e : TableName × PyStr} (he : e ∈ perfTotals) {perf : Frame Unit}
    (hperf : tryLoad dir e.1 = some perf) (hsamples : perf.rows ≠ []) :
    ¬ SystemTotals C dir benchmark collectionId := by
  rintro ⟨context, hcontext, htotals⟩
  obtain ⟨g, hg, hnot, -⟩ := exists_buildSystemContext hdir hf hrows
  rw [hg] at hcontext
  obtain rfl := Except.ok.inj hcontext
  exact hnot e he (htotals g rfl e he perf hperf hsamples).1

/-- **The totals are right where there is nothing to add up.** -/
theorem systemTotals_iff (C : Context) (dir : RunDir Unit) (benchmark collectionId : PyStr)
    (hdir : WrittenBy C dir) :
    SystemTotals C dir benchmark collectionId ↔ NoObservation dir ∨ NoCount dir := by
  constructor
  · intro htotals
    by_contra hneither
    rw [not_or, NoObservation, NoCount] at hneither
    push Not at hneither
    obtain ⟨⟨f, hf, hrows⟩, e, he, perf, hperf, hsamples⟩ := hneither
    exact not_systemTotals hdir hf hrows he hperf hsamples htotals
  · rintro (hnone | hcount)
    · refine ⟨none, buildSystemContext_eq_none hnone, fun result h ↦ ?_⟩
      exact absurd h (Option.some_ne_none result).symm
    · by_cases hnone : NoObservation dir
      · refine ⟨none, buildSystemContext_eq_none hnone, fun result h ↦ ?_⟩
        exact absurd h (Option.some_ne_none result).symm
      · rw [NoObservation] at hnone
        push Not at hnone
        obtain ⟨f, hf, hrows⟩ := hnone
        obtain ⟨g, hg, -, -⟩ := exists_buildSystemContext hdir hf hrows
        exact ⟨some g, hg, fun result _ e he perf hperf hsamples ↦
          absurd (hcount e he perf hperf) hsamples⟩

end Result

/-! ### Two run directories -/

section Examples

/-- Exact quotients, and casts that change nothing. -/
def exactContext : Context where
  engine := .lastKept
  grouping := .firstSeen
  asof := .first
  quotient := (· / ·)
  strictInt64 := some
  strictString := some

/-- One observation of the memory, after a second. -/
def oneObservation : Frame Unit :=
  .ofRows (uptimeTimestamp :: memorySources) (List.cons_ne_nil _ _) (by decide)
    [(.int 1000000 :: memorySources.map fun _ ↦ .int 4096, ())]

/-- A sample on each of two CPUs, before it. -/
def twoSamples : Frame Unit :=
  .ofRows ["cpu".toList, "pid".toList, "tgid".toList, uptimeTimestamp, cumulativeCount,
      "pmu_enabled_time_us".toList, "pmu_running_time_us".toList]
    (List.cons_ne_nil _ _) (by decide)
    [([.int 0, .int 7, .int 7, .int 900000, .int 5, .int 900000, .int 900000], ()),
      ([.int 1, .int 7, .int 7, .int 950000, .int 3, .int 950000, .int 950000], ())]

/-- The directory of a run that only observed the memory. -/
def memoryDir : RunDir Unit where
  items := [("memory_usage.end.parquet".toList, oneObservation)]
  nodupKeys := by decide

/-- The table of the samples. -/
def dtlbMisses : Frame Unit :=
  (fromDfId exactContext dtlbMissesTable.text twoSamples "run".toList).getD twoSamples

/-- The directory of a run that sampled a counter as well. -/
def sampledDir : RunDir Unit where
  items := [("memory_usage.end.parquet".toList, oneObservation),
    ("dtlb_misses.end.parquet".toList, dtlbMisses)]
  nodupKeys := by decide

theorem fromDfId_twoSamples :
    fromDfId exactContext dtlbMissesTable.text twoSamples "run".toList = some dtlbMisses := by
  have hsome : (fromDfId exactContext dtlbMissesTable.text twoSamples "run".toList).isSome := by
    decide
  obtain ⟨f, hf⟩ := Option.isSome_iff_exists.1 hsome
  rw [dtlbMisses, hf]
  rfl

/-- The memory table of both. -/
theorem columns_oneObservation : uptimeTimestamp ∈ oneObservation.columns ∧
    ∀ c ∈ memorySources, c ∈ oneObservation.columns :=
  ⟨List.mem_cons_self, fun _ hc ↦ List.mem_cons_of_mem _ hc⟩

theorem writtenBy_memoryDir : WrittenBy exactContext memoryDir := by
  have hvmstat : tryLoad memoryDir vmstatTable = none := by decide
  have hperf : ∀ e ∈ perfTotals, tryLoad memoryDir e.1 = none := by decide
  refine ⟨fun f hf _ ↦ ?_, fun f hf _ ↦ ?_, fun e he f hf ↦ ?_⟩
  · obtain rfl : oneObservation = f := Option.some.inj hf
    exact columns_oneObservation
  · exact absurd (hf.symm.trans hvmstat) (Option.some_ne_none f)
  · exact absurd (hf.symm.trans (hperf e he)) (Option.some_ne_none f)

theorem writtenBy_sampledDir : WrittenBy exactContext sampledDir := by
  have hvmstat : tryLoad sampledDir vmstatTable = none := by decide
  have hothers : ∀ e ∈ perfTotals, e.1.text ≠ dtlbMissesTable.text →
      tryLoad sampledDir e.1 = none := by decide
  have hnames : ∀ e ∈ perfTotals, e.1.text = dtlbMissesTable.text →
      tryLoad sampledDir e.1 = some dtlbMisses := by
    refine List.forall_mem_cons.2 ⟨fun _ ↦ rfl, fun e he htext ↦ absurd htext ?_⟩
    have hother : ∀ e ∈ perfTotals.tail, e.1.text ≠ dtlbMissesTable.text := by decide
    exact hother e he
  refine ⟨fun f hf _ ↦ ?_, fun f hf _ ↦ ?_, fun e he f hf ↦ ?_⟩
  · obtain rfl : oneObservation = f := Option.some.inj hf
    exact columns_oneObservation
  · exact absurd (hf.symm.trans hvmstat) (Option.some_ne_none f)
  · by_cases htext : e.1.text = dtlbMissesTable.text
    · obtain rfl : dtlbMisses = f := Option.some.inj ((hnames e he htext).symm.trans hf)
      exact ⟨twoSamples, "run".toList, htext ▸ fromDfId_twoSamples⟩
    · exact absurd (hf.symm.trans (hothers e he htext)) (Option.some_ne_none f)

theorem systemTotals_memoryDir :
    @SystemTotals Python.ascii exactContext memoryDir "redis".toList "run".toList := by
  have hperf : ∀ e ∈ perfTotals, tryLoad memoryDir e.1 = none := by decide
  refine (@systemTotals_iff Python.ascii exactContext memoryDir "redis".toList "run".toList
    writtenBy_memoryDir).2 (.inr fun e he f hf ↦ ?_)
  exact absurd (hf.symm.trans (hperf e he)) (Option.some_ne_none f)

/-- **Two samples before an observation** of the memory do not reach it. -/
theorem not_systemTotals_sampledDir : WrittenBy exactContext sampledDir ∧
    ¬ @SystemTotals Python.ascii exactContext sampledDir "redis".toList "run".toList :=
  ⟨writtenBy_sampledDir, @not_systemTotals exactContext sampledDir "redis".toList "run".toList
    oneObservation Python.ascii writtenBy_sampledDir rfl (List.cons_ne_nil _ _)
    (dtlbMissesTable, "system_dtlb_miss_total".toList) List.mem_cons_self dtlbMisses rfl
    (List.ne_nil_of_length_pos (by decide))⟩

end Examples

end Analysis
