import HugePageResearch.Analysis.Loaders
import HugePageResearch.Library.Lists
import Mathlib.Algebra.Order.Field.Rat

/-!
# Processing a run

`process_thp_harness_run` of `analysis/thp_harness.py`, as far as it decides which files of the run
directory change. It reads every chunk of `thp_candidates`, adds one row for each scan event, keeps
one row for each `decision_id`, and writes the result to `thp_candidates.end.parquet`. The other
chunks stay where they are.

How the derived tables are computed from the candidates is a parameter; their names and the order in
which they are written are the source's. The graphs go to a directory of their own.
-/

namespace Analysis

open Lists Polars Schema

/-- A frame; `none` is `pl.DataFrame()`. -/
abbrev Table := Option (Frame Unit)

/-- The rows of a table. -/
def Table.rows (t : Table) : List (Row Unit) := t.elim [] Frame.rows

/-- `t.is_empty()`. -/
def Table.isEmpty (t : Table) : Bool := t.rows.isEmpty

/-! ### Values of Python -/

/-- What processing raises. -/
inductive HarnessError where
  /-- A `KeyError`. -/
  | keyError (key : PyStr)
  /-- A `TypeError`. -/
  | typeError
  /-- A `ValueError`. -/
  | valueError
  /-- An exception of Polars: a missing column or a refused cast. -/
  | polarsError

/-- `row[c]`, for a row of `f.iter_rows(named=True)`. -/
def item (f : Frame Unit) (r : Row Unit) (c : PyStr) : Except HarnessError Value :=
  if c ∈ f.columns then .ok (r.cells c) else .error (.keyError c)

/-- `row.get(c, default)`. -/
def itemD (f : Frame Unit) (r : Row Unit) (c : PyStr) (default : Value) : Value :=
  if c ∈ f.columns then r.cells c else default

/-- The result of an operation of Polars. -/
def polars {α : Type*} : Option α → Except HarnessError α
  | some a => .ok a
  | none => .error .polarsError

section Conversions

variable [Python]

/-- `int(value)`. -/
def toInt : Value → Except HarnessError ℤ
  | .null => .error .typeError
  | .bool b => .ok (if b then 1 else 0)
  | .int n => .ok n
  | .float q => .ok (q.num.tdiv q.den)
  | .str s =>
    match PyStr.int 10 s with
    | some n => .ok n
    | none => .error .valueError

/-- `str(value)`. -/
def toStr : Value → PyStr
  | .null => "None".toList
  | .bool b => if b then "True".toList else "False".toList
  | .int n => PyStr.ofInt n
  | .float q => Python.floatRepr q
  | .str s => s

end Conversions

/-! ### Scan events as candidates -/

/-- `f"{collection_id}-scan-{idx}"`. -/
def scanId (collectionId : PyStr) (idx : ℕ) : PyStr :=
  collectionId ++ "-scan-".toList ++ PyStr.ofInt idx

/-- `decision_id`. -/
def decisionIdColumn : PyStr := "decision_id".toList

/-- The keys of a row of `scan_rows`. -/
def scanColumns : List PyStr :=
  [decisionIdColumn, "pid".toList, "tgid".toList, "ts_ns".toList, "candidate_type".toList,
    "mm".toList, "pfn".toList, "start_addr".toList, "end_addr".toList, "age_sec".toList,
    "age_censored".toList, "referenced".toList, "none_or_zero".toList, "writable".toList,
    "scan_status".toList, "anon_hugepages_kb".toList, "thp_eligible".toList,
    "recent_scan_hit".toList, collectionIdColumn]

/-- What one call of `process_thp_harness_run` is given, and the functions that it uses as they are:
the engine, the arithmetic of floats and the derived tables. -/
structure Call where
  /-- The engine. -/
  engine : Engine Unit
  /-- `float(n / 1e9)`. -/
  seconds : ℤ → ℚ
  /-- `_window_features` over the counters of the run directory. -/
  windowFeatures : RunDir Unit → Frame Unit → ℤ → PyStr → Except HarnessError Table
  /-- `_make_decision_dataset`. -/
  decisionDataset : Frame Unit → Table → PyStr → Except HarnessError Table
  /-- `_match_interventions`. -/
  matchInterventions : Table → Table → Except HarnessError (Table × Table)
  /-- `window_ms`. -/
  windowMs : List ℤ
  /-- `matching_enabled`. -/
  matchingEnabled : Bool

variable [Python]

/-- `collapse_by_mm`, from the sorted rows. -/
def collapseByMm (f : Frame Unit) :
    List (Row Unit) → Dict PyStr ℤ → Except HarnessError (Dict PyStr ℤ)
  | [], d => .ok d
  | r :: rs, d =>
    ((item f r "ts_ns".toList).bind toInt).bind fun tsNs ↦
      collapseByMm f rs (d.set (toStr (itemD f r "mm".toList (.str []))) tsNs)

/-- The values of one element of `scan_rows`. -/
def scanRow (call : Call) (collectionId : PyStr) (collapses : Dict PyStr ℤ) (f : Frame Unit)
    (idx : ℕ) (r : Row Unit) : Except HarnessError (List Value) := do
  let tsNs ← (item f r "ts_ns".toList).bind toInt
  let mm := toStr (itemD f r "mm".toList (.str []))
  let collapseTs := collapses.get? mm
  let ageSec := collapseTs.elim 0 fun ts ↦ call.seconds (tsNs - ts)
  let pfn ← (item f r "pfn".toList).bind toInt
  let startAddr := pfn * 2 ^ 21
  let endAddr := startAddr + 2 * 1024 * 1024
  let pid ← (item f r "pid".toList).bind toInt
  let tgid ← (item f r "tgid".toList).bind toInt
  let referenced ← toInt (itemD f r "referenced".toList (.int 0))
  let noneOrZero ← toInt (itemD f r "none_or_zero".toList (.int 0))
  let writable ← toInt (itemD f r "writable".toList (.int 0))
  let scanStatus ← toInt (itemD f r "status".toList (.int 0))
  return [.str (scanId collectionId idx), .int pid, .int tgid, .int tsNs, .str "scan".toList,
    .str mm, .int pfn, .int startAddr, .int endAddr, .float ageSec, .bool collapseTs.isNone,
    .int referenced, .int noneOrZero, .int writable, .int scanStatus, .int 0, .int 1, .int 1,
    .str collectionId]

/-- `scan_rows`, the rows being numbered from `idx`. -/
def scanRows (call : Call) (collectionId : PyStr) (collapses : Dict PyStr ℤ) (f : Frame Unit)
    (idx : ℕ) : List (Row Unit) → Except HarnessError (List (List Value))
  | [] => .ok []
  | r :: rs =>
    (scanRow call collectionId collapses f idx r).bind fun values ↦
      (scanRows call collectionId collapses f (idx + 1) rs).map (values :: ·)

/-- The collapses by `mm`, if there are any. -/
def lastCollapses (call : Call) (collapses : Table) : Except HarnessError (Dict PyStr ℤ) :=
  match collapses with
  | none => .ok .empty
  | some f =>
    if f.rows = [] then .ok .empty
    else (polars (call.engine.sortBy f "ts_ns".toList)).bind fun sorted ↦
      collapseByMm sorted sorted.rows .empty

omit [Python] in
/-- `pl.DataFrame(scan_rows) if scan_rows else pl.DataFrame()`. -/
def scanDf (rows : List (List Value)) : Table :=
  if rows = [] then none
  else some (Frame.ofRows scanColumns (by decide) (by decide) (rows.map fun r ↦ (r, ())))

/-- `scan_df`. -/
def scanFrame (call : Call) (collectionId : PyStr) (scans collapses : Table) :
    Except HarnessError Table :=
  match scans with
  | none => .ok none
  | some f =>
    if f.rows = [] then .ok none
    else (lastCollapses call collapses).bind fun byMm ↦
      (scanRows call collectionId byMm f 1 f.rows).map scanDf

/-- `merged`: the candidates followed by the scan rows. -/
def mergeTables (candidates scanDf : Table) : Table :=
  if candidates.isEmpty then scanDf
  else if scanDf.isEmpty then candidates
  else candidates.bind fun f ↦ scanDf.map fun g ↦ f.append g

/-- `_augment_candidates_with_scan`. -/
def augmentCandidatesWithScan (call : Call) (collectionId : PyStr)
    (candidates scans collapses : Table) : Except HarnessError Table :=
  (scanFrame call collectionId scans collapses).bind fun scanDf ↦
    match mergeTables candidates scanDf with
    | none => .ok none
    | some merged =>
      if merged.rows = [] then .ok (some merged)
      else do
        let merged ← polars (merged.castColumn decisionIdColumn call.engine.castString)
        let merged ← polars (merged.castColumn "age_censored".toList Value.castBoolean)
        let merged ← polars (call.engine.uniqueBy merged decisionIdColumn)
        let merged ← polars (call.engine.sortBy merged "ts_ns".toList)
        return some merged

/-! ### The run directory -/

/-- `system_info`. -/
def systemInfoTable : TableName where
  text := "system_info".toList
  plain := List.all_iff_forall_prop.1 (by decide)

/-- `thp_candidates`. -/
def candidatesTable : TableName where
  text := "thp_candidates".toList
  plain := List.all_iff_forall_prop.1 (by decide)

/-- `thp_scan_events`. -/
def scansTable : TableName where
  text := "thp_scan_events".toList
  plain := List.all_iff_forall_prop.1 (by decide)

/-- `thp_collapse_events`. -/
def collapsesTable : TableName where
  text := "thp_collapse_events".toList
  plain := List.all_iff_forall_prop.1 (by decide)

/-- `thp_interventions`. -/
def interventionsTable : TableName where
  text := "thp_interventions".toList
  plain := List.all_iff_forall_prop.1 (by decide)

/-- `run_dir / f"{name}.end.parquet"`. -/
def outputFile (name : PyStr) : PyStr := chunkFile name "end".toList

omit [Python] in
/-- `_write_parquet`. -/
def writeParquet (run : RunDir Unit) (name : PyStr) (df : Table) : RunDir Unit :=
  match df with
  | none => run
  | some f => if f.rows = [] then run else run.set (outputFile name) f

/-- The table that the features of a window are written to. -/
def windowTable (window : ℤ) : PyStr :=
  if window = 100 then "thp_window_features_100ms".toList
  else if window = 1000 then "thp_window_features_1s".toList
  else if window = 10000 then "thp_window_features_10s".toList
  else "thp_window_features_".toList ++ PyStr.ofInt window ++ "ms".toList

/-- `for window in window_ms`; no features where a window raises. -/
def writeWindows (call : Call) (run₀ : RunDir Unit) (candidates : Frame Unit)
    (collectionId : PyStr) : List ℤ → Dict ℤ Table → RunDir Unit →
      RunDir Unit × Option (Dict ℤ Table)
  | [], features, run => (run, some features)
  | window :: windows, features, run =>
    match call.windowFeatures run₀ candidates window collectionId with
    | .error _ => (run, none)
    | .ok t =>
      writeWindows call run₀ candidates collectionId windows (features.set window t)
        (writeParquet run (windowTable window) t)

/-- The part after the candidates are written. -/
def writeDerived (call : Call) (collectionId : PyStr) (interventions : Table)
    (candidates : Frame Unit) (run : RunDir Unit) : RunDir Unit :=
  match writeWindows call run candidates collectionId call.windowMs .empty run with
  | (run, none) => run
  | (run, some features) =>
    match call.decisionDataset candidates ((features.get? 1000).getD none) collectionId with
    | .error _ => run
    | .ok decisions =>
      let matched :=
        if call.matchingEnabled && !decisions.isEmpty && !interventions.isEmpty then
          call.matchInterventions decisions interventions
        else .ok (none, decisions)
      match matched with
      | .error _ => run
      | .ok (matches', decisions) =>
        writeParquet (writeParquet run "thp_intervention_match".toList matches')
          "thp_decision_dataset_v1".toList decisions

/-- `collection_id`: that of the first row of `system_info`, or else the name of the run. -/
def collectionIdOf (runName : PyStr) (systemInfo : Table) : PyStr :=
  match systemInfo with
  | none => runName
  | some f =>
    if collectionIdColumn ∈ f.columns then
      f.rows.head?.elim runName fun r ↦ toStr (r.cells collectionIdColumn)
    else runName

/-- `process_thp_harness_run`: the run directory as the call leaves it, whether it returned or
raised. -/
def processThpHarnessRun (call : Call) (runName : PyStr) (run : RunDir Unit) : RunDir Unit :=
  let systemInfo := loadTable run systemInfoTable
  if Table.isEmpty systemInfo then run
  else
    let collectionId := collectionIdOf runName systemInfo
    match augmentCandidatesWithScan call collectionId (loadTable run candidatesTable)
        (loadTable run scansTable) (loadTable run collapsesTable) with
    | .error _ => run
    | .ok candidates =>
      let written := writeParquet run candidatesTable.text candidates
      match candidates with
      | none => written
      | some f =>
        if f.rows = [] then written
        else writeDerived call collectionId (loadTable run interventionsTable) f written

/-! ### Rows of the right types -/

/-- The cells in the columns are integers. -/
def IntCells (columns : List PyStr) (r : Row Unit) : Prop :=
  ∀ c ∈ columns, ∃ n : ℤ, r.cells c = .int n

/-- The columns of a scan event that are read as integers. -/
def scanIntColumns : List PyStr :=
  ["pid".toList, "tgid".toList, "ts_ns".toList, "pfn".toList, "referenced".toList,
    "none_or_zero".toList, "writable".toList, "status".toList]

/-- A row of `thp_candidates` has the types of `THPCandidateTable` in the columns that are used. -/
structure IsCandidate (r : Row Unit) : Prop where
  id : ∃ s, r.cells decisionIdColumn = .str s
  censored : ∃ b, r.cells "age_censored".toList = .bool b
  ts : ∃ n, r.cells "ts_ns".toList = .int n

/-- The tables of the run hold what their schemas say. -/
structure Collected (run : RunDir Unit) : Prop where
  candidates : ∀ r ∈ Table.rows (loadTable run candidatesTable), IsCandidate r
  scans : ∀ r ∈ Table.rows (loadTable run scansTable), IntCells scanIntColumns r
  collapses : ∀ r ∈ Table.rows (loadTable run collapsesTable), IntCells ["ts_ns".toList] r

/-- The values of `decision_id`. -/
def ids (rows : List (Row Unit)) : List Value := rows.map fun r ↦ r.cells decisionIdColumn

omit [Python] in
theorem ids_append (rows rows' : List (Row Unit)) : ids (rows ++ rows') = ids rows ++ ids rows' :=
  List.map_append

omit [Python] in
theorem scanId_injective (collectionId : PyStr) : Function.Injective (scanId collectionId) := by
  intro i j h
  rw [scanId, scanId, List.append_cancel_left_eq] at h
  exact PyStr.ofInt_natCast_inj h

/-- The ids of the scan rows of `n` events. -/
def scanIds (collectionId : PyStr) (n : ℕ) : List Value :=
  (List.range' 1 n).map fun idx ↦ .str (scanId collectionId idx)

variable {f : Frame Unit} {r : Row Unit} {c : PyStr} {n : ℤ}

omit [Python] in
theorem IsCandidate.mem_columns (h : IsCandidate r) (hr : r ∈ f.rows) :
    decisionIdColumn ∈ f.columns ∧ "age_censored".toList ∈ f.columns ∧
      "ts_ns".toList ∈ f.columns := by
  obtain ⟨⟨s, hs⟩, ⟨b, hb⟩, ⟨n, hn⟩⟩ := h
  exact ⟨Frame.mem_columns_of_cell hr (by rw [hs]; exact Value.noConfusion),
    Frame.mem_columns_of_cell hr (by rw [hb]; exact Value.noConfusion),
    Frame.mem_columns_of_cell hr (by rw [hn]; exact Value.noConfusion)⟩

theorem toInt_item (hr : r ∈ f.rows) (hc : r.cells c = .int n) :
    (item f r c).bind toInt = .ok n := by
  have hmem := Frame.mem_columns_of_cell hr (by rw [hc]; exact Value.noConfusion)
  rw [item, if_pos hmem, hc]
  rfl

theorem toInt_itemD (hr : r ∈ f.rows) (hc : r.cells c = .int n) (default : Value) :
    toInt (itemD f r c default) = .ok n := by
  have hmem := Frame.mem_columns_of_cell hr (by rw [hc]; exact Value.noConfusion)
  rw [itemD, if_pos hmem, hc]
  rfl

/-! ### What merging yields -/

/-- **One scan event makes one candidate**, with its own id. -/
theorem scanRow_ok (call : Call) (collectionId : PyStr) (collapses : Dict PyStr ℤ) (idx : ℕ)
    (hr : r ∈ f.rows) (hint : IntCells scanIntColumns r) :
    ∃ values, scanRow call collectionId collapses f idx r = .ok values ∧
      IsCandidate (Row.ofValues scanColumns values ()) ∧
      (Row.ofValues scanColumns values ()).cells decisionIdColumn =
        .str (scanId collectionId idx) := by
  obtain ⟨pid, hpid⟩ := hint "pid".toList (by decide)
  obtain ⟨tgid, htgid⟩ := hint "tgid".toList (by decide)
  obtain ⟨tsNs, hts⟩ := hint "ts_ns".toList (by decide)
  obtain ⟨pfn, hpfn⟩ := hint "pfn".toList (by decide)
  obtain ⟨referenced, href⟩ := hint "referenced".toList (by decide)
  obtain ⟨noneOrZero, hnone⟩ := hint "none_or_zero".toList (by decide)
  obtain ⟨writable, hwritable⟩ := hint "writable".toList (by decide)
  obtain ⟨status, hstatus⟩ := hint "status".toList (by decide)
  rw [scanRow, toInt_item hr hts, toInt_item hr hpfn, toInt_item hr hpid, toInt_item hr htgid,
    toInt_itemD hr href, toInt_itemD hr hnone, toInt_itemD hr hwritable, toInt_itemD hr hstatus]
  exact ⟨_, rfl, ⟨⟨_, rfl⟩, ⟨_, rfl⟩, ⟨_, rfl⟩⟩, rfl⟩

theorem exists_collapseByMm {rs : List (Row Unit)} (hrs : ∀ r ∈ rs, r ∈ f.rows)
    (hint : ∀ r ∈ rs, IntCells ["ts_ns".toList] r) (d : Dict PyStr ℤ) :
    ∃ d', collapseByMm f rs d = .ok d' := by
  induction rs generalizing d with
  | nil => exact ⟨d, rfl⟩
  | cons r rs ih =>
    obtain ⟨hr, hrs⟩ := List.forall_mem_cons.1 hrs
    obtain ⟨hhead, htail⟩ := List.forall_mem_cons.1 hint
    obtain ⟨tsNs, hts⟩ := hhead "ts_ns".toList List.mem_cons_self
    rw [collapseByMm, toInt_item hr hts]
    exact ih hrs htail _

theorem exists_lastCollapses (call : Call) {collapses : Table}
    (hint : ∀ r ∈ collapses.rows, IntCells ["ts_ns".toList] r) :
    ∃ d, lastCollapses call collapses = .ok d := by
  rcases collapses with - | f
  · exact ⟨.empty, rfl⟩
  rcases hrows : f.rows with - | ⟨r, rs⟩
  · exact ⟨.empty, if_pos hrows⟩
  · have hne : f.rows ≠ [] := hrows ▸ List.cons_ne_nil r rs
    have hr : r ∈ f.rows := hrows ▸ List.mem_cons_self
    obtain ⟨n, hn⟩ := hint r hr "ts_ns".toList List.mem_cons_self
    have hcol := Frame.mem_columns_of_cell hr (by rw [hn]; exact Value.noConfusion)
    rw [lastCollapses]
    simp only [if_neg hne, Engine.sortBy, if_pos hcol]
    exact exists_collapseByMm (fun _ hr ↦ hr)
      (fun r hr ↦ hint r ((call.engine.sort_perm _ _).mem_iff.1 hr)) .empty

theorem scanRows_ok (call : Call) (collectionId : PyStr) (collapses : Dict PyStr ℤ)
    {rs : List (Row Unit)} (hrs : ∀ r ∈ rs, r ∈ f.rows)
    (hint : ∀ r ∈ rs, IntCells scanIntColumns r) (idx : ℕ) :
    ∃ out, scanRows call collectionId collapses f idx rs = .ok out ∧
      (∀ values ∈ out, IsCandidate (Row.ofValues scanColumns values ())) ∧
      ids (out.map fun values ↦ Row.ofValues scanColumns values ()) =
        (List.range' idx rs.length).map fun i ↦ .str (scanId collectionId i) := by
  induction rs generalizing idx with
  | nil => exact ⟨[], rfl, fun _ h ↦ absurd h List.not_mem_nil, rfl⟩
  | cons r rs ih =>
    obtain ⟨hr, hrs⟩ := List.forall_mem_cons.1 hrs
    obtain ⟨hhead, htail⟩ := List.forall_mem_cons.1 hint
    obtain ⟨values, hvalues, hcand, hid⟩ := scanRow_ok call collectionId collapses idx hr hhead
    obtain ⟨out, hout, hcands, hids⟩ := ih hrs htail (idx + 1)
    refine ⟨values :: out, ?_, List.forall_mem_cons.2 ⟨hcand, hcands⟩, ?_⟩
    · rw [scanRows, hvalues, hout]
      rfl
    · rw [List.map_cons, ids, List.map_cons, hid, List.length_cons, List.range'_succ, List.map_cons]
      exact congrArg _ hids

omit [Python] in
theorem rows_scanDf (rows : List (List Value)) :
    (scanDf rows).rows = rows.map fun values ↦ Row.ofValues scanColumns values () := by
  rcases em (rows = []) with rfl | hne
  · rfl
  · rw [scanDf, if_neg hne]
    exact List.map_map

/-- **The scan rows**: one for each event. -/
theorem scanFrame_ok (call : Call) (collectionId : PyStr) {scans collapses : Table}
    (hscans : ∀ r ∈ scans.rows, IntCells scanIntColumns r)
    (hcollapses : ∀ r ∈ collapses.rows, IntCells ["ts_ns".toList] r) :
    ∃ t : Table, scanFrame call collectionId scans collapses = .ok t ∧
      (∀ r ∈ t.rows, IsCandidate r) ∧ ids t.rows = scanIds collectionId scans.rows.length := by
  rcases scans with - | f
  · exact ⟨none, rfl, fun _ h ↦ absurd h List.not_mem_nil, rfl⟩
  rcases em (f.rows = []) with hnil | hne
  · refine ⟨none, if_pos hnil, fun _ h ↦ absurd h List.not_mem_nil, ?_⟩
    have hlen : (Table.rows (some f)).length = 0 := List.length_eq_zero_iff.2 hnil
    rw [hlen]
    rfl
  · obtain ⟨byMm, hbyMm⟩ := exists_lastCollapses call hcollapses
    obtain ⟨out, hout, hcands, hids⟩ :=
      scanRows_ok call collectionId byMm (fun _ hr ↦ hr) hscans 1
    refine ⟨scanDf out, ?_, ?_, ?_⟩
    · have hrows : scanRows call collectionId byMm f 1 f.rows = .ok out := hout
      simp only [scanFrame, if_neg hne, hbyMm, hrows, Except.bind, Except.map]
    · rw [rows_scanDf]
      exact List.forall_mem_map.2 hcands
    · rw [rows_scanDf]
      exact hids

omit [Python] in
theorem rows_mergeTables (candidates scans : Table) :
    (mergeTables candidates scans).rows = candidates.rows ++ scans.rows := by
  rw [mergeTables]
  rcases em (candidates.isEmpty = true) with hc | hc
  · rw [if_pos hc, List.isEmpty_iff.1 hc, List.nil_append]
  rcases em (scans.isEmpty = true) with hs | hs
  · rw [if_neg hc, if_pos hs, List.isEmpty_iff.1 hs, List.append_nil]
  · rw [if_neg hc, if_neg hs]
    rcases candidates with - | f
    · exact absurd rfl hc
    rcases scans with - | g
    · exact absurd rfl hs
    · rfl

omit [Python] in
/-- **The casts of a merge** leave the rows as they are. -/
theorem casts_of_isCandidate (call : Call) (hall : ∀ r ∈ f.rows, IsCandidate r) (hr : r ∈ f.rows) :
    f.castColumn decisionIdColumn call.engine.castString = some f ∧
      f.castColumn "age_censored".toList Value.castBoolean = some f := by
  obtain ⟨hid, hcensored, -⟩ := (hall r hr).mem_columns hr
  constructor
  · refine Frame.castColumn_of_fixed hid fun r hr ↦ ?_
    obtain ⟨s, hs⟩ := (hall r hr).id
    rw [hs]
    rfl
  · refine Frame.castColumn_of_fixed hcensored fun r hr ↦ ?_
    obtain ⟨b, hb⟩ := (hall r hr).censored
    rw [hb]
    rfl

omit [Python] in
/-- **Unique and sorted rows** have each id once. -/
theorem ids_sort_unique (E : Engine Unit) (c : PyStr) (rows : List (Row Unit)) :
    (ids (E.sort c (E.unique decisionIdColumn rows))).Nodup ∧
      ∀ id, id ∈ ids (E.sort c (E.unique decisionIdColumn rows)) ↔ id ∈ ids rows := by
  have hperm : (ids (E.sort c (E.unique decisionIdColumn rows))).Perm
      (ids (E.unique decisionIdColumn rows)) := (E.sort_perm _ _).map _
  refine ⟨hperm.nodup_iff.2 (E.unique_nodup _ _), fun id ↦ hperm.mem_iff.trans ⟨fun h ↦ ?_,
    fun h ↦ ?_⟩⟩
  · obtain ⟨r, hr, rfl⟩ := List.mem_map.1 h
    exact List.mem_map.2 ⟨r, E.unique_subset _ _ r hr, rfl⟩
  · obtain ⟨r, hr, rfl⟩ := List.mem_map.1 h
    obtain ⟨r', hr', heq⟩ := E.unique_covers decisionIdColumn _ r hr
    exact List.mem_map.2 ⟨r', hr', heq⟩

/-- **What merging keeps**: one row of each id. -/
theorem augmentCandidatesWithScan_of_scanFrame (call : Call) (collectionId : PyStr)
    {candidates scans collapses scanTable : Table}
    (hcandidates : ∀ r ∈ candidates.rows, IsCandidate r)
    (hscan : scanFrame call collectionId scans collapses = .ok scanTable)
    (hscanRows : ∀ r ∈ scanTable.rows, IsCandidate r) :
    ∃ t : Table, augmentCandidatesWithScan call collectionId candidates scans collapses = .ok t ∧
      (∀ r ∈ t.rows, r ∈ candidates.rows ++ scanTable.rows) ∧ (ids t.rows).Nodup ∧
      ∀ id, id ∈ ids t.rows ↔ id ∈ ids (candidates.rows ++ scanTable.rows) := by
  have hall : ∀ r ∈ candidates.rows ++ scanTable.rows, IsCandidate r :=
    fun r hr ↦ (List.mem_append.1 hr).elim (hcandidates r) (hscanRows r)
  rw [augmentCandidatesWithScan, hscan]
  rw [← rows_mergeTables] at hall ⊢
  rcases hmerged : mergeTables candidates scanTable with - | merged
  · exact ⟨none, by simp only [Except.bind, hmerged], fun _ hr ↦ hr, List.nodup_nil,
      fun _ ↦ Iff.rfl⟩
  rw [hmerged] at hall
  rcases hmergedRows : merged.rows with - | ⟨r, rs⟩
  · refine ⟨some merged, by simp only [Except.bind, hmerged, hmergedRows, if_true], fun _ hr ↦ hr,
      ?_, fun _ ↦ Iff.rfl⟩
    show (ids merged.rows).Nodup
    rw [hmergedRows]
    exact List.nodup_nil
  · have hr : r ∈ merged.rows := hmergedRows ▸ List.mem_cons_self
    have hne : merged.rows ≠ [] := hmergedRows ▸ List.cons_ne_nil r rs
    obtain ⟨hidCol, -, htsCol⟩ := (hall r hr).mem_columns hr
    obtain ⟨hcast, hcast'⟩ := casts_of_isCandidate call hall hr
    let kept := call.engine.unique decisionIdColumn merged.rows
    let unique := merged.withRows kept (call.engine.unique_subset _ _)
    let sorted := unique.withRows (call.engine.sort "ts_ns".toList kept) fun _ hr ↦
      (call.engine.sort_perm _ _).mem_iff.1 hr
    have hunique : call.engine.uniqueBy merged decisionIdColumn = some unique := if_pos hidCol
    have hsorted : call.engine.sortBy unique "ts_ns".toList = some sorted := if_pos htsCol
    obtain ⟨hnd, hids⟩ := ids_sort_unique call.engine "ts_ns".toList merged.rows
    refine ⟨some sorted, ?_, fun r hr ↦ ?_, hnd, hids⟩
    · simp only [Except.bind, hmerged, if_neg hne, hcast, polars, bind, hcast', hunique, hsorted]
      rfl
    · exact call.engine.unique_subset _ _ r ((call.engine.sort_perm _ _).mem_iff.1 hr)

/-- **What merging yields**: each id of a candidate or a scan event, once. -/
theorem augmentCandidatesWithScan_ok (call : Call) (collectionId : PyStr)
    {candidates scans collapses : Table} (hcandidates : ∀ r ∈ candidates.rows, IsCandidate r)
    (hscans : ∀ r ∈ scans.rows, IntCells scanIntColumns r)
    (hcollapses : ∀ r ∈ collapses.rows, IntCells ["ts_ns".toList] r) :
    ∃ t : Table, augmentCandidatesWithScan call collectionId candidates scans collapses = .ok t ∧
      (∀ r ∈ t.rows, IsCandidate r) ∧ (ids t.rows).Nodup ∧
      ∀ id, id ∈ ids t.rows ↔
        id ∈ ids candidates.rows ∨ id ∈ scanIds collectionId scans.rows.length := by
  obtain ⟨scanTable, hscan, hscanRows, hscanIds⟩ := scanFrame_ok call collectionId hscans hcollapses
  obtain ⟨t, ht, hsub, hnd, hids⟩ :=
    augmentCandidatesWithScan_of_scanFrame call collectionId hcandidates hscan hscanRows
  refine ⟨t, ht, fun r hr ↦ ?_, hnd, fun id ↦ ?_⟩
  · exact (List.mem_append.1 (hsub r hr)).elim (hcandidates r) (hscanRows r)
  · rw [hids, ids_append, List.mem_append, hscanIds]

end Analysis
