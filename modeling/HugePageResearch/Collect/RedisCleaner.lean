import HugePageResearch.Analysis.Loaders
import Mathlib.Data.List.Dedup

/-!
# The cleaned copy of a run

`_clean_redis_collection` of `cli/collect.py`: find the thread group of the server in the process
trace of a run, and write the files of the run, with the rows of that thread group only, into a new
directory.

## The result

`cleans`: it raises before it writes anything, exactly where the server's rows do not have one tgid
or the new directory exists, and otherwise the new directory is the image of the run. A row without
a tgid counts: next to a number it is a second tgid, and alone it is the one tgid, which selects no
row of a file that has tgids.
-/

namespace Collect

open Polars Analysis
open Schema (RunDir collectionIdColumn joinNames parquetFiles mem_parquetFiles)

variable {τ : Type*}

/-! ### The code -/

/-- The run directories of `curated_dir / "redis"`. -/
abbrev Runs (τ : Type*) := Dict PyStr (RunDir τ)

/-- How cleaning fails. -/
inductive CleanError where
  /-- A `RuntimeError`. -/
  | runtimeError (message : PyStr)
  /-- The `TypeError` of an order between `None` and a number. -/
  | typeError
  /-- The `FileExistsError` of `mkdir`. -/
  | fileExistsError
  /-- The `FileNotFoundError` of a file that is gone. -/
  | fileNotFoundError
  /-- Polars has no such operation on a column of this type. -/
  | columnError
  deriving DecidableEq

def nameColumn : PyStr := "name".toList

def tgidColumn : PyStr := "tgid".toList

/-- `process_trace`. -/
def processTrace : TableName where
  text := "process_trace".toList
  plain := List.all_iff_forall_prop.1 (by decide)

/-- A cell of a column of texts. -/
def IsText : Value → Bool
  | .null => true
  | .str _ => true
  | _ => false

/-- A cell of a column of integers. -/
def IsInt : Value → Bool
  | .null => true
  | .int _ => true
  | _ => false

/-- `pl.col("name").str.starts_with("redis-server")`, of a cell; null is not selected. -/
def startsWithRedis : Value → Bool
  | .str s => PyStr.startswith s "redis-server".toList
  | _ => false

/-- `_discover_redis_server_tgids`. -/
def discoverRedisServerTgids (processTraceDf : Frame τ) : Except CleanError (List Value) :=
  if nameColumn ∉ processTraceDf.columns ∨ tgidColumn ∉ processTraceDf.columns then .ok []
  else if processTraceDf.rows.all fun r ↦ IsText (r.cells nameColumn) then
    let rows := processTraceDf.rows.filter fun r ↦ startsWithRedis (r.cells nameColumn)
    if rows.isEmpty then .ok [] else .ok (rows.map fun r ↦ r.cells tgidColumn).dedup
  else .error .columnError

/-- `sorted(redis_tgids)`. -/
def sortedTgids : List Value → Except CleanError (List Value)
  | [] => .ok []
  | [v] => .ok [v]
  | vs =>
    -- Python does not order `None` and a number
    if .null ∈ vs then .error .typeError
    else .ok (vs.insertionSort fun v w ↦ Engine.sortKey v ≤ Engine.sortKey w)

/-- `str(tgid)`. -/
def tgidText : Value → PyStr
  | .int n => PyStr.ofInt n
  | _ => "None".toList

/-- `f"cleaned{collection_id}"`. -/
def cleanedCollectionId (collectionId : PyStr) : PyStr := "cleaned".toList ++ collectionId

def missingMessage : PyStr := ("redis cleaner failed fast: missing process_trace parquet " ++
  "(add process_trace hook or run with --no-clean)").toList

def notFoundMessage : PyStr :=
  ("redis cleaner failed fast: could not find redis-server TGID in process_trace " ++
    "(run with --no-clean to skip cleaning)").toList

def ambiguousMessage (tgids : List Value) : PyStr :=
  "redis cleaner failed fast: expected exactly one redis-server TGID, got ".toList ++
    joinNames (tgids.map tgidText)

/-- `pl.col("tgid").is_in(...)`, of a cell; null is not selected. -/
def isIn (tgids : List Value) (v : Value) : Bool := v ≠ .null && v ∈ tgids

/-- The rows of a file that are kept. -/
def filterTgid (redisTgids : List Value) (tableDf : Frame τ) : Except CleanError (Frame τ) :=
  if tgidColumn ∉ tableDf.columns then .ok tableDf
  else if tableDf.rows.all fun r ↦ IsInt (r.cells tgidColumn) then
    .ok (tableDf.withRows (tableDf.rows.filter fun r ↦ isIn redisTgids (r.cells tgidColumn))
      fun _ hr ↦ List.mem_of_mem_filter hr)
  else .error .columnError

/-- The `collection_id` of a file that is written. -/
def relabel (cleanedId : PyStr) (tableDf : Frame τ) : Frame τ :=
  if collectionIdColumn ∈ tableDf.columns then
    tableDf.withLit collectionIdColumn (.str cleanedId)
  else tableDf

/-- One round of the loop over the files: read, clean and write. -/
def cleanFile (collectionId : PyStr) (redisTgids : List Value) (name : PyStr) (runs : Runs τ) :
    Except CleanError (Runs τ) :=
  match (runs.get? collectionId).bind fun raw ↦ raw.get? name,
    runs.get? (cleanedCollectionId collectionId) with
  | some tableDf, some cleaned => (filterTgid redisTgids tableDf).map fun kept ↦
      runs.set (cleanedCollectionId collectionId)
        (cleaned.set name (relabel (cleanedCollectionId collectionId) kept))
  | _, _ => .error .fileNotFoundError

/-- The loop over the files. -/
def cleanFiles (collectionId : PyStr) (redisTgids : List Value) :
    List PyStr → Runs τ → Except CleanError (Option PyStr) × Runs τ
  | [], runs => (.ok (some (cleanedCollectionId collectionId)), runs)
  | name :: names, runs =>
    match cleanFile collectionId redisTgids name runs with
    | .error e => (.error e, runs)
    | .ok runs' => cleanFiles collectionId redisTgids names runs'

/-- `sorted(raw_run_dir.glob("*.parquet"))`. -/
def parquetNames (raw : RunDir τ) : List PyStr :=
  ((parquetFiles raw).map Prod.fst).insertionSort (· ≤ ·)

/-- **`_clean_redis_collection`**: what it returns or raises, and the run directories after it. -/
def cleanRedisCollection (runs : Runs τ) (collectionId : PyStr) :
    Except CleanError (Option PyStr) × Runs τ :=
  match runs.get? collectionId with
  | none => (.ok none, runs)
  | some raw =>
    match loadTable raw processTrace with
    | none => (.error (.runtimeError missingMessage), runs)
    | some processTraceDf =>
      match discoverRedisServerTgids processTraceDf with
      | .error e => (.error e, runs)
      | .ok [] => (.error (.runtimeError notFoundMessage), runs)
      | .ok [tgid] =>
        if cleanedCollectionId collectionId ∈ runs.keys then (.error .fileExistsError, runs)
        else cleanFiles collectionId [tgid] (parquetNames raw)
          (runs.set (cleanedCollectionId collectionId) .empty)
      | .ok redisTgids =>
        match sortedTgids redisTgids with
        | .error e => (.error e, runs)
        | .ok tgids => (.error (.runtimeError (ambiguousMessage tgids)), runs)

/-! ### The image of a run -/

/-- The columns that are read have the types of the schemas: the names of the process trace are
texts, and tgids are integers. -/
structure Typed (raw : RunDir τ) : Prop where
  name : ∀ e ∈ tableFiles raw processTrace, ∀ r ∈ e.2.rows, IsText (r.cells nameColumn) = true
  tgid : ∀ e ∈ raw.items, ∀ r ∈ e.2.rows, IsInt (r.cells tgidColumn) = true

/-- The tgids of the server's rows; null is that of a row without one. -/
def redisTgids (raw : RunDir τ) : Set Value :=
  {v | ∃ e ∈ tableFiles raw processTrace, ∃ r ∈ e.2.rows,
    startsWithRedis (r.cells nameColumn) = true ∧ r.cells tgidColumn = v}

/-- The numbers among them. -/
def numberedTgids (raw : RunDir τ) : Set Value := {v ∈ redisTgids raw | v ≠ .null}

/-- All of them, where the process trace has tgids. -/
def countedTgids (raw : RunDir τ) : Set Value :=
  {v ∈ redisTgids raw | ∃ e ∈ tableFiles raw processTrace, tgidColumn ∈ e.2.columns}

/-- A row of a file of the run and that of the cleaned file. -/
structure RowCleaned (cleanedId : PyStr) (f : Frame τ) (r r' : Row τ) : Prop where
  mark : r'.mark = r.mark
  relabelled : collectionIdColumn ∈ f.columns → r'.cells collectionIdColumn = .str cleanedId
  kept : ∀ c, (c = collectionIdColumn → c ∉ f.columns) → r'.cells c = r.cells c

/-- A file of the run and the cleaned file, where `keeps` says which tgids are kept. -/
structure FileCleaned (keeps : Value → Bool) (cleanedId : PyStr) (f f' : Frame τ) : Prop where
  columns : f'.columns = f.columns
  rows : List.Forall₂ (RowCleaned cleanedId f)
    (if tgidColumn ∈ f.columns then f.rows.filter fun r ↦ keeps (r.cells tgidColumn) else f.rows)
    f'.rows

/-- **The image of a run.** -/
structure RunCleaned (keeps : Value → Bool) (cleanedId : PyStr) (raw cleaned : RunDir τ) :
    Prop where
  files : ∀ name, name ∈ cleaned.keys ↔
    name ∈ raw.keys ∧ PyStr.endswith name ".parquet".toList = true
  cleaned : ∀ name f f', raw.get? name = some f → cleaned.get? name = some f' →
    FileCleaned keeps cleanedId f f'

/-- The tgid of a row is the target; null is no row's. -/
def isTarget (g v : Value) : Bool := v = g ∧ v ≠ .null

/-- **What a call does**, where the tgids that count are `targets` and `keeps` says which rows are
those of a target. -/
structure Cleans (targets : Set Value) (keeps : Value → Value → Bool) (runs : Runs τ)
    (collectionId : PyStr) (raw : RunDir τ) : Prop where
  raises_iff : (∃ e, (cleanRedisCollection runs collectionId).1 = .error e) ↔
    tableFiles raw processTrace = [] ∨ (¬ ∃ g, targets = {g}) ∨
      cleanedCollectionId collectionId ∈ runs.keys
  raises : ∀ e, (cleanRedisCollection runs collectionId).1 = .error e →
    (cleanRedisCollection runs collectionId).2 = runs
  others : ∀ k, k ≠ cleanedCollectionId collectionId →
    (cleanRedisCollection runs collectionId).2.get? k = runs.get? k
  cleaned : ∀ g, targets = {g} → cleanedCollectionId collectionId ∉ runs.keys →
    ∃ cleaned, (cleanRedisCollection runs collectionId).2.get? (cleanedCollectionId collectionId) =
      some cleaned ∧ RunCleaned (keeps g) (cleanedCollectionId collectionId) raw cleaned

/-! ### The target -/

section Target

variable {raw : RunDir τ} {f : Frame τ}

/-- The process trace has the rows and the columns of its files. -/
theorem loadTable_some {n : TableName} (h : loadTable raw n = some f) :
    (∀ r, r ∈ f.rows ↔ ∃ e ∈ tableFiles raw n, r ∈ e.2.rows) ∧
      ∀ c, c ∈ f.columns ↔ ∃ e ∈ tableFiles raw n, c ∈ e.2.columns := by
  have hrows := rows_loadTable raw n
  rw [h] at hrows
  refine ⟨fun r ↦ ?_, fun c ↦ ?_⟩
  · rw [show f.rows = _ from hrows, List.mem_flatMap]
  · rw [loadTable] at h
    rcases htable : tableFiles raw n with - | ⟨e, es⟩
    · rw [htable] at h
      cases h
    · rw [htable] at h
      obtain rfl := Option.some.inj h
      rw [Frame.mem_columns_concat]
      simp only [List.mem_cons, List.mem_map, exists_eq_or_imp, exists_exists_and_eq_and]

theorem loadTable_eq_none_iff {n : TableName} :
    loadTable raw n = none ↔ tableFiles raw n = [] := by
  rw [loadTable]
  cases tableFiles raw n with
  | nil => exact ⟨fun _ ↦ rfl, fun _ ↦ rfl⟩
  | cons e es =>
    exact ⟨fun h ↦ absurd h (Option.some_ne_none _), fun h ↦ absurd h (List.cons_ne_nil e es)⟩

/-- **The tgids that are found** are those that count, each once. -/
theorem discoverRedisServerTgids_ok (htyped : Typed raw)
    (hload : loadTable raw processTrace = some f) :
    ∃ tgids, discoverRedisServerTgids f = .ok tgids ∧ tgids.Nodup ∧
      countedTgids raw = {v | v ∈ tgids} := by
  obtain ⟨hrows, hcolumns⟩ := loadTable_some hload
  rw [discoverRedisServerTgids]
  by_cases hmissing : nameColumn ∉ f.columns ∨ tgidColumn ∉ f.columns
  · refine ⟨[], if_pos hmissing, List.nodup_nil, Set.ext fun v ↦ ⟨?_, nofun⟩⟩
    rintro ⟨⟨e, he, r, hr, hname, -⟩, htgid⟩
    have h : nameColumn ∉ f.columns := hmissing.resolve_right fun h ↦ h ((hcolumns _).2 htgid)
    -- without a column of names no row is the server's
    have hnull := f.null r ((hrows r).2 ⟨e, he, hr⟩) nameColumn h
    rw [hnull] at hname
    cases hname
  · obtain ⟨-, htgid⟩ := not_or.1 hmissing
    have htext : (f.rows.all fun r ↦ IsText (r.cells nameColumn)) = true := by
      refine List.all_eq_true.2 fun r hr ↦ ?_
      obtain ⟨e, he, hr⟩ := (hrows r).1 hr
      exact htyped.name e he r hr
    rw [if_neg hmissing, if_pos htext]
    refine ⟨((f.rows.filter fun r ↦ startsWithRedis (r.cells nameColumn)).map
      fun r ↦ r.cells tgidColumn).dedup, ?_, List.nodup_dedup _, Set.ext fun v ↦ ?_⟩
    · show (if _ then _ else _) = _
      split_ifs with hempty
      · rw [List.isEmpty_iff.1 hempty]
        rfl
      · rfl
    · show v ∈ countedTgids raw ↔ v ∈ List.dedup _
      rw [List.mem_dedup, List.mem_map]
      simp only [List.mem_filter, hrows]
      constructor
      · rintro ⟨⟨e, he, r, hr, hname, rfl⟩, -⟩
        exact ⟨r, ⟨⟨e, he, hr⟩, hname⟩, rfl⟩
      · rintro ⟨r, ⟨⟨e, he, hr⟩, hname⟩, rfl⟩
        exact ⟨⟨e, he, r, hr, hname, rfl⟩, (hcolumns _).1 (not_not.1 htgid)⟩

end Target

/-! ### The copies -/

section Copies

variable {runs runs₀ : Runs τ} {raw : RunDir τ} {collectionId : PyStr} {g : Value} {f : Frame τ}

/-- **A file is cleaned.** -/
theorem exists_filterTgid (htgid : ∀ r ∈ f.rows, IsInt (r.cells tgidColumn) = true)
    (cleanedId : PyStr) : ∃ kept, filterTgid [g] f = .ok kept ∧
      FileCleaned (isTarget g) cleanedId f (relabel cleanedId kept) := by
  have hkept : ∃ kept, filterTgid [g] f = .ok kept ∧ kept.columns = f.columns ∧ kept.rows =
      if tgidColumn ∈ f.columns then f.rows.filter fun r ↦ isTarget g (r.cells tgidColumn)
      else f.rows := by
    have hkeeps : ∀ v, isIn [g] v = isTarget g v := fun v ↦ by
      simp only [isIn, isTarget, List.mem_singleton, Bool.decide_and, Bool.and_comm]
    simp only [filterTgid, hkeeps]
    by_cases hcolumn : tgidColumn ∈ f.columns
    · rw [if_neg (not_not.2 hcolumn), if_pos (List.all_eq_true.2 htgid), if_pos hcolumn]
      exact ⟨_, rfl, rfl, rfl⟩
    · rw [if_pos hcolumn, if_neg hcolumn]
      exact ⟨f, rfl, rfl, rfl⟩
  obtain ⟨kept, hok, hcolumns, hrows⟩ := hkept
  refine ⟨kept, hok, ?_⟩
  rw [relabel]
  by_cases hid : collectionIdColumn ∈ kept.columns
  · rw [if_pos hid]
    refine ⟨(if_pos hid).trans hcolumns, ?_⟩
    rw [← hrows]
    refine List.forall₂_map_right_iff.2 (List.forall₂_same.2 fun r _ ↦ ⟨rfl, fun _ ↦ ?_, ?_⟩)
    · exact Function.update_self collectionIdColumn _ r.cells
    · intro c hc
      rw [← hcolumns] at hc
      have hne : c ≠ collectionIdColumn := fun h ↦ hc h (h ▸ hid)
      exact Function.update_of_ne hne _ r.cells
  · rw [if_neg hid]
    refine ⟨hcolumns, ?_⟩
    rw [← hrows]
    exact List.forall₂_same.2 fun r _ ↦ ⟨rfl, fun h ↦ absurd (hcolumns ▸ h) hid, fun _ _ ↦ rfl⟩

/-- **After some rounds**: the files that are done are cleaned, and nothing else has changed. -/
structure Progress (g : Value) (collectionId : PyStr) (raw : RunDir τ) (runs₀ : Runs τ)
    (done : Set PyStr) (runs : Runs τ) : Prop where
  others : ∀ k, k ≠ cleanedCollectionId collectionId → runs.get? k = runs₀.get? k
  cleaned : ∃ cleaned, runs.get? (cleanedCollectionId collectionId) = some cleaned ∧
    (∀ name, name ∈ cleaned.keys ↔ name ∈ done) ∧ ∀ name f f', raw.get? name = some f →
      cleaned.get? name = some f' → FileCleaned (isTarget g) (cleanedCollectionId collectionId) f f'

theorem ne_cleanedCollectionId (collectionId : PyStr) :
    collectionId ≠ cleanedCollectionId collectionId :=
  fun h ↦ absurd (List.self_eq_append_left.1 h) (by decide)

/-- The directory is made. -/
theorem progress_mkdir (runs : Runs τ) :
    Progress g collectionId raw runs ∅ (runs.set (cleanedCollectionId collectionId) .empty) where
  others k hk := by rw [Dict.get?_set, if_neg hk.symm]
  cleaned := by
    refine ⟨.empty, by rw [Dict.get?_set, if_pos rfl], fun name ↦ ?_, fun name f f' _ hf' ↦ ?_⟩
    · exact ⟨fun h ↦ (List.not_mem_nil h).elim, fun h ↦ h.elim⟩
    · cases hf'

/-- **One round.** -/
theorem Progress.step {done : Set PyStr} {name : PyStr} (htyped : Typed raw)
    (hraw : runs₀.get? collectionId = some raw) (hname : name ∈ raw.keys)
    (h : Progress g collectionId raw runs₀ done runs) :
    ∃ runs', cleanFile collectionId [g] name runs = .ok runs' ∧
      Progress g collectionId raw runs₀ (insert name done) runs' := by
  obtain ⟨f, hf⟩ := Dict.exists_get?_of_mem_keys hname
  obtain ⟨cleaned, hcleaned, hkeys, hfiles⟩ := h.cleaned
  obtain ⟨kept, hok, hfile⟩ := exists_filterTgid (g := g)
    (fun r hr ↦ htyped.tgid _ (Dict.get?_eq_some.1 hf) r hr) (cleanedCollectionId collectionId)
  -- the run itself is not the directory that is written to
  have hread : runs.get? collectionId = some raw :=
    (h.others _ (ne_cleanedCollectionId _)).trans hraw
  let cleaned' := cleaned.set name (relabel (cleanedCollectionId collectionId) kept)
  refine ⟨runs.set (cleanedCollectionId collectionId) cleaned', ?_, ⟨fun k hk ↦ ?_, cleaned', ?_,
    fun name' ↦ ?_, ?_⟩⟩
  · rw [cleanFile, hread, hcleaned, Option.bind_some, hf]
    show Except.map _ (filterTgid [g] f) = _
    rw [hok]
    rfl
  · rw [Dict.get?_set, if_neg hk.symm, h.others k hk]
  · rw [Dict.get?_set, if_pos rfl]
  · rw [Dict.mem_keys_set, hkeys, Set.mem_insert_iff, or_comm, eq_comm]
  · intro name' f₁ f₂ hf₁ hf₂
    rw [Dict.get?_set] at hf₂
    split_ifs at hf₂ with heq
    · subst heq
      obtain rfl := Option.some.inj (hf.symm.trans hf₁)
      obtain rfl := Option.some.inj hf₂
      exact hfile
    · exact hfiles name' f₁ f₂ hf₁ hf₂

/-- **The loop.** -/
theorem Progress.run {done : Set PyStr} (htyped : Typed raw)
    (hraw : runs₀.get? collectionId = some raw) {names : List PyStr}
    (hnames : ∀ name ∈ names, name ∈ raw.keys)
    (h : Progress g collectionId raw runs₀ done runs) :
    ∃ runs', cleanFiles collectionId [g] names runs =
        (.ok (some (cleanedCollectionId collectionId)), runs') ∧
      Progress g collectionId raw runs₀ ({name | name ∈ names} ∪ done) runs' := by
  induction names generalizing runs done with
  | nil =>
    refine ⟨runs, rfl, ?_⟩
    rwa [show {name | name ∈ ([] : List PyStr)} ∪ done = done by simp]
  | cons name names ih =>
    obtain ⟨hname, hnames⟩ := List.forall_mem_cons.1 hnames
    obtain ⟨runs₁, hfile, h₁⟩ := h.step htyped hraw hname
    obtain ⟨runs₂, hrest, h₂⟩ := ih hnames h₁
    refine ⟨runs₂, by rw [cleanFiles, hfile]; exact hrest, ?_⟩
    have hdone : {n | n ∈ name :: names} ∪ done = {n | n ∈ names} ∪ insert name done := by
      ext n
      simp only [Set.mem_union, Set.mem_ofPred_eq, List.mem_cons, Set.mem_insert_iff]
      tauto
    rwa [hdone]

theorem mem_parquetNames {name : PyStr} : name ∈ parquetNames raw ↔
    name ∈ raw.keys ∧ PyStr.endswith name ".parquet".toList = true := by
  rw [parquetNames, List.mem_insertionSort, Dict.keys, List.mem_map, List.mem_map]
  constructor
  · rintro ⟨e, he, rfl⟩
    obtain ⟨he, hsuffix⟩ := mem_parquetFiles.1 he
    exact ⟨⟨e, he, rfl⟩, hsuffix⟩
  · rintro ⟨⟨e, he, rfl⟩, hsuffix⟩
    exact ⟨e, mem_parquetFiles.2 ⟨he, hsuffix⟩, rfl⟩

end Copies

/-! ### The call -/

section Call

variable {runs : Runs τ} {raw : RunDir τ} {collectionId : PyStr}

/-- A list without repetition of other than one value. -/
theorem not_exists_eq_singleton {tgids : List Value} (hnd : tgids.Nodup) (hne : ∀ g, tgids ≠ [g]) :
    ¬ ∃ g, {v | v ∈ tgids} = ({g} : Set Value) := by
  rintro ⟨g, hg⟩
  have hmem : ∀ v, v ∈ tgids ↔ v = g := fun v ↦ Set.ext_iff.1 hg v
  match tgids, hnd, hne, hmem with
  | [], _, _, hmem => exact absurd ((hmem g).2 rfl) List.not_mem_nil
  | [v], _, hne, hmem => exact hne v rfl
  | v :: w :: _, hnd, _, hmem =>
    have hv := (hmem v).1 List.mem_cons_self
    have hw := (hmem w).1 (List.mem_cons_of_mem _ List.mem_cons_self)
    exact (List.nodup_cons.1 hnd).1 ((hv.trans hw.symm) ▸ List.mem_cons_self)

/-- **The exits precede the directory**: a call raises with the directories as they were, or it
makes the new one and enters the loop. -/
theorem cleanRedisCollection_cases (hraw : runs.get? collectionId = some raw)
    (htyped : Typed raw) :
    ((tableFiles raw processTrace = [] ∨ (¬ ∃ g, countedTgids raw = {g}) ∨
        cleanedCollectionId collectionId ∈ runs.keys) ∧
      ∃ e, cleanRedisCollection runs collectionId = (.error e, runs)) ∨
    ∃ g, tableFiles raw processTrace ≠ [] ∧ countedTgids raw = {g} ∧
      cleanedCollectionId collectionId ∉ runs.keys ∧ cleanRedisCollection runs collectionId =
        cleanFiles collectionId [g] (parquetNames raw)
          (runs.set (cleanedCollectionId collectionId) .empty) := by
  simp only [cleanRedisCollection, hraw]
  cases hload : loadTable raw processTrace with
  | none => exact .inl ⟨.inl (loadTable_eq_none_iff.1 hload), _, rfl⟩
  | some f =>
    have hfiles : tableFiles raw processTrace ≠ [] := fun h ↦ by
      rw [loadTable_eq_none_iff.2 h] at hload
      cases hload
    obtain ⟨tgids, hok, hnd, hcounted⟩ := discoverRedisServerTgids_ok htyped hload
    rw [hcounted]
    simp only [hok]
    rcases tgids with - | ⟨v, - | ⟨w, tgids⟩⟩
    · have hne : ∀ g, ([] : List Value) ≠ [g] := fun g h ↦ List.cons_ne_nil g [] h.symm
      exact .inl ⟨.inr (.inl (not_exists_eq_singleton hnd hne)), _, rfl⟩
    · by_cases hexists : cleanedCollectionId collectionId ∈ runs.keys
      · exact .inl ⟨.inr (.inr hexists), _, if_pos hexists⟩
      · refine .inr ⟨v, hfiles, ?_, hexists, if_neg hexists⟩
        exact Set.ext fun _ ↦ List.mem_singleton
    · have hne : ∀ g, v :: w :: tgids ≠ [g] := fun g h ↦
        List.cons_ne_nil w tgids (List.cons.inj h).2
      refine .inl ⟨.inr (.inl (not_exists_eq_singleton hnd hne)), ?_⟩
      cases hsorted : sortedTgids (v :: w :: tgids) with
      | error e => exact ⟨e, by simp only [hsorted]⟩
      | ok sorted => exact ⟨_, by simp only [hsorted]; rfl⟩

/-- **What cleaning a run does.** -/
theorem cleans (runs : Runs τ) (collectionId : PyStr) (raw : RunDir τ)
    (hraw : runs.get? collectionId = some raw) (htyped : Typed raw) :
    Cleans (countedTgids raw) isTarget runs collectionId raw := by
  rcases cleanRedisCollection_cases hraw htyped with ⟨hexit, e, h⟩ | ⟨g, hfiles, hg, hnew, h⟩
  · refine ⟨⟨fun _ ↦ hexit, fun _ ↦ ⟨e, by rw [h]⟩⟩, fun _ _ ↦ by rw [h], fun _ _ ↦ by rw [h], ?_⟩
    intro g hg hnew
    rcases hexit with hfiles | hnone | hexists
    · obtain ⟨⟨_, he, -⟩, -⟩ : g ∈ countedTgids raw := hg ▸ Set.mem_singleton g
      exact absurd (hfiles ▸ he) List.not_mem_nil
    · exact absurd ⟨g, hg⟩ hnone
    · exact absurd hexists hnew
  · obtain ⟨runs', hloop, hprogress⟩ := (progress_mkdir runs).run htyped hraw (g := g)
      fun name hname ↦ (mem_parquetNames.1 hname).1
    have hok : cleanRedisCollection runs collectionId =
        (.ok (some (cleanedCollectionId collectionId)), runs') := h.trans hloop
    refine ⟨⟨?_, ?_⟩, ?_, fun k hk ↦ ?_, fun g' hg' _ ↦ ?_⟩
    · rintro ⟨e, he⟩
      rw [hok] at he
      cases he
    · rintro (hfiles' | hnone | hexists)
      · exact absurd hfiles' hfiles
      · exact absurd ⟨g, hg⟩ hnone
      · exact absurd hexists hnew
    · intro e he
      rw [hok] at he
      cases he
    · rw [hok]
      exact hprogress.others k hk
    · obtain rfl : g = g' := Set.singleton_injective (hg.symm.trans hg')
      obtain ⟨cleaned, hcleaned, hkeys, hfiles⟩ := hprogress.cleaned
      refine ⟨cleaned, by rw [hok]; exact hcleaned, fun name ↦ ?_, hfiles⟩
      rw [hkeys, Set.union_empty]
      exact mem_parquetNames

end Call

/-! ### Runs -/

section Examples

def processTraceFile : PyStr := "process_trace.0.parquet".toList

def redisServer : Value := .str "redis-server".toList

/-- A run with two tables, and two processes. -/
def twoTables : RunDir Unit where
  items :=
    [(processTraceFile, .ofRows [nameColumn, tgidColumn, collectionIdColumn]
        (by decide) (by decide)
        [([redisServer, .int 111, .str "run-123".toList], ()),
          ([.str "python".toList, .int 222, .str "run-123".toList], ())]),
      ("memory_usage.0.parquet".toList, .ofRows [tgidColumn, "value".toList, collectionIdColumn]
        (by decide) (by decide)
        [([.int 111, .int 1, .str "run-123".toList], ()),
          ([.int 222, .int 2, .str "run-123".toList], ())])]
  nodupKeys := by decide

theorem cleans_twoTables :
    Cleans (countedTgids twoTables) isTarget (Dict.empty.set "run-123".toList twoTables)
      "run-123".toList twoTables :=
  cleans _ _ _ rfl ⟨by decide, by decide⟩

/-- A run in which the server's row has no tgid. -/
def nullTgid : RunDir Unit where
  items := [(processTraceFile, .ofRows [nameColumn, tgidColumn] (by decide) (by decide)
    [([redisServer, .null], ())])]
  nodupKeys := by decide

/-- The data directory with this run. -/
def nullTgidRuns : Runs Unit := Dict.empty.set "run-123".toList nullTgid

theorem mem_tableFiles_nullTgid {e : PyStr × Frame Unit} :
    e ∈ tableFiles nullTgid processTrace ↔ e ∈ nullTgid.items := by
  rw [tableFiles, List.mem_insertionSort, List.filter_eq_self.2 (by decide)]

theorem eq_null_of_redisTgids {v : Value} (h : v ∈ redisTgids nullTgid) : v = .null := by
  obtain ⟨e, he, r, hr, -, rfl⟩ := h
  have hall : ∀ e ∈ nullTgid.items, ∀ r ∈ e.2.rows, r.cells tgidColumn = .null := by decide
  exact hall e (mem_tableFiles_nullTgid.1 he) r hr

theorem countedTgids_nullTgid : countedTgids nullTgid = {.null} := by
  refine Set.ext fun v ↦ ⟨fun h ↦ eq_null_of_redisTgids h.1, ?_⟩
  rintro rfl
  have hmem := mem_tableFiles_nullTgid.2 (List.mem_cons_self (l := []))
  exact ⟨⟨_, hmem, _, List.mem_cons_self, by decide, by decide⟩, _, hmem, by decide⟩

/-- **A run without a tgid of the server is cleaned**, with no row of it: neither is an error raised
nor are the rows kept that have the one tgid. -/
theorem not_cleans_nullTgid :
    ¬ Cleans (numberedTgids nullTgid) isTarget nullTgidRuns "run-123".toList nullTgid ∧
      ¬ Cleans (countedTgids nullTgid) (fun g v ↦ v = g) nullTgidRuns "run-123".toList
        nullTgid := by
  refine ⟨fun h ↦ ?_, fun h ↦ ?_⟩
  · have hnone : ¬ ∃ g, numberedTgids nullTgid = {g} := by
      rintro ⟨g, hg⟩
      obtain ⟨hmem, hne⟩ : g ∈ numberedTgids nullTgid := hg ▸ Set.mem_singleton g
      exact hne (eq_null_of_redisTgids hmem)
    obtain ⟨e, he⟩ := h.raises_iff.2 (.inr (.inl hnone))
    have hok : (cleanRedisCollection nullTgidRuns "run-123".toList).1.isOk = true := by
      decide +kernel
    rw [he] at hok
    cases hok
  · obtain ⟨cleaned, hcleaned, himage⟩ := h.cleaned .null countedTgids_nullTgid (by decide)
    obtain ⟨f', hf'⟩ := Dict.exists_get?_of_mem_keys ((himage.files processTraceFile).2 (by decide))
    have hrows : (((cleanRedisCollection nullTgidRuns "run-123".toList).2.get?
        (cleanedCollectionId "run-123".toList)).bind fun cleaned ↦
          (cleaned.get? processTraceFile).map fun f ↦ f.rows.length) = some 0 := by
      decide +kernel
    rw [hcleaned, Option.bind_some, hf'] at hrows
    have hlength := (himage.cleaned processTraceFile _ f' rfl hf').rows.length_eq
    exact absurd (hlength.trans (Option.some.inj hrows)) (by decide)

end Examples

end Collect
