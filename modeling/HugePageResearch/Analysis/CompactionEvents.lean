import HugePageResearch.Analysis.SystemContext
import HugePageResearch.Library.Steps

/-!
# The compaction events

`build_compaction_events` of `compaction_analysis.py`: one row for each intervention, with what the
snapshots of its range say before and after it, and one for each candidate that no intervention
followed, with what they say before it.

## The result

`buildCompactionEvents_rows`: whichever of the three tables are there, the rows are a `break` row
for each intervention and then a `keep` row for each candidate whose decision is in no intervention,
in the order of the tables, each with the latest snapshot before and the earliest one after.
-/

namespace Analysis

open Polars Schema

/-! ### The code -/

/-- What Polars leaves open, and the arithmetic of floats. -/
structure EventContext where
  engine : Engine Unit
  /-- `round(1.0 - referenced / rss, 4)`. -/
  bloat : (referenced rss : ℤ) → ℚ

/-- `start_addr`. -/
def startAddrColumn : PyStr := "start_addr".toList

/-- `end_addr`. -/
def endAddrColumn : PyStr := "end_addr".toList

/-- `referenced_kb`. -/
def referencedKbColumn : PyStr := "referenced_kb".toList

/-- `anon_hugepages_kb`. -/
def anonHugepagesKbColumn : PyStr := "anon_hugepages_kb".toList

/-- `rss_kb`. -/
def rssKbColumn : PyStr := "rss_kb".toList

/-- `smaps_vma_samples`. -/
def smapsVmaTable : TableName where
  text := "smaps_vma_samples".toList
  plain := List.all_iff_forall_prop.1 (by decide)

/-- `decision`. -/
inductive Decision where
  /-- `"break"`. -/
  | break'
  /-- `"keep"`. -/
  | keep
  deriving DecidableEq

/-- A row of the result: a key that the row does not have is `none`. -/
structure CompactionEvent where
  collectionId : PyStr
  benchmark : PyStr
  pageId : PyStr
  decisionTsNs : Value
  decision : Decision
  decisionReason : Value
  success : Value
  error : Value
  ageBucket : Value
  referencedKbBefore : Option Value
  anonHugepagesKbBefore : Option Value
  bloatEstimate : Option ℚ
  referencedKbAfter : Option Value
  anonHugepagesKbAfter : Option Value
  memoryFreedKb : Option Value

/-- `hex(value)`. -/
def hexOf : Value → Except HarnessError PyStr
  | .int n => .ok (PyStr.hex n)
  | .bool b => .ok (PyStr.hex (if b then 1 else 0))
  | _ => .error .typeError

/-- A number of which `max` or a difference is taken. -/
def asInt : Value → Except HarnessError ℤ
  | .int n => .ok n
  | _ => .error .typeError

/-- `pl.col(c) == value`, of integers: a null equals nothing. -/
def equals : Value → Value → Bool
  | .int m, .int n => m = n
  | _, _ => false

/-- `pl.col(c) <= value`, of integers: nothing is known of a null. -/
def notLater : Value → Value → Bool
  | .int m, .int n => m ≤ n
  | _, _ => false

/-- `pl.col(c) > value`, of integers: nothing is known of a null. -/
def isLater : Value → Value → Bool
  | .int m, .int n => n < m
  | _, _ => false

/-- The snapshots of exactly a range, as far as their times pass a filter. -/
def snapshotsOf (vma : Frame Unit) (startAddr endAddr : Value) (times : Value → Bool) :
    Frame Unit :=
  vma.filter fun s ↦ equals (s.cells startAddrColumn) startAddr &&
    equals (s.cells endAddrColumn) endAddr && times (s.cells tsNsColumn)

/-- `region_data`: the snapshots of the range of a decision, sorted by their times. -/
def regionData (C : EventContext) (vma decisions : Frame Unit) (row : Row Unit)
    (times : Value → Bool) : Except HarnessError (Frame Unit) := do
  let startAddr ← item decisions row startAddrColumn
  let endAddr ← item decisions row endAddrColumn
  if startAddrColumn ∈ vma.columns ∧ endAddrColumn ∈ vma.columns then
    polars (C.engine.sortBy (snapshotsOf vma startAddr endAddr times) tsNsColumn)
  else .error .polarsError

/-- What is taken from the last snapshot before the decision. -/
def withBefore (C : EventContext) (vma : Frame Unit) (before : Option (Row Unit))
    (entry : CompactionEvent) : Except HarnessError CompactionEvent :=
  match before with
  | none => .ok entry
  | some last => do
    let referenced ← item vma last referencedKbColumn
    let anonHugepages ← item vma last anonHugepagesKbColumn
    let rss ← (item vma last rssKbColumn).bind asInt
    let referencedKb ← asInt referenced
    return { entry with
      referencedKbBefore := some referenced
      anonHugepagesKbBefore := some anonHugepages
      bloatEstimate := some (C.bloat referencedKb (max rss 1)) }

/-- What is taken from the first snapshot after the decision. -/
def withAfter (vma : Frame Unit) (after : Option (Row Unit)) (entry : CompactionEvent) :
    Except HarnessError CompactionEvent :=
  match after with
  | none => .ok entry
  | some first => do
    let referenced ← item vma first referencedKbColumn
    let anonHugepages ← item vma first anonHugepagesKbColumn
    return { entry with
      referencedKbAfter := some referenced
      anonHugepagesKbAfter := some anonHugepages }

/-- `memory_freed_kb`. -/
def withFreed (entry : CompactionEvent) : Except HarnessError CompactionEvent :=
  match entry.anonHugepagesKbBefore, entry.anonHugepagesKbAfter with
  | some before, some after => do
    let before ← asInt before
    let after ← asInt after
    return { entry with memoryFreedKb := some (.int (before - after)) }
  | _, _ => .ok entry

section Rows

variable (C : EventContext) (collectionId benchmark : PyStr) (vma : Table) (decisions : Frame Unit)
  (row : Row Unit)

/-- Look up before/after smaps data. -/
def lookUpBeforeAfter (tsNs : Value) (entry : CompactionEvent) :
    Except HarnessError CompactionEvent :=
  match vma with
  | none => .ok entry
  | some vma =>
    if vma.rows = [] then .ok entry
    else do
      let region ← regionData C vma decisions row fun _ ↦ true
      if region.rows = [] then return entry
      else do
        let before := (region.rows.filter fun s ↦ notLater (s.cells tsNsColumn) tsNs).getLast?
        let entry ← withBefore C vma before entry
        let after := (region.rows.filter fun s ↦ isLater (s.cells tsNsColumn) tsNs).head?
        let entry ← withAfter vma after entry
        withFreed entry

/-- Look up bloat from smaps. -/
def lookUpBloat (tsNs : Value) (entry : CompactionEvent) : Except HarnessError CompactionEvent :=
  match vma with
  | none => .ok entry
  | some vma =>
    if vma.rows = [] then .ok entry
    else do
      let region ← regionData C vma decisions row fun t ↦ notLater t tsNs
      withBefore C vma region.rows.getLast? entry

/-- The row of an intervention. -/
def breakEvent : Except HarnessError CompactionEvent := do
  let pageId ← (item decisions row startAddrColumn).bind hexOf
  let tsNs ← item decisions row tsNsColumn
  lookUpBeforeAfter C vma decisions row tsNs
    { collectionId, benchmark, pageId
      decisionTsNs := tsNs
      decision := .break'
      decisionReason := .str "intervention".toList
      success := itemD decisions row "success".toList (.bool false)
      error := itemD decisions row "error".toList (.str [])
      ageBucket := itemD decisions row "age_bucket".toList (.str "unknown".toList)
      referencedKbBefore := none
      anonHugepagesKbBefore := none
      bloatEstimate := none
      referencedKbAfter := none
      anonHugepagesKbAfter := none
      memoryFreedKb := none }

/-- The row of a candidate that was not intervened. -/
def keepEvent : Except HarnessError CompactionEvent := do
  let pageId ← (item decisions row startAddrColumn).bind hexOf
  let tsNs ← item decisions row tsNsColumn
  lookUpBloat C vma decisions row tsNs
    { collectionId, benchmark, pageId
      decisionTsNs := tsNs
      decision := .keep
      decisionReason := itemD decisions row "candidate_type".toList (.str "unknown".toList)
      success := .bool true
      error := .str []
      ageBucket := .str "unknown".toList
      referencedKbBefore := none
      anonHugepagesKbBefore := none
      bloatEstimate := none
      referencedKbAfter := none
      anonHugepagesKbAfter := none
      memoryFreedKb := none }

end Rows

/-- `intervened_decision_ids`. -/
def intervenedDecisionIds (interventions : Table) : List Value :=
  match interventions with
  | none => []
  | some f => if decisionIdColumn ∈ f.columns then f.rows.map (·.cells decisionIdColumn) else []

/-- The rows of the interventions. -/
def breakRows (C : EventContext) (collectionId benchmark : PyStr) (vma interventions : Table) :
    Except HarnessError (List CompactionEvent) :=
  match interventions with
  | none => .ok []
  | some f => f.rows.mapM (breakEvent C collectionId benchmark vma f)

/-- The rows of the candidates that were not intervened. -/
def keepRows (C : EventContext) (collectionId benchmark : PyStr)
    (vma interventions candidates : Table) : Except HarnessError (List CompactionEvent) :=
  match candidates with
  | none => .ok []
  | some f =>
    let kept := f.rows.filter fun row ↦
      itemD f row decisionIdColumn .null ∉ intervenedDecisionIds interventions
    kept.mapM (keepEvent C collectionId benchmark vma f)

/-- `build_compaction_events`: the row list, and `none` where there is none. -/
def buildCompactionEvents (C : EventContext) (collectionDir : RunDir Unit)
    (benchmark collectionId : PyStr) : Except HarnessError (Option (List CompactionEvent)) :=
  let candidates : Table := tryLoad collectionDir candidatesTable
  let interventions : Table := tryLoad collectionDir interventionsTable
  if candidates.isEmpty && interventions.isEmpty then .ok none
  else do
    let vma : Table := tryLoad collectionDir smapsVmaTable
    let breaks ← breakRows C collectionId benchmark vma interventions
    let keeps ← keepRows C collectionId benchmark vma interventions candidates
    let rows := breaks ++ keeps
    if rows = [] then return none else return some rows

/-! ### The rows of interventions and candidates -/

/-- The columns of a decision that are read as integers. -/
def decisionIntColumns : List PyStr := [startAddrColumn, endAddrColumn, tsNsColumn]

/-- The columns of a snapshot. -/
def snapshotIntColumns : List PyStr :=
  [startAddrColumn, endAddrColumn, tsNsColumn, rssKbColumn, referencedKbColumn,
    anonHugepagesKbColumn]

/-- The tables of the directory, as far as they are there, have integers where their schemas say
so. -/
structure EventTables (collectionDir : RunDir Unit) : Prop where
  candidates : ∀ r ∈ Table.rows (tryLoad collectionDir candidatesTable),
    IntCells decisionIntColumns r
  interventions : ∀ r ∈ Table.rows (tryLoad collectionDir interventionsTable),
    IntCells decisionIntColumns r
  snapshots : ∀ r ∈ Table.rows (tryLoad collectionDir smapsVmaTable), IntCells snapshotIntColumns r

/-- The time of a decision or of a snapshot. -/
def timeOf (r : Row Unit) : ℤ := Engine.sortKey (r.cells tsNsColumn)

section Spec

variable (snapshots : Table) (row : Row Unit) (e : CompactionEvent)

/-- A snapshot of exactly the range of the decision. -/
def IsSnapshotOf (s : Row Unit) : Prop :=
  s ∈ snapshots.rows ∧ s.cells startAddrColumn = row.cells startAddrColumn ∧
    s.cells endAddrColumn = row.cells endAddrColumn

/-- A latest snapshot of the range at or before the decision. -/
def LatestBefore (s : Row Unit) : Prop :=
  IsSnapshotOf snapshots row s ∧ timeOf s ≤ timeOf row ∧
    ∀ s', IsSnapshotOf snapshots row s' → timeOf s' ≤ timeOf row → timeOf s' ≤ timeOf s

/-- An earliest snapshot of the range strictly after the decision. -/
def EarliestAfter (s : Row Unit) : Prop :=
  IsSnapshotOf snapshots row s ∧ timeOf row < timeOf s ∧
    ∀ s', IsSnapshotOf snapshots row s' → timeOf row < timeOf s' → timeOf s ≤ timeOf s'

/-- **The values before** come from a latest snapshot at or before the decision, and are absent
exactly where there is none. -/
def HasBefore : Prop :=
  (∃ s, LatestBefore snapshots row s ∧
    e.referencedKbBefore = some (s.cells referencedKbColumn) ∧
    e.anonHugepagesKbBefore = some (s.cells anonHugepagesKbColumn)) ∨
  (∀ s, IsSnapshotOf snapshots row s → timeOf row < timeOf s) ∧
    e.referencedKbBefore = none ∧ e.anonHugepagesKbBefore = none

/-- **The values after** come from an earliest snapshot after the decision, and are absent exactly
where there is none. -/
def HasAfter : Prop :=
  (∃ s, EarliestAfter snapshots row s ∧
    e.referencedKbAfter = some (s.cells referencedKbColumn) ∧
    e.anonHugepagesKbAfter = some (s.cells anonHugepagesKbColumn)) ∨
  (∀ s, IsSnapshotOf snapshots row s → timeOf s ≤ timeOf row) ∧
    e.referencedKbAfter = none ∧ e.anonHugepagesKbAfter = none

/-- **The freed memory** is the difference of the two, where there are both. -/
def HasFreed : Prop :=
  (∃ before after : ℤ, e.anonHugepagesKbBefore = some (.int before) ∧
    e.anonHugepagesKbAfter = some (.int after) ∧
    e.memoryFreedKb = some (.int (before - after))) ∨
  (e.anonHugepagesKbBefore = none ∨ e.anonHugepagesKbAfter = none) ∧ e.memoryFreedKb = none

/-- The row is that of a decision about the range, made at its time. -/
def IsOf (decision : Decision) : Prop :=
  e.decision = decision ∧ e.decisionTsNs = row.cells tsNsColumn ∧
    ∃ n : ℤ, row.cells startAddrColumn = .int n ∧ e.pageId = PyStr.hex n

/-- **The row of an intervention.** -/
structure IsBreak : Prop where
  of : IsOf row e .break'
  before : HasBefore snapshots row e
  after : HasAfter snapshots row e
  freed : HasFreed e

/-- **The row of a candidate.** -/
structure IsKeep : Prop where
  of : IsOf row e .keep
  before : HasBefore snapshots row e
  after : e.referencedKbAfter = none ∧ e.anonHugepagesKbAfter = none
  freed : e.memoryFreedKb = none

end Spec

/-- The decision of the candidate is in an intervention. -/
def Intervened (interventions : Table) (row : Row Unit) : Prop :=
  ∃ f ∈ interventions, decisionIdColumn ∈ f.columns ∧
    ∃ r ∈ f.rows, r.cells decisionIdColumn = row.cells decisionIdColumn

instance (interventions : Table) : DecidablePred (Intervened interventions) := fun _ ↦
  inferInstanceAs (Decidable (∃ f, f ∈ interventions ∧ _))

/-! ### Steps -/

section Steps

variable {C : EventContext} {vma decisions : Frame Unit} {row s : Row Unit} {c : PyStr}
  {columns : List PyStr} {before after : Option (Row Unit)} {e : CompactionEvent}

/-- An integer of a row. -/
theorem exists_item (hr : row ∈ decisions.rows) (h : IntCells columns row) (hc : c ∈ columns) :
    ∃ n : ℤ, row.cells c = .int n ∧ item decisions row c = .ok (.int n) := by
  obtain ⟨n, hn⟩ := h c hc
  have hcol : c ∈ decisions.columns :=
    Frame.mem_columns_of_cell hr (by rw [hn]; exact Value.noConfusion)
  exact ⟨n, hn, by rw [item, if_pos hcol, hn]⟩

theorem cells_tsNsColumn (h : IntCells columns row) (hc : tsNsColumn ∈ columns) :
    row.cells tsNsColumn = .int (timeOf row) := by
  obtain ⟨n, hn⟩ := h _ hc
  rw [timeOf, hn]
  rfl

theorem equals_int {v : Value} {n : ℤ} (hv : ∃ m : ℤ, v = .int m) :
    equals v (.int n) = true ↔ v = .int n := by
  obtain ⟨m, rfl⟩ := hv
  rw [equals, decide_eq_true_eq, Value.int.injEq]

/-- What `sort` returns. -/
theorem exists_rows_sortBy {f : Frame Unit} (hc : c ∈ f.columns) :
    ∃ g, C.engine.sortBy f c = some g ∧ g.rows = C.engine.sort c f.rows :=
  ⟨_, if_pos hc, rfl⟩

/-- **The region of a decision**: its snapshots, sorted by their times. -/
theorem exists_regionData (hvma : ∀ s ∈ vma.rows, IntCells snapshotIntColumns s)
    (hne : vma.rows ≠ []) (hrow : row ∈ decisions.rows) (hint : IntCells decisionIntColumns row)
    (times : Value → Bool) :
    ∃ region, regionData C vma decisions row times = .ok region ∧
      (∀ s, s ∈ region.rows ↔
        IsSnapshotOf (some vma) row s ∧ times (s.cells tsNsColumn) = true) ∧
      region.rows.Pairwise fun s s' ↦ timeOf s ≤ timeOf s' := by
  obtain ⟨r, hr⟩ := List.exists_mem_of_ne_nil _ hne
  have hcol : ∀ c ∈ snapshotIntColumns, c ∈ vma.columns := fun c hc ↦ by
    obtain ⟨n, hn⟩ := hvma r hr c hc
    exact Frame.mem_columns_of_cell hr (by rw [hn]; exact Value.noConfusion)
  obtain ⟨m, hm, hstart⟩ := exists_item hrow hint (c := startAddrColumn) List.mem_cons_self
  obtain ⟨n, hn, hend⟩ := exists_item hrow hint (c := endAddrColumn)
    (List.mem_cons_of_mem _ List.mem_cons_self)
  have hmem : ∀ s, s ∈ (snapshotsOf vma (.int m) (.int n) times).rows ↔
      IsSnapshotOf (some vma) row s ∧ times (s.cells tsNsColumn) = true := fun s ↦ by
    refine List.mem_filter.trans ?_
    rw [Bool.and_eq_true, Bool.and_eq_true, IsSnapshotOf, hm, hn, and_assoc, and_assoc,
      and_assoc]
    refine and_congr_right fun hs ↦ ?_
    rw [equals_int (hvma s hs _ List.mem_cons_self),
      equals_int (hvma s hs _ (List.mem_cons_of_mem _ List.mem_cons_self))]
  obtain ⟨region, hregion, hrows⟩ := exists_rows_sortBy (C := C)
    (f := snapshotsOf vma (.int m) (.int n) times) (hcol tsNsColumn (by decide))
  have hperm := C.engine.sort_perm tsNsColumn (snapshotsOf vma (.int m) (.int n) times).rows
  have hsorted := C.engine.sort_sorted tsNsColumn (snapshotsOf vma (.int m) (.int n) times).rows
  rw [← hrows] at hperm hsorted
  have hmemregion : ∀ s, s ∈ region.rows ↔
      IsSnapshotOf (some vma) row s ∧ times (s.cells tsNsColumn) = true := fun s ↦
    hperm.mem_iff.trans (hmem s)
  refine ⟨region, ?_, hmemregion, ?_⟩
  · rw [regionData, hstart, hend]
    show (if startAddrColumn ∈ vma.columns ∧ endAddrColumn ∈ vma.columns then _ else _) = _
    rw [if_pos ⟨hcol _ List.mem_cons_self, hcol _ (List.mem_cons_of_mem _ List.mem_cons_self)⟩,
      hregion]
    rfl
  · have hts : ∀ s ∈ region.rows, s.cells tsNsColumn = .int (timeOf s) := fun s hs ↦
      cells_tsNsColumn (hvma s ((hmemregion s).1 hs).1.1) (by decide)
    exact hsorted.imp_of_mem fun hs hs' hle ↦ hle _ _ (hts _ hs) (hts _ hs')

/-- What is read of a snapshot. -/
theorem exists_snapshot_items (hvma : ∀ s ∈ vma.rows, IntCells snapshotIntColumns s)
    (hs : s ∈ vma.rows) : ∃ referenced anonHugepages rss : ℤ,
      item vma s referencedKbColumn = .ok (.int referenced) ∧
      s.cells referencedKbColumn = .int referenced ∧
      item vma s anonHugepagesKbColumn = .ok (.int anonHugepages) ∧
      s.cells anonHugepagesKbColumn = .int anonHugepages ∧
      item vma s rssKbColumn = .ok (.int rss) := by
  obtain ⟨referenced, href, hrefitem⟩ := exists_item hs (hvma s hs) (c := referencedKbColumn)
    (by decide)
  obtain ⟨anon, hanon, hanonitem⟩ := exists_item hs (hvma s hs) (c := anonHugepagesKbColumn)
    (by decide)
  obtain ⟨rss, -, hrssitem⟩ := exists_item hs (hvma s hs) (c := rssKbColumn) (by decide)
  exact ⟨referenced, anon, rss, hrefitem, href, hanonitem, hanon, hrssitem⟩

/-- **The values before**, from a latest snapshot or none. -/
theorem exists_withBefore (hvma : ∀ s ∈ vma.rows, IntCells snapshotIntColumns s)
    (hsome : ∀ s, before = some s → LatestBefore (some vma) row s)
    (hnone : before = none → ∀ s, IsSnapshotOf (some vma) row s → timeOf row < timeOf s)
    (he : e.referencedKbBefore = none ∧ e.anonHugepagesKbBefore = none) :
    ∃ e', withBefore C vma before e = .ok e' ∧ HasBefore (some vma) row e' ∧
      e' = { e with
        referencedKbBefore := e'.referencedKbBefore
        anonHugepagesKbBefore := e'.anonHugepagesKbBefore
        bloatEstimate := e'.bloatEstimate } := by
  rcases before with - | s
  · exact ⟨e, rfl, .inr ⟨hnone rfl, he⟩, rfl⟩
  · have hlatest := hsome s rfl
    obtain ⟨referenced, anon, rss, href, href', hanon, hanon', hrss⟩ :=
      exists_snapshot_items hvma hlatest.1.1
    refine ⟨{ e with
      referencedKbBefore := some (.int referenced)
      anonHugepagesKbBefore := some (.int anon)
      bloatEstimate := some (C.bloat referenced (max rss 1)) }, ?_,
      .inl ⟨s, hlatest, ?_, ?_⟩, rfl⟩
    · rw [withBefore, href, hanon, hrss]
      rfl
    · exact congrArg some href'.symm
    · exact congrArg some hanon'.symm

/-- **The values after**, from an earliest snapshot or none. -/
theorem exists_withAfter (hvma : ∀ s ∈ vma.rows, IntCells snapshotIntColumns s)
    (hsome : ∀ s, after = some s → EarliestAfter (some vma) row s)
    (hnone : after = none → ∀ s, IsSnapshotOf (some vma) row s → timeOf s ≤ timeOf row)
    (he : e.referencedKbAfter = none ∧ e.anonHugepagesKbAfter = none) :
    ∃ e', withAfter vma after e = .ok e' ∧ HasAfter (some vma) row e' ∧
      e' = { e with
        referencedKbAfter := e'.referencedKbAfter
        anonHugepagesKbAfter := e'.anonHugepagesKbAfter } := by
  rcases after with - | s
  · exact ⟨e, rfl, .inr ⟨hnone rfl, he⟩, rfl⟩
  · have hearliest := hsome s rfl
    obtain ⟨referenced, anon, -, href, href', hanon, hanon', -⟩ :=
      exists_snapshot_items hvma hearliest.1.1
    refine ⟨{ e with
      referencedKbAfter := some (.int referenced)
      anonHugepagesKbAfter := some (.int anon) }, ?_, .inl ⟨s, hearliest, ?_, ?_⟩, rfl⟩
    · rw [withAfter, href, hanon]
      rfl
    · exact congrArg some href'.symm
    · exact congrArg some hanon'.symm

/-- **The freed memory**, of values that come from snapshots. -/
theorem exists_withFreed (hvma : ∀ s ∈ vma.rows, IntCells snapshotIntColumns s)
    (hbefore : HasBefore (some vma) row e) (hafter : HasAfter (some vma) row e)
    (he : e.memoryFreedKb = none) :
    ∃ e', withFreed e = .ok e' ∧ HasFreed e' ∧
      e' = { e with memoryFreedKb := e'.memoryFreedKb } := by
  rcases hbefore with ⟨s, hs, -, hb⟩ | ⟨-, -, hb⟩
  · rcases hafter with ⟨t, ht, -, ha⟩ | ⟨-, -, ha⟩
    · obtain ⟨-, b, -, -, -, -, hb', -⟩ := exists_snapshot_items hvma hs.1.1
      obtain ⟨-, a, -, -, -, -, ha', -⟩ := exists_snapshot_items hvma ht.1.1
      rw [hb'] at hb
      rw [ha'] at ha
      refine ⟨{ e with memoryFreedKb := some (.int (b - a)) }, ?_, .inl ⟨b, a, hb, ha, rfl⟩, rfl⟩
      rw [withFreed, hb, ha]
      rfl
    · refine ⟨e, ?_, .inr ⟨.inr ha, he⟩, rfl⟩
      rw [withFreed, hb, ha]
  · refine ⟨e, ?_, .inr ⟨.inl hb, he⟩, rfl⟩
    rw [withFreed, hb]

end Steps

/-! ### Rows -/

section Decisions

variable {C : EventContext} {collectionId benchmark : PyStr} {vma : Table} {decisions : Frame Unit}
  {row : Row Unit}

theorem notLater_iff {v : Value} {m n : ℤ} (hv : v = .int m) :
    notLater v (.int n) = true ↔ m ≤ n := by
  rw [hv, notLater, decide_eq_true_eq]

theorem isLater_iff {v : Value} {m n : ℤ} (hv : v = .int m) :
    isLater v (.int n) = true ↔ n < m := by
  rw [hv, isLater, decide_eq_true_eq]

/-- Where there are no snapshots of the range, there are no values. -/
theorem hasBefore_of_forall_not {e : CompactionEvent} (h : ∀ s, ¬ IsSnapshotOf vma row s)
    (he : e.referencedKbBefore = none ∧ e.anonHugepagesKbBefore = none) : HasBefore vma row e :=
  .inr ⟨fun s hs ↦ absurd hs (h s), he⟩

theorem hasAfter_of_forall_not {e : CompactionEvent} (h : ∀ s, ¬ IsSnapshotOf vma row s)
    (he : e.referencedKbAfter = none ∧ e.anonHugepagesKbAfter = none) : HasAfter vma row e :=
  .inr ⟨fun s hs ↦ absurd hs (h s), he⟩

theorem not_isSnapshotOf (h : vma.rows = []) (s : Row Unit) : ¬ IsSnapshotOf vma row s := fun hs ↦
  List.not_mem_nil (h ▸ hs.1)

/-- The entry has no values yet. -/
structure CompactionEvent.Empty (e : CompactionEvent) : Prop where
  before : e.referencedKbBefore = none ∧ e.anonHugepagesKbBefore = none
  after : e.referencedKbAfter = none ∧ e.anonHugepagesKbAfter = none
  freed : e.memoryFreedKb = none

/-- The last of the snapshots at or before a decision, in the order of their times. -/
theorem latestBefore_of_getLast? {rows : List (Row Unit)} {s : Row Unit}
    (hmem : ∀ s, s ∈ rows ↔ IsSnapshotOf vma row s ∧ timeOf s ≤ timeOf row)
    (hsorted : rows.Pairwise fun s s' ↦ timeOf s ≤ timeOf s') (h : rows.getLast? = some s) :
    LatestBefore vma row s := by
  obtain ⟨hs, hle⟩ := (hmem s).1 (List.mem_of_getLast? h)
  exact ⟨hs, hle, fun s' hs' hle' ↦ Steps.le_of_getLast? hsorted h ((hmem s').2 ⟨hs', hle'⟩)⟩

/-- The first of the snapshots after a decision. -/
theorem earliestAfter_of_head? {rows : List (Row Unit)} {s : Row Unit}
    (hmem : ∀ s, s ∈ rows ↔ IsSnapshotOf vma row s ∧ timeOf row < timeOf s)
    (hsorted : rows.Pairwise fun s s' ↦ timeOf s ≤ timeOf s') (h : rows.head? = some s) :
    EarliestAfter vma row s := by
  obtain ⟨hs, hlt⟩ := (hmem s).1 (List.mem_of_head? h)
  exact ⟨hs, hlt, fun s' hs' hlt' ↦ Steps.le_of_head? hsorted h ((hmem s').2 ⟨hs', hlt'⟩)⟩

section Looked

variable {frame : Frame Unit} {rows : List (Row Unit)} {e : CompactionEvent}

/-- **The values before**, from the snapshots of the range up to the decision. -/
theorem exists_withBefore_getLast? (hvma : ∀ s ∈ frame.rows, IntCells snapshotIntColumns s)
    (hmem : ∀ s, s ∈ rows ↔ IsSnapshotOf (some frame) row s ∧ timeOf s ≤ timeOf row)
    (hsorted : rows.Pairwise fun s s' ↦ timeOf s ≤ timeOf s')
    (he : e.referencedKbBefore = none ∧ e.anonHugepagesKbBefore = none) :
    ∃ e', withBefore C frame rows.getLast? e = .ok e' ∧ HasBefore (some frame) row e' ∧
      e' = { e with
        referencedKbBefore := e'.referencedKbBefore
        anonHugepagesKbBefore := e'.anonHugepagesKbBefore
        bloatEstimate := e'.bloatEstimate } := by
  refine exists_withBefore hvma (fun s hs ↦ latestBefore_of_getLast? hmem hsorted hs)
    (fun h s hs ↦ not_le.1 fun hle ↦ ?_) he
  have hin := (hmem s).2 ⟨hs, hle⟩
  rw [List.getLast?_eq_none_iff.1 h] at hin
  exact List.not_mem_nil hin

/-- **The values after**, from the snapshots of the range after the decision. -/
theorem exists_withAfter_head? (hvma : ∀ s ∈ frame.rows, IntCells snapshotIntColumns s)
    (hmem : ∀ s, s ∈ rows ↔ IsSnapshotOf (some frame) row s ∧ timeOf row < timeOf s)
    (hsorted : rows.Pairwise fun s s' ↦ timeOf s ≤ timeOf s')
    (he : e.referencedKbAfter = none ∧ e.anonHugepagesKbAfter = none) :
    ∃ e', withAfter frame rows.head? e = .ok e' ∧ HasAfter (some frame) row e' ∧
      e' = { e with
        referencedKbAfter := e'.referencedKbAfter
        anonHugepagesKbAfter := e'.anonHugepagesKbAfter } := by
  refine exists_withAfter hvma (fun s hs ↦ earliestAfter_of_head? hmem hsorted hs)
    (fun h s hs ↦ not_lt.1 fun hlt ↦ ?_) he
  have hin := (hmem s).2 ⟨hs, hlt⟩
  rw [List.head?_eq_none_iff.1 h] at hin
  exact List.not_mem_nil hin

/-- **The values before and after and the freed memory**, one after the other. -/
theorem exists_withBeforeAfterFreed {rows' : List (Row Unit)}
    (hvma : ∀ s ∈ frame.rows, IntCells snapshotIntColumns s)
    (hmem : ∀ s, s ∈ rows ↔ IsSnapshotOf (some frame) row s ∧ timeOf s ≤ timeOf row)
    (hsorted : rows.Pairwise fun s s' ↦ timeOf s ≤ timeOf s')
    (hmem' : ∀ s, s ∈ rows' ↔ IsSnapshotOf (some frame) row s ∧ timeOf row < timeOf s)
    (hsorted' : rows'.Pairwise fun s s' ↦ timeOf s ≤ timeOf s') (he : e.Empty) :
    ∃ e₁ e₂ e₃, withBefore C frame rows.getLast? e = .ok e₁ ∧
      withAfter frame rows'.head? e₁ = .ok e₂ ∧ withFreed e₂ = .ok e₃ ∧
      HasBefore (some frame) row e₃ ∧ HasAfter (some frame) row e₃ ∧ HasFreed e₃ ∧
      e₃.decision = e.decision ∧ e₃.decisionTsNs = e.decisionTsNs ∧ e₃.pageId = e.pageId := by
  obtain ⟨e₁, h₁, hbefore, heq₁⟩ :=
    exists_withBefore_getLast? (C := C) (e := e) hvma hmem hsorted he.before
  have hempty : e₁.referencedKbAfter = none ∧ e₁.anonHugepagesKbAfter = none := by
    rw [heq₁]
    exact he.after
  obtain ⟨e₂, h₂, hafter, heq₂⟩ := exists_withAfter_head? (e := e₁) hvma hmem' hsorted' hempty
  have hbefore' : HasBefore (some frame) row e₂ := by
    rw [heq₂]
    exact hbefore
  have hfreed : e₂.memoryFreedKb = none := by
    rw [heq₂, heq₁]
    exact he.freed
  obtain ⟨e₃, h₃, hfreed', heq₃⟩ := exists_withFreed hvma hbefore' hafter hfreed
  refine ⟨e₁, e₂, e₃, h₁, h₂, h₃, ?_, ?_, hfreed', ?_⟩
  · rw [heq₃]
    exact hbefore'
  · rw [heq₃]
    exact hafter
  · rw [heq₃, heq₂, heq₁]
    exact ⟨rfl, rfl, rfl⟩

end Looked

/-- **What is looked up for an intervention.** -/
theorem exists_lookUpBeforeAfter {e : CompactionEvent}
    (hvma : ∀ s ∈ vma.rows, IntCells snapshotIntColumns s) (hrow : row ∈ decisions.rows)
    (hint : IntCells decisionIntColumns row) (he : e.Empty) :
    ∃ e', lookUpBeforeAfter C vma decisions row (.int (timeOf row)) e = .ok e' ∧
      HasBefore vma row e' ∧ HasAfter vma row e' ∧ HasFreed e' ∧
      e'.decision = e.decision ∧ e'.decisionTsNs = e.decisionTsNs ∧ e'.pageId = e.pageId := by
  have hnone : (∀ s, ¬ IsSnapshotOf vma row s) → HasBefore vma row e ∧ HasAfter vma row e ∧
      HasFreed e ∧ e.decision = e.decision ∧ e.decisionTsNs = e.decisionTsNs ∧
      e.pageId = e.pageId := fun h ↦
    ⟨hasBefore_of_forall_not h he.before, hasAfter_of_forall_not h he.after,
      .inr ⟨.inl he.before.2, he.freed⟩, rfl, rfl, rfl⟩
  rcases vma with - | vma
  · exact ⟨e, rfl, hnone (not_isSnapshotOf rfl)⟩
  rcases eq_or_ne vma.rows [] with hempty | hne
  · exact ⟨e, if_pos hempty, hnone (not_isSnapshotOf hempty)⟩
  obtain ⟨region, hregion, hmem, hsorted⟩ :=
    exists_regionData (C := C) hvma hne hrow hint fun _ ↦ true
  have hmem' : ∀ s, s ∈ region.rows ↔ IsSnapshotOf (some vma) row s := fun s ↦
    (hmem s).trans (and_iff_left rfl)
  rw [lookUpBeforeAfter]
  simp only [if_neg hne, hregion, bind, Except.bind]
  -- a range without snapshots leaves the event as it is
  split_ifs with hregionempty
  · refine ⟨e, rfl, hnone fun s hs ↦ ?_⟩
    exact List.not_mem_nil (hregionempty ▸ (hmem' s).2 hs)
  · have hts : ∀ s ∈ region.rows, s.cells tsNsColumn = .int (timeOf s) := fun s hs ↦
      cells_tsNsColumn (hvma s ((hmem' s).1 hs).1) (by decide)
    have hbefore : ∀ s, s ∈ region.rows.filter (fun s ↦
        notLater (s.cells tsNsColumn) (.int (timeOf row))) ↔
          IsSnapshotOf (some vma) row s ∧ timeOf s ≤ timeOf row := fun s ↦ by
      rw [List.mem_filter, hmem']
      exact and_congr_right fun hs ↦ notLater_iff (hts s ((hmem' s).2 hs))
    have hafter : ∀ s, s ∈ region.rows.filter (fun s ↦
        isLater (s.cells tsNsColumn) (.int (timeOf row))) ↔
          IsSnapshotOf (some vma) row s ∧ timeOf row < timeOf s := fun s ↦ by
      rw [List.mem_filter, hmem']
      exact and_congr_right fun hs ↦ isLater_iff (hts s ((hmem' s).2 hs))
    obtain ⟨e₁, e₂, e₃, h₁, h₂, h₃, hholds⟩ := exists_withBeforeAfterFreed (C := C) hvma
      hbefore (hsorted.sublist List.filter_sublist) hafter (hsorted.sublist List.filter_sublist) he
    refine ⟨e₃, ?_, hholds⟩
    rw [h₁]
    simp only
    rw [h₂]
    exact h₃

/-- **What is looked up for a candidate.** -/
theorem exists_lookUpBloat {e : CompactionEvent}
    (hvma : ∀ s ∈ vma.rows, IntCells snapshotIntColumns s) (hrow : row ∈ decisions.rows)
    (hint : IntCells decisionIntColumns row) (he : e.Empty) :
    ∃ e', lookUpBloat C vma decisions row (.int (timeOf row)) e = .ok e' ∧
      HasBefore vma row e' ∧ e' = { e with
        referencedKbBefore := e'.referencedKbBefore
        anonHugepagesKbBefore := e'.anonHugepagesKbBefore
        bloatEstimate := e'.bloatEstimate } := by
  have hnone : (∀ s, ¬ IsSnapshotOf vma row s) → HasBefore vma row e := fun h ↦
    hasBefore_of_forall_not h he.before
  rcases vma with - | vma
  · exact ⟨e, rfl, hnone (not_isSnapshotOf rfl), rfl⟩
  rcases eq_or_ne vma.rows [] with hempty | hne
  · exact ⟨e, if_pos hempty, hnone (not_isSnapshotOf hempty), rfl⟩
  obtain ⟨region, hregion, hmem, hsorted⟩ :=
    exists_regionData (C := C) hvma hne hrow hint fun t ↦ notLater t (.int (timeOf row))
  have hmem' : ∀ s, s ∈ region.rows ↔
      IsSnapshotOf (some vma) row s ∧ timeOf s ≤ timeOf row := fun s ↦ by
    refine (hmem s).trans (and_congr_right fun hs ↦ ?_)
    exact notLater_iff (cells_tsNsColumn (hvma s hs.1) (by decide))
  rw [lookUpBloat]
  simp only [if_neg hne, hregion, bind, Except.bind]
  exact exists_withBefore_getLast? hvma hmem' hsorted he.before

/-- What is read of a decision. -/
theorem exists_decision_items (hrow : row ∈ decisions.rows)
    (hint : IntCells decisionIntColumns row) : ∃ n : ℤ,
      row.cells startAddrColumn = .int n ∧
      (item decisions row startAddrColumn).bind hexOf = .ok (PyStr.hex n) ∧
      item decisions row tsNsColumn = .ok (.int (timeOf row)) ∧
      row.cells tsNsColumn = .int (timeOf row) := by
  obtain ⟨m, hm, hstart⟩ := exists_item hrow hint (c := startAddrColumn) List.mem_cons_self
  have hts := cells_tsNsColumn hint (by decide)
  obtain ⟨n, hn, hitem⟩ := exists_item hrow hint (c := tsNsColumn) (by decide)
  refine ⟨m, hm, ?_, ?_, hts⟩
  · rw [hstart]
    rfl
  · rw [hitem, ← hn, hts]

/-- **An intervention has its row**, and nothing raises. -/
theorem exists_breakEvent (hvma : ∀ s ∈ vma.rows, IntCells snapshotIntColumns s)
    (hrow : row ∈ decisions.rows) (hint : IntCells decisionIntColumns row) :
    ∃ e, breakEvent C collectionId benchmark vma decisions row = .ok e ∧ IsBreak vma row e := by
  obtain ⟨n, hn, hhex, hitem, hts⟩ := exists_decision_items hrow hint
  rw [breakEvent, hhex, hitem]
  obtain ⟨e, he, hbefore, hafter, hfreed, hdecision, hat, hpage⟩ :=
    exists_lookUpBeforeAfter (C := C) (e := ⟨collectionId, benchmark, PyStr.hex n,
      .int (timeOf row), .break', .str "intervention".toList,
      itemD decisions row "success".toList (.bool false),
      itemD decisions row "error".toList (.str []),
      itemD decisions row "age_bucket".toList (.str "unknown".toList), none, none, none, none,
      none, none⟩) hvma hrow hint ⟨⟨rfl, rfl⟩, ⟨rfl, rfl⟩, rfl⟩
  exact ⟨e, he, ⟨hdecision, hat.trans hts.symm, n, hn, hpage⟩, hbefore, hafter, hfreed⟩

/-- **A candidate has its row**, and nothing raises. -/
theorem exists_keepEvent (hvma : ∀ s ∈ vma.rows, IntCells snapshotIntColumns s)
    (hrow : row ∈ decisions.rows) (hint : IntCells decisionIntColumns row) :
    ∃ e, keepEvent C collectionId benchmark vma decisions row = .ok e ∧ IsKeep vma row e := by
  obtain ⟨n, hn, hhex, hitem, hts⟩ := exists_decision_items hrow hint
  rw [keepEvent, hhex, hitem]
  obtain ⟨e, he, hbefore, heq⟩ :=
    exists_lookUpBloat (C := C) (e := ⟨collectionId, benchmark, PyStr.hex n, .int (timeOf row),
      .keep, itemD decisions row "candidate_type".toList (.str "unknown".toList), .bool true,
      .str [], .str "unknown".toList, none, none, none, none, none, none⟩)
      hvma hrow hint ⟨⟨rfl, rfl⟩, ⟨rfl, rfl⟩, rfl⟩
  refine ⟨e, he, ⟨?_, ?_, n, hn, ?_⟩, hbefore, ⟨?_, ?_⟩, ?_⟩
  · rw [heq]
  · rw [heq, hts]
  · rw [heq]
  · rw [heq]
  · rw [heq]
  · rw [heq]

end Decisions

/-! ### All rows -/

/-- What the candidates are compared with. -/
theorem mem_intervenedDecisionIds {interventions : Table} {f : Frame Unit} {row : Row Unit}
    (hrow : row ∈ f.rows) :
    itemD f row decisionIdColumn .null ∈ intervenedDecisionIds interventions ↔
      Intervened interventions row := by
  have hitem : itemD f row decisionIdColumn .null = row.cells decisionIdColumn := by
    rw [itemD]
    split_ifs with hcol
    · rfl
    · exact (f.null row hrow _ hcol).symm
  rw [hitem, Intervened]
  rcases interventions with - | g
  · simp [intervenedDecisionIds]
  · rw [intervenedDecisionIds]
    split_ifs with hcol
    · simp [hcol]
    · simp [hcol]

/-- The rows of the interventions. -/
theorem exists_breakRows (C : EventContext) {dir : RunDir Unit} (benchmark collectionId : PyStr)
    (h : EventTables dir) :
    ∃ breaks, breakRows C collectionId benchmark (tryLoad dir smapsVmaTable)
      (tryLoad dir interventionsTable) = .ok breaks ∧
      (Table.rows (tryLoad dir interventionsTable)).Forall₂
        (IsBreak (tryLoad dir smapsVmaTable)) breaks := by
  have hint := h.interventions
  rcases hload : tryLoad dir interventionsTable with - | f
  · exact ⟨[], rfl, .nil⟩
  · rw [hload] at hint
    refine Lists.exists_mapM_forall₂ fun row hrow ↦ ?_
    exact exists_breakEvent h.snapshots hrow (hint row hrow)

/-- The rows of the candidates that no intervention followed. -/
theorem exists_keepRows (C : EventContext) {dir : RunDir Unit} (benchmark collectionId : PyStr)
    (h : EventTables dir) :
    ∃ keeps, keepRows C collectionId benchmark (tryLoad dir smapsVmaTable)
      (tryLoad dir interventionsTable) (tryLoad dir candidatesTable) = .ok keeps ∧
      ((Table.rows (tryLoad dir candidatesTable)).filter fun row ↦
        ¬ Intervened (tryLoad dir interventionsTable) row).Forall₂
          (IsKeep (tryLoad dir smapsVmaTable)) keeps := by
  have hint := h.candidates
  rcases hload : tryLoad dir candidatesTable with - | f
  · exact ⟨[], rfl, .nil⟩
  · rw [hload] at hint
    have hkept : f.rows.filter (fun row ↦ itemD f row decisionIdColumn .null ∉
        intervenedDecisionIds (tryLoad dir interventionsTable)) =
        f.rows.filter fun row ↦ ¬ Intervened (tryLoad dir interventionsTable) row :=
      List.filter_congr fun row hrow ↦
        decide_eq_decide.2 (not_congr (mem_intervenedDecisionIds hrow))
    rw [keepRows, hkept]
    refine Lists.exists_mapM_forall₂ fun row hrow ↦ ?_
    obtain ⟨hrow, -⟩ := List.mem_filter.1 hrow
    exact exists_keepEvent h.snapshots hrow (hint row hrow)

/-- **The compaction events.** Whichever of the tables are there, the rows are a `break` row for
each intervention and then a `keep` row for each candidate whose decision is in no intervention, in
the order of the tables; and there is no result where there is no row. -/
theorem buildCompactionEvents_rows (C : EventContext) (dir : RunDir Unit)
    (benchmark collectionId : PyStr) (h : EventTables dir) :
    ∃ breaks keeps, buildCompactionEvents C dir benchmark collectionId =
        .ok (if breaks ++ keeps = [] then none else some (breaks ++ keeps)) ∧
      (Table.rows (tryLoad dir interventionsTable)).Forall₂
        (IsBreak (tryLoad dir smapsVmaTable)) breaks ∧
      ((Table.rows (tryLoad dir candidatesTable)).filter fun row ↦
        ¬ Intervened (tryLoad dir interventionsTable) row).Forall₂
          (IsKeep (tryLoad dir smapsVmaTable)) keeps := by
  -- the early return for two empty tables is the result for no row
  obtain ⟨breaks, hbreaks, hforallbreaks⟩ := exists_breakRows C benchmark collectionId h
  obtain ⟨keeps, hkeeps, hforallkeeps⟩ := exists_keepRows C benchmark collectionId h
  refine ⟨breaks, keeps, ?_, hforallbreaks, hforallkeeps⟩
  rw [buildCompactionEvents]
  split_ifs with hempty hrows hrows
  · rfl
  · rw [Bool.and_eq_true, Table.isEmpty, Table.isEmpty, List.isEmpty_iff,
      List.isEmpty_iff] at hempty
    rw [hempty.2] at hforallbreaks
    rw [hempty.1] at hforallkeeps
    cases hforallbreaks
    cases hforallkeeps
    exact absurd rfl hrows
  · simp only [hbreaks, hkeeps, bind, Except.bind, if_pos hrows]
    rfl
  · simp only [hbreaks, hkeeps, bind, Except.bind, if_neg hrows]
    rfl

/-- Rows that are sorted stably, and exact quotients. -/
def exactEvents : EventContext where
  engine := .lastKept
  bloat referenced rss := 1 - referenced / rss

/-- Two candidates. -/
def twoCandidates : Frame Unit :=
  .ofRows [decisionIdColumn, tsNsColumn, "candidate_type".toList, startAddrColumn, endAddrColumn]
    (List.cons_ne_nil _ _) (by decide)
    [([.str "d-1".toList, .int 100, .str "scan".toList, .int 0x200000, .int 0x400000], ()),
      ([.str "d-2".toList, .int 120, .str "scan".toList, .int 0x600000, .int 0x800000], ())]

/-- An intervention for the first. -/
def oneIntervention : Frame Unit :=
  .ofRows [decisionIdColumn, tsNsColumn, startAddrColumn, endAddrColumn, "success".toList]
    (List.cons_ne_nil _ _) (by decide)
    [([.str "d-1".toList, .int 110, .int 0x200000, .int 0x400000, .bool true], ())]

/-- Snapshots of its range at the time of the intervention and after it. -/
def twoSnapshots : Frame Unit :=
  .ofRows [tsNsColumn, startAddrColumn, endAddrColumn, rssKbColumn, referencedKbColumn,
      anonHugepagesKbColumn]
    (List.cons_ne_nil _ _) (by decide)
    [([.int 150, .int 0x200000, .int 0x400000, .int 2048, .int 512, .int 0], ()),
      ([.int 110, .int 0x200000, .int 0x400000, .int 2048, .int 1024, .int 2048], ())]

/-- The directory of a run with these tables. -/
def decidedDir : RunDir Unit where
  items := [("thp_candidates.end.parquet".toList, twoCandidates),
    ("thp_interventions.end.parquet".toList, oneIntervention),
    ("smaps_vma_samples.end.parquet".toList, twoSnapshots)]
  nodupKeys := by decide

theorem eventTables_decidedDir : EventTables decidedDir := by
  have hcandidates : ∀ r ∈ Table.rows (tryLoad decidedDir candidatesTable),
      ∀ c ∈ decisionIntColumns, hasInt c r = true := by decide
  have hinterventions : ∀ r ∈ Table.rows (tryLoad decidedDir interventionsTable),
      ∀ c ∈ decisionIntColumns, hasInt c r = true := by decide
  have hsnapshots : ∀ r ∈ Table.rows (tryLoad decidedDir smapsVmaTable),
      ∀ c ∈ snapshotIntColumns, hasInt c r = true := by decide
  exact ⟨fun r hr c hc ↦ exists_of_hasInt (hcandidates r hr c hc),
    fun r hr c hc ↦ exists_of_hasInt (hinterventions r hr c hc),
    fun r hr c hc ↦ exists_of_hasInt (hsnapshots r hr c hc)⟩

/-- A run with one intervention and one candidate that was kept. -/
theorem buildCompactionEvents_decidedDir : ∃ breaks keeps,
    buildCompactionEvents exactEvents decidedDir "redis".toList "run".toList =
      .ok (if breaks ++ keeps = [] then none else some (breaks ++ keeps)) ∧
    (Table.rows (tryLoad decidedDir interventionsTable)).Forall₂
      (IsBreak (tryLoad decidedDir smapsVmaTable)) breaks ∧
    ((Table.rows (tryLoad decidedDir candidatesTable)).filter fun row ↦
      ¬ Intervened (tryLoad decidedDir interventionsTable) row).Forall₂
        (IsKeep (tryLoad decidedDir smapsVmaTable)) keeps :=
  buildCompactionEvents_rows exactEvents decidedDir "redis".toList "run".toList
    eventTables_decidedDir

example : (buildCompactionEvents exactEvents decidedDir "redis".toList "run".toList).toOption.map
    (fun rows ↦ rows.map fun rows ↦ rows.map fun e ↦ (e.decision, e.memoryFreedKb)) =
      some (some [(.break', some (.int 2048)), (.keep, none)]) := by
  decide +kernel

end Analysis
