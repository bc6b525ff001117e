import HugePageResearch.BlkIo.Queue
import HugePageResearch.Library.Distinct
import HugePageResearch.Python.Text

/-!
# The merged table of block I/O

`bpf_instrumentation/blk_io_hook.py` and `data_schema/block_io.py`: the hook buffers the events of
the two outputs, and a pop joins the two buffers into rows of one table and empties them.

`unique` promises nothing about which row of a key it keeps, so that what a pop returns is a
relation. A pop raises where a buffer is empty, since the frame then has no column to rename, and
where a value does not fit its column of 64-bit integers. Every column of the events is one of
integers.

## The result

`chunkInvariant_iff`: over runs in which no pop raises, what can be popped in all is, up to order,
what a single pop could return, exactly where every row that the merge of all events makes is made
by the merge of the buffers at one pop, and no two pops make rows with the same unique key.
-/

namespace BlkIo

open Distinct

/-! ### Events and their handlers -/

structure BlockIOQueueData where
  cpu : ℤ
  device : ℤ
  sector : ℤ
  segments : ℤ
  blockIoBytes : ℤ
  blockIoStartUptimeUs : ℤ
  blockIoFlags : ℕ
  queueLengthSegmentIos : ℤ
  queueLength4kIos : ℤ
  deriving DecidableEq

structure BlockIOLatencyData where
  cpu : ℤ
  device : ℤ
  sector : ℤ
  segments : ℤ
  blockIoBytes : ℤ
  blockIoEndUptimeUs : ℤ
  blockLatencyUs : ℤ
  blockIoLatencyUs : ℤ
  blockIoFlags : ℕ
  deriving DecidableEq

/-- The two buffers. -/
structure BlockIOBPFHook where
  blockIoQueueData : List BlockIOQueueData
  blockIoLatencyData : List BlockIOLatencyData

/-- The sector that the handlers store: -1 in a `u64` is -1. -/
def handledSector (sector : BitVec 64) : ℤ :=
  if sector.toNat = 18446744073709551615 then -1 else sector.toNat

namespace BlockIOBPFHook

def new : BlockIOBPFHook := ⟨[], []⟩

/-- `_queue_event_handler`. -/
def queueEventHandler (h : BlockIOBPFHook) (cpu : ℕ) (event : BlockIoStartPerfEvent) :
    BlockIOBPFHook :=
  { h with blockIoQueueData := h.blockIoQueueData ++ [{
      cpu := cpu
      device := event.device
      sector := handledSector event.sector
      segments := event.segments
      blockIoBytes := event.blockIoBytes
      blockIoStartUptimeUs := event.blockIoStartUptimeUs.toNat
      blockIoFlags := event.blockIoFlags
      queueLengthSegmentIos := event.queueLengthSegments
      queueLength4kIos := event.queueLength4ks }] }

/-- `_latency_event_handler`. -/
def latencyEventHandler (h : BlockIOBPFHook) (cpu : ℕ) (event : BlockIoEndPerfEvent) :
    BlockIOBPFHook :=
  { h with blockIoLatencyData := h.blockIoLatencyData ++ [{
      cpu := cpu
      device := event.device
      sector := handledSector event.sector
      segments := event.segments
      blockIoBytes := event.blockIoBytes
      blockIoEndUptimeUs := event.blockIoEndUptimeUs.toNat
      blockLatencyUs := event.blockLatencyUs.toNat
      blockIoLatencyUs := event.blockIoLatencyUs.toNat
      blockIoFlags := event.blockIoFlags }] }

def clear (_ : BlockIOBPFHook) : BlockIOBPFHook := new

end BlockIOBPFHook

/-! ### Tables -/

/-- The integers of an event, column by column. -/
def BlockIOQueueData.columns (q : BlockIOQueueData) : List ℤ :=
  [q.cpu, q.device, q.sector, q.segments, q.blockIoBytes, q.blockIoStartUptimeUs, q.blockIoFlags,
    q.queueLengthSegmentIos, q.queueLength4kIos]

def BlockIOLatencyData.columns (l : BlockIOLatencyData) : List ℤ :=
  [l.cpu, l.device, l.sector, l.segments, l.blockIoBytes, l.blockIoEndUptimeUs, l.blockLatencyUs,
    l.blockIoLatencyUs, l.blockIoFlags]

/-- A value of `pl.Int64`. -/
def FitsInt64 (z : ℤ) : Prop := -2 ^ 63 ≤ z ∧ z < 2 ^ 63

instance (z : ℤ) : Decidable (FitsInt64 z) := inferInstanceAs (Decidable (_ ∧ _))

/-- A row of a table, with the column that `from_df_id` adds. -/
structure WithId (α : Type*) where
  row : α
  collectionId : PyStr

/-- `from_df_id(pl.DataFrame(events).rename(...), collection_id=...)`, if it does not raise. -/
def fromDfId {α : Type*} (columns : α → List ℤ) (events : List α) (collectionId : PyStr) :
    Option (List (WithId α)) :=
  if events.isEmpty then none
  else if ∀ e ∈ events, ∀ z ∈ columns e, FitsInt64 z then
    some (events.map fun e ↦ ⟨e, collectionId⟩)
  else none

/-! ### The flags as text -/

/-- `req_opf`. -/
def reqOpf : ℕ → Option PyStr
  | 0 => some "Read".toList
  | 1 => some "Write".toList
  | 2 => some "Flush".toList
  | 3 => some "Discard".toList
  | 5 => some "SecureErase".toList
  | 6 => some "ZoneReset".toList
  | 7 => some "WriteSame".toList
  | 9 => some "WriteZeros".toList
  | _ => none

/-- `REQ_OP_BITS`. -/
def reqOpBits : ℕ := 8

/-- The bits that have a name, in the order in which `flags_print` puts them in front. -/
def reqFlags : List (ℕ × PyStr) :=
  [(1 <<< (reqOpBits + 3), "Sync-".toList), (1 <<< (reqOpBits + 4), "Metadata-".toList),
    (1 <<< (reqOpBits + 9), "ForcedUnitAccess-".toList),
    (1 <<< (reqOpBits + 5), "Priority-".toList), (1 <<< (reqOpBits + 6), "NoMerge-".toList),
    (1 <<< (reqOpBits + 7), "Idle-".toList),
    (1 <<< (reqOpBits + 11), "ReadAhead-".toList), (1 <<< (reqOpBits + 12), "Background-".toList),
    (1 <<< (reqOpBits + 13), "NoWait-".toList)]

/-- `flags_print`. -/
def flagsPrint (flags : ℕ) : PyStr :=
  reqFlags.foldl (fun desc f ↦ if flags &&& f.1 ≠ 0 then f.2 ++ desc else desc)
    ((reqOpf (flags &&& (1 <<< reqOpBits - 1))).getD "Unknown".toList)

/-! ### The merge -/

/-- A row of the join. -/
structure MergedIo where
  cpu : ℤ
  device : ℤ
  sector : ℤ
  segments : ℤ
  blockIoBytes : ℤ
  uptimeTimestamp : ℤ
  blockIoFlags : ℕ
  queueLengthSegmentIos : ℤ
  queueLength4kIos : ℤ
  collectionId : PyStr
  finishTsUptimeUs : ℤ
  blockLatencyUs : ℤ
  blockIoLatencyUs : ℤ
  deriving DecidableEq

/-- A row of `BlockIOTable`. -/
structure BlockIORow extends MergedIo where
  measuredLatencyUs : ℤ
  blockIoFlagsString : PyStr
  deriving DecidableEq

/-- The columns `on` which the tables are joined are equal. -/
def JoinsOn (q : WithId BlockIOQueueData) (l : WithId BlockIOLatencyData) : Prop :=
  q.row.device = l.row.device ∧ q.row.sector = l.row.sector ∧ q.row.segments = l.row.segments ∧
    q.row.blockIoBytes = l.row.blockIoBytes ∧ q.row.blockIoFlags = l.row.blockIoFlags ∧
      q.collectionId = l.collectionId

instance (q : WithId BlockIOQueueData) (l : WithId BlockIOLatencyData) : Decidable (JoinsOn q l) :=
  inferInstanceAs (Decidable (_ ∧ _))

/-- The row that the join makes of two. -/
def joinRow (q : WithId BlockIOQueueData) (l : WithId BlockIOLatencyData) : MergedIo where
  cpu := q.row.cpu
  device := q.row.device
  sector := q.row.sector
  segments := q.row.segments
  blockIoBytes := q.row.blockIoBytes
  uptimeTimestamp := q.row.blockIoStartUptimeUs
  blockIoFlags := q.row.blockIoFlags
  queueLengthSegmentIos := q.row.queueLengthSegmentIos
  queueLength4kIos := q.row.queueLength4kIos
  collectionId := q.collectionId
  finishTsUptimeUs := l.row.blockIoEndUptimeUs
  blockLatencyUs := l.row.blockLatencyUs
  blockIoLatencyUs := l.row.blockIoLatencyUs

/-- The filter on the time between the two events. -/
def Plausible (r : MergedIo) : Prop :=
  r.finishTsUptimeUs - r.uptimeTimestamp > 0 ∧
    r.finishTsUptimeUs - r.uptimeTimestamp < r.blockLatencyUs

instance (r : MergedIo) : Decidable (Plausible r) := inferInstanceAs (Decidable (_ ∧ _))

/-- `block_df`: the join of the two tables, filtered. -/
def blockDf (queueTable : List (WithId BlockIOQueueData))
    (latencyTable : List (WithId BlockIOLatencyData)) : List MergedIo :=
  (queueTable.flatMap fun q ↦ (latencyTable.filter fun l ↦ JoinsOn q l).map (joinRow q)).filter
    fun r ↦ Plausible r

/-- The columns of which `unique` keeps one row each. -/
structure UniqueKey where
  cpu : ℤ
  device : ℤ
  sector : ℤ
  segments : ℤ
  blockIoBytes : ℤ
  uptimeTimestamp : ℤ
  blockIoFlags : ℕ
  deriving DecidableEq

def uniqueKey (r : MergedIo) : UniqueKey :=
  ⟨r.cpu, r.device, r.sector, r.segments, r.blockIoBytes, r.uptimeTimestamp, r.blockIoFlags⟩

/-- `with_columns`. -/
def withColumns (r : MergedIo) : BlockIORow :=
  { r with
    measuredLatencyUs := r.finishTsUptimeUs - r.uptimeTimestamp
    blockIoFlagsString := flagsPrint r.blockIoFlags }

/-- The tables that `from_tables` can return. -/
def FromTables (queueTable : List (WithId BlockIOQueueData))
    (latencyTable : List (WithId BlockIOLatencyData)) (table : List BlockIORow) : Prop :=
  ∃ picks, OneOfEach uniqueKey (blockDf queueTable latencyTable) picks ∧
    table.Perm (picks.map withColumns) ∧
      table.Pairwise fun r s ↦ r.uptimeTimestamp ≤ s.uptimeTimestamp

/-- The tables that `data` can return. -/
def BlockIOBPFHook.Data (h : BlockIOBPFHook) (collectionId : PyStr) (table : List BlockIORow) :
    Prop :=
  ∃ latencyTable queueTable,
    fromDfId BlockIOLatencyData.columns h.blockIoLatencyData collectionId = some latencyTable ∧
    fromDfId BlockIOQueueData.columns h.blockIoQueueData collectionId = some queueTable ∧
      FromTables queueTable latencyTable table

/-! ### Runs -/

/-- What is delivered to the hook, and a call of `pop_data`. -/
inductive HookEvent where
  | queue (cpu : ℕ) (event : BlockIoStartPerfEvent)
  | latency (cpu : ℕ) (event : BlockIoEndPerfEvent)
  | pop

/-- **What can be popped in all**: the rows of the popped tables, one table after the other. There
is nothing for a run in which a pop raises. -/
inductive Popped (collectionId : PyStr) :
    BlockIOBPFHook → List HookEvent → List BlockIORow → Prop where
  | nil {h} : Popped collectionId h [] []
  | queue {h cpu event es rows}
    (hes : Popped collectionId (h.queueEventHandler cpu event) es rows) :
    Popped collectionId h (.queue cpu event :: es) rows
  | latency {h cpu event es rows}
    (hes : Popped collectionId (h.latencyEventHandler cpu event) es rows) :
    Popped collectionId h (.latency cpu event :: es) rows
  | pop {h table es rows} (hdata : h.Data collectionId table)
    (hes : Popped collectionId h.clear es rows) : Popped collectionId h (.pop :: es) (table ++ rows)

/-- The hook after the events of a run, if there had been no pop. -/
def deliver (h : BlockIOBPFHook) : List HookEvent → BlockIOBPFHook
  | [] => h
  | .queue cpu event :: es => deliver (h.queueEventHandler cpu event) es
  | .latency cpu event :: es => deliver (h.latencyEventHandler cpu event) es
  | .pop :: es => deliver h es

/-- **Chunk invariance**: what can be popped in all is, up to order, what a single pop after all the
events can return. -/
def ChunkInvariant (collectionId : PyStr) (es : List HookEvent) : Prop :=
  ∀ rows, (∃ popped, Popped collectionId .new es popped ∧ popped.Perm rows) ↔
    ∃ table, (deliver .new es).Data collectionId table ∧ table.Perm rows

/-- The hook at each pop of a run. -/
def chunks (h : BlockIOBPFHook) : List HookEvent → List BlockIOBPFHook
  | [] => []
  | .queue cpu event :: es => chunks (h.queueEventHandler cpu event) es
  | .latency cpu event :: es => chunks (h.latencyEventHandler cpu event) es
  | .pop :: es => h :: chunks h.clear es

/-- The rows that the merge makes of the buffers, before `unique`. -/
def BlockIOBPFHook.merged (collectionId : PyStr) (h : BlockIOBPFHook) : List MergedIo :=
  blockDf (h.blockIoQueueData.map fun q ↦ ⟨q, collectionId⟩)
    (h.blockIoLatencyData.map fun l ↦ ⟨l, collectionId⟩)

/-! ### What a pop can return -/

variable {collectionId : PyStr} {h k : BlockIOBPFHook} {es : List HookEvent}
  {table rows popped : List BlockIORow} {picks picks' : List MergedIo}

theorem fromDfId_eq_some {α : Type*} {columns : α → List ℤ} {events : List α}
    {ts : List (WithId α)} (h : fromDfId columns events collectionId = some ts) :
    ts = events.map fun e ↦ ⟨e, collectionId⟩ := by
  rw [fromDfId] at h
  split_ifs at h
  exact (Option.some.inj h).symm

/-- **A table that a pop can return** has one row of each key among those of the merge. -/
theorem BlockIOBPFHook.Data.exists_picks (hd : h.Data collectionId table) :
    ∃ picks, OneOfEach uniqueKey (h.merged collectionId) picks ∧
      table.Perm (picks.map withColumns) := by
  obtain ⟨latencyTable, queueTable, hl, hq, picks, hpicks, hperm, -⟩ := hd
  rw [fromDfId_eq_some hl, fromDfId_eq_some hq] at hpicks
  exact ⟨picks, hpicks, hperm⟩

/-- `data` does not raise. -/
def BlockIOBPFHook.Returns (h : BlockIOBPFHook) (collectionId : PyStr) : Prop :=
  (fromDfId BlockIOLatencyData.columns h.blockIoLatencyData collectionId).isSome ∧
    (fromDfId BlockIOQueueData.columns h.blockIoQueueData collectionId).isSome

instance : Decidable (h.Returns collectionId) := inferInstanceAs (Decidable (_ ∧ _))

theorem BlockIOBPFHook.Data.returns (hd : h.Data collectionId table) : h.Returns collectionId := by
  obtain ⟨latencyTable, queueTable, hl, hq, -⟩ := hd
  exact ⟨Option.isSome_iff_exists.2 ⟨_, hl⟩, Option.isSome_iff_exists.2 ⟨_, hq⟩⟩

/-- **Every way to keep one row of each key** can be the table. -/
theorem exists_fromTables {queueTable : List (WithId BlockIOQueueData)}
    {latencyTable : List (WithId BlockIOLatencyData)}
    (hpicks : OneOfEach uniqueKey (blockDf queueTable latencyTable) picks) :
    ∃ table, FromTables queueTable latencyTable table ∧ table.Perm (picks.map withColumns) := by
  -- sorting puts the rows in an order in which they can be returned
  let le : BlockIORow → BlockIORow → Bool := fun r s ↦ r.uptimeTimestamp ≤ s.uptimeTimestamp
  have hsorted : ((picks.map withColumns).mergeSort le).Pairwise fun r s ↦ le r s :=
    List.pairwise_mergeSort (fun a b c hab hbc ↦ decide_eq_true
        ((of_decide_eq_true hab).trans (of_decide_eq_true hbc)))
      (fun a b ↦ by simpa [le] using le_total _ _) _
  exact ⟨(picks.map withColumns).mergeSort le, ⟨picks, hpicks, List.mergeSort_perm _ _,
    hsorted.imp of_decide_eq_true⟩, List.mergeSort_perm _ _⟩

/-- Where a pop does not raise, every way to keep one row of each key can be returned. -/
theorem BlockIOBPFHook.Returns.of_picks (hr : h.Returns collectionId)
    (hpicks : OneOfEach uniqueKey (h.merged collectionId) picks) :
    ∃ table, h.Data collectionId table ∧ table.Perm (picks.map withColumns) := by
  obtain ⟨latencyTable, hl⟩ := Option.isSome_iff_exists.1 hr.1
  obtain ⟨queueTable, hq⟩ := Option.isSome_iff_exists.1 hr.2
  rw [BlockIOBPFHook.merged, ← fromDfId_eq_some hl, ← fromDfId_eq_some hq] at hpicks
  obtain ⟨table, htable, hperm⟩ := exists_fromTables hpicks
  exact ⟨table, ⟨latencyTable, queueTable, hl, hq, htable⟩, hperm⟩

theorem BlockIOBPFHook.Returns.exists_data (hr : h.Returns collectionId) :
    ∃ table, h.Data collectionId table := by
  obtain ⟨picks, hpicks⟩ := exists_oneOfEach uniqueKey (h.merged collectionId)
  obtain ⟨table, htable, -⟩ := hr.of_picks hpicks
  exact ⟨table, htable⟩

/-- The columns that are added do not hide anything. -/
theorem perm_of_map_withColumns (hp : (picks.map withColumns).Perm (picks'.map withColumns)) :
    picks.Perm picks' := by
  have := hp.map BlockIORow.toMergedIo
  rw [List.map_map, List.map_map] at this
  simpa only [Function.comp_def, withColumns, List.map_id'] using this

/-! ### What a run can pop -/

/-- The merges of the buffers at the pops of a run. -/
def mergedChunks (collectionId : PyStr) (h : BlockIOBPFHook) (es : List HookEvent) :
    List (List MergedIo) :=
  (chunks h es).map (BlockIOBPFHook.merged collectionId)

/-- **What is popped in all** is picked from the merges at the pops. -/
theorem Popped.picksOfChunks (hp : Popped collectionId h es popped) :
    ∃ picks, PicksOfChunks uniqueKey (mergedChunks collectionId h es) picks ∧
      popped.Perm (picks.map withColumns) := by
  induction hp with
  | nil => exact ⟨[], ⟨[], .nil, .nil⟩, .nil⟩
  | queue _ ih => exact ih
  | latency _ ih => exact ih
  | pop hdata _ ih =>
    obtain ⟨ps, hps, htable⟩ := hdata.exists_picks
    obtain ⟨picks, ⟨pss, hpss, hflat⟩, hrows⟩ := ih
    refine ⟨ps ++ picks, ⟨ps :: pss, .cons hps hpss, hflat.append_left ps⟩, ?_⟩
    rw [List.map_append]
    exact htable.append hrows

/-- Where no pop raises, all that can be picked from the merges at the pops can be popped. -/
theorem Popped.of_picks (hp : Popped collectionId h es popped)
    (hpicks : PicksOfChunks uniqueKey (mergedChunks collectionId h es) picks) :
    ∃ popped', Popped collectionId h es popped' ∧ popped'.Perm (picks.map withColumns) := by
  induction hp generalizing picks with
  | nil =>
    obtain ⟨pss, hpss, hflat⟩ := hpicks
    cases hpss
    obtain rfl := List.nil_perm.1 hflat
    exact ⟨[], .nil, .nil⟩
  | queue _ ih =>
    obtain ⟨popped', hp', hperm⟩ := ih hpicks
    exact ⟨popped', .queue hp', hperm⟩
  | latency _ ih =>
    obtain ⟨popped', hp', hperm⟩ := ih hpicks
    exact ⟨popped', .latency hp', hperm⟩
  | pop hdata _ ih =>
    obtain ⟨pss, hpss, hflat⟩ := hpicks
    cases hpss with
    | @cons _ ps _ pss hps hpss =>
      obtain ⟨table, htable, hperm⟩ := hdata.returns.of_picks hps
      obtain ⟨popped', hp', hperm'⟩ := ih ⟨pss, hpss, .refl _⟩
      refine ⟨table ++ popped', .pop htable hp', (hperm.append hperm').trans ?_⟩
      rw [← List.map_append]
      exact hflat.map withColumns

/-- A run goes through where no pop raises. -/
theorem exists_popped (collectionId : PyStr) (h : BlockIOBPFHook) (es : List HookEvent)
    (hr : ∀ k ∈ chunks h es, k.Returns collectionId) :
    ∃ popped, Popped collectionId h es popped := by
  induction es generalizing h with
  | nil => exact ⟨[], .nil⟩
  | cons e es ih =>
    cases e with
    | queue cpu event => exact (ih _ hr).imp fun _ hp ↦ .queue hp
    | latency cpu event => exact (ih _ hr).imp fun _ hp ↦ .latency hp
    | pop =>
      obtain ⟨hh, hr⟩ := List.forall_mem_cons.1 hr
      obtain ⟨table, htable⟩ := hh.exists_data
      exact (ih _ hr).imp' (table ++ ·) fun _ hp ↦ .pop htable hp

/-! ### Chunks and the whole -/

/-- What one hook has buffered, another has. -/
def Within (h k : BlockIOBPFHook) : Prop :=
  h.blockIoQueueData ⊆ k.blockIoQueueData ∧ h.blockIoLatencyData ⊆ k.blockIoLatencyData

theorem Within.merged (hw : Within h k) : h.merged collectionId ⊆ k.merged collectionId := by
  intro r hr
  rw [BlockIOBPFHook.merged, blockDf, List.mem_filter, List.mem_flatMap] at hr ⊢
  obtain ⟨⟨q, hq, hr⟩, hplausible⟩ := hr
  obtain ⟨l, hl, rfl⟩ := List.mem_map.1 hr
  obtain ⟨hl, hjoins⟩ := List.mem_filter.1 hl
  exact ⟨⟨q, List.map_subset _ hw.1 hq, List.mem_map.2
    ⟨l, List.mem_filter.2 ⟨List.map_subset _ hw.2 hl, hjoins⟩, rfl⟩⟩, hplausible⟩

theorem Within.deliver (hw : Within h k) (es : List HookEvent) :
    Within (deliver h es) (BlkIo.deliver k es) := by
  induction es generalizing h k with
  | nil => exact hw
  | cons e es ih =>
    cases e with
    | queue cpu event => exact ih ⟨List.append_subset.2 ⟨List.subset_append_of_subset_left _ hw.1,
        List.subset_append_right _ _⟩, hw.2⟩
    | latency cpu event => exact ih ⟨hw.1, List.append_subset.2
        ⟨List.subset_append_of_subset_left _ hw.2, List.subset_append_right _ _⟩⟩
    | pop => exact ih hw

theorem Within.trans {l : BlockIOBPFHook} (hw : Within h k) (hw' : Within k l) : Within h l :=
  ⟨List.Subset.trans hw.1 hw'.1, List.Subset.trans hw.2 hw'.2⟩

theorem within_deliver (h : BlockIOBPFHook) (es : List HookEvent) : Within h (deliver h es) := by
  induction es generalizing h with
  | nil => exact ⟨List.Subset.refl _, List.Subset.refl _⟩
  | cons e es ih =>
    cases e with
    | queue cpu event =>
      have hw : Within h (h.queueEventHandler cpu event) :=
        ⟨List.subset_append_left _ _, List.Subset.refl _⟩
      exact hw.trans (ih _)
    | latency cpu event =>
      have hw : Within h (h.latencyEventHandler cpu event) :=
        ⟨List.Subset.refl _, List.subset_append_left _ _⟩
      exact hw.trans (ih _)
    | pop => exact ih h

/-- **The buffers at a pop** are part of what is delivered. -/
theorem within_of_mem_chunks (hk : k ∈ chunks h es) : Within k (deliver h es) := by
  induction es generalizing h with
  | nil => cases hk
  | cons e es ih =>
    cases e with
    | queue cpu event => exact ih hk
    | latency cpu event => exact ih hk
    | pop =>
      rcases List.mem_cons.1 hk with rfl | hk
      · exact within_deliver k es
      · have hnew : Within .new h := ⟨List.nil_subset _, List.nil_subset _⟩
        exact (ih hk).trans (hnew.deliver es)

theorem flatten_mergedChunks_subset (collectionId : PyStr) (h : BlockIOBPFHook)
    (es : List HookEvent) :
    (mergedChunks collectionId h es).flatten ⊆ (deliver h es).merged collectionId := by
  intro r hr
  obtain ⟨rs, hrs, hr⟩ := List.mem_flatten.1 hr
  obtain ⟨k, hk, rfl⟩ := List.mem_map.1 hrs
  exact (within_of_mem_chunks hk).merged hr

/-- **Chunk invariance in terms of what is picked.** -/
theorem chunkInvariant_iff_picks (hpops : ∃ popped, Popped collectionId .new es popped)
    (hall : ∃ table, (deliver .new es).Data collectionId table) :
    ChunkInvariant collectionId es ↔
      ∀ picks, PicksOfChunks uniqueKey (mergedChunks collectionId .new es) picks ↔
        OneOfEach uniqueKey ((deliver .new es).merged collectionId) picks := by
  obtain ⟨popped₀, hpops⟩ := hpops
  obtain ⟨table₀, hall⟩ := hall
  constructor
  · intro hinv picks
    constructor
    · intro hpicks
      obtain ⟨popped, hpopped, hperm⟩ := hpops.of_picks hpicks
      obtain ⟨table, htable, hperm'⟩ := (hinv _).1 ⟨popped, hpopped, hperm⟩
      obtain ⟨picks', hpicks', hrows⟩ := htable.exists_picks
      exact hpicks'.perm (perm_of_map_withColumns (hrows.symm.trans hperm'))
    · intro hpicks
      obtain ⟨table, htable, hperm⟩ := hall.returns.of_picks hpicks
      obtain ⟨popped, hpopped, hperm'⟩ := (hinv _).2 ⟨table, htable, hperm⟩
      obtain ⟨picks', ⟨pss, hpss, hflat⟩, hrows⟩ := hpopped.picksOfChunks
      exact ⟨pss, hpss, hflat.trans (perm_of_map_withColumns (hrows.symm.trans hperm'))⟩
  · intro hpicks rows
    constructor
    · rintro ⟨popped, hpopped, hperm⟩
      obtain ⟨picks, hp, hrows⟩ := hpopped.picksOfChunks
      obtain ⟨table, htable, hperm'⟩ := hall.returns.of_picks ((hpicks picks).1 hp)
      exact ⟨table, htable, hperm'.trans (hrows.symm.trans hperm)⟩
    · rintro ⟨table, htable, hperm⟩
      obtain ⟨picks, hp, hrows⟩ := htable.exists_picks
      obtain ⟨popped, hpopped, hperm'⟩ := hpops.of_picks ((hpicks picks).2 hp)
      exact ⟨popped, hpopped, hperm'.trans (hrows.symm.trans hperm)⟩

/-- **When the pops of a run amount to a single one**: every row that the merge of all the events
makes is made by the merge at one pop, and no two pops make rows with the same unique key. -/
theorem chunkInvariant_iff (hpops : ∃ popped, Popped collectionId .new es popped)
    (hall : ∃ table, (deliver .new es).Data collectionId table) :
    ChunkInvariant collectionId es ↔
      (deliver .new es).merged collectionId ⊆ (mergedChunks collectionId .new es).flatten ∧
        (mergedChunks collectionId .new es).Pairwise (Apart uniqueKey) :=
  (chunkInvariant_iff_picks hpops hall).trans
    (picksOfChunks_iff (flatten_mergedChunks_subset collectionId .new es))

/-! ### Examples -/

/-- A read of one sector is issued. -/
def startEvent (sector us : BitVec 64) : HookEvent :=
  .queue 0 ⟨8388608, sector, 1, 4096, us, 0, 1, 1⟩

/-- It is completed, with a latency of one millisecond. -/
def endEvent (sector us : BitVec 64) : HookEvent :=
  .latency 0 ⟨8388608, sector, 1, 4096, us, 1000, 900, 0⟩

/-- Both events of each read are delivered before the next pop. -/
def whole : List HookEvent :=
  [startEvent 16 100, endEvent 16 600, .pop, startEvent 24 700, endEvent 24 800, .pop]

/-- A pop falls between the two events of the second read. -/
def cut : List HookEvent :=
  [startEvent 16 100, startEvent 24 200, endEvent 16 600, .pop, startEvent 32 700, endEvent 24 800,
    endEvent 32 1200, .pop]

/-- Where no pop falls between the events of a read, the pops amount to a single one. -/
theorem chunkInvariant_iff_whole : ChunkInvariant [] whole := by
  have hpops := exists_popped [] .new whole (by decide +kernel)
  have hall : ((deliver .new whole).Returns []) := by decide +kernel
  refine (chunkInvariant_iff hpops hall.exists_data).2 ⟨?_, ?_⟩
  · show ∀ r ∈ (deliver .new whole).merged [], r ∈ (mergedChunks [] .new whole).flatten
    decide +kernel
  · decide +kernel

/-- The row of the second read is in no popped table. -/
theorem not_chunkInvariant_cut : (∃ popped, Popped [] .new cut popped) ∧
    (∃ table, (deliver .new cut).Data [] table) ∧ ¬ ChunkInvariant [] cut := by
  have hpops := exists_popped [] .new cut (by decide +kernel)
  have hall : ((deliver .new cut).Returns []) := by decide +kernel
  refine ⟨hpops, hall.exists_data, fun hinv ↦ ?_⟩
  have hpicks := (chunkInvariant_iff_picks hpops hall.exists_data).1 hinv
  have hsub := ((picksOfChunks_iff (flatten_mergedChunks_subset [] .new cut)).1 hpicks).1
  have hnot : ¬ ∀ r ∈ (deliver .new cut).merged [], r ∈ (mergedChunks [] .new cut).flatten := by
    decide +kernel
  exact hnot fun r hr ↦ hsub hr

end BlkIo
