import HugePageResearch.BlkIo.Merge
import Mathlib.Data.List.Pairwise

/-!
# Which issue is paired with which completion

`BlockIOTable.from_tables` of `data_schema/block_io.py`, a "best effort merged table": the two
events of an I/O carry no common identity. Every issue is joined with every completion of the same
key, and a pair is believed where the time between them is positive and less than the latency that
the completion reports. The events are those of the probes of `bpf/blk_io.bpf.c`.

## The result

`fromTables_pairsOwn_iff`: of I/Os that do not overlap where they have the same key, each one has
exactly one row, made of its own two events, exactly where the time of each is believed and no
completion can be taken for that of an earlier I/O of its key.
-/

namespace BlkIo

open Distinct

/-! ### I/Os and their events -/

/-- A block I/O, with the times at which it is started, issued and completed. -/
structure BlockIo where
  request : Request
  /-- The cpu on which it is issued. -/
  issueCpu : ℕ
  /-- The cpu on which it is completed. -/
  completeCpu : ℕ
  /-- What the probe read of the lengths of the queue. -/
  queueLengthSegments : ℤ
  queueLength4ks : ℤ
  startNs : BitVec 64
  /-- `io_start_time_ns`. -/
  ioStartNs : BitVec 64
  issueNs : BitVec 64
  completeNs : BitVec 64
  start_le : startNs ≤ issueNs
  issue_le : issueNs ≤ completeNs

/-- What `_queue_event_handler` appends. -/
def queueData (cpu : ℕ) (event : BlockIoStartPerfEvent) : BlockIOQueueData where
  cpu := cpu
  device := event.device
  sector := handledSector event.sector
  segments := event.segments
  blockIoBytes := event.blockIoBytes
  blockIoStartUptimeUs := event.blockIoStartUptimeUs.toNat
  blockIoFlags := event.blockIoFlags
  queueLengthSegmentIos := event.queueLengthSegments
  queueLength4kIos := event.queueLength4ks

/-- What `_latency_event_handler` appends. -/
def latencyData (cpu : ℕ) (event : BlockIoEndPerfEvent) : BlockIOLatencyData where
  cpu := cpu
  device := event.device
  sector := handledSector event.sector
  segments := event.segments
  blockIoBytes := event.blockIoBytes
  blockIoEndUptimeUs := event.blockIoEndUptimeUs.toNat
  blockLatencyUs := event.blockLatencyUs.toNat
  blockIoLatencyUs := event.blockIoLatencyUs.toNat
  blockIoFlags := event.blockIoFlags

theorem queueEventHandler_eq (h : BlockIOBPFHook) (cpu : ℕ) (event : BlockIoStartPerfEvent) :
    (h.queueEventHandler cpu event).blockIoQueueData =
      h.blockIoQueueData ++ [queueData cpu event] := rfl

theorem latencyEventHandler_eq (h : BlockIOBPFHook) (cpu : ℕ) (event : BlockIoEndPerfEvent) :
    (h.latencyEventHandler cpu event).blockIoLatencyData =
      h.blockIoLatencyData ++ [latencyData cpu event] := rfl

namespace BlockIo

variable (io : BlockIo)

/-- The event that `block_rq_issue` submits. -/
def startEvent : BlockIoStartPerfEvent where
  device := ddevt io.request
  sector := io.request.sector
  segments := blkRqNrPhysSegmentsDup io.request
  blockIoBytes := io.request.dataLen.toNat
  blockIoStartUptimeUs := io.issueNs / 1000
  blockIoFlags := io.request.cmdFlags.toNat
  queueLengthSegments := io.queueLengthSegments
  queueLength4ks := io.queueLength4ks

/-- The event that `block_rq_complete` submits. -/
def endEvent : BlockIoEndPerfEvent where
  device := ddevt io.request
  sector := io.request.sector
  segments := blkRqNrPhysSegmentsDup io.request
  blockIoBytes := io.request.dataLen.toNat
  blockIoEndUptimeUs := io.completeNs / 1000
  blockLatencyUs := (io.completeNs - io.startNs) / 1000
  blockIoLatencyUs := (io.completeNs - io.ioStartNs) / 1000
  blockIoFlags := io.request.cmdFlags.toNat

/-- Two I/Os that the join cannot tell apart. -/
def SameKey (io io' : BlockIo) : Prop :=
  ddevt io.request = ddevt io'.request ∧ io.request.sector = io'.request.sector ∧
    blkRqNrPhysSegmentsDup io.request = blkRqNrPhysSegmentsDup io'.request ∧
      io.request.dataLen = io'.request.dataLen ∧ io.request.cmdFlags = io'.request.cmdFlags

instance (io io' : BlockIo) : Decidable (SameKey io io') := inferInstanceAs (Decidable (_ ∧ _))

theorem SameKey.refl (io : BlockIo) : io.SameKey io := ⟨rfl, rfl, rfl, rfl, rfl⟩

theorem SameKey.symm {io io' : BlockIo} (h : io.SameKey io') : io'.SameKey io :=
  ⟨h.1.symm, h.2.1.symm, h.2.2.1.symm, h.2.2.2.1.symm, h.2.2.2.2.symm⟩

/-- The time of the issue, in whole microseconds. -/
def issueUs : ℕ := io.issueNs.toNat / 1000

/-- The time of the completion, in whole microseconds. -/
def completeUs : ℕ := io.completeNs.toNat / 1000

/-- The time from the start to the completion, in whole microseconds. -/
def latencyUs : ℕ := (io.completeNs.toNat - io.startNs.toNat) / 1000

variable (collectionId : PyStr)

/-- The row of its issue. -/
def queueRow : WithId BlockIOQueueData := ⟨queueData io.issueCpu io.startEvent, collectionId⟩

/-- The row of its completion. -/
def latencyRow : WithId BlockIOLatencyData :=
  ⟨latencyData io.completeCpu io.endEvent, collectionId⟩

/-- The row of an issue and a completion. -/
def paired (io io' : BlockIo) : MergedIo :=
  joinRow (io.queueRow collectionId) (io'.latencyRow collectionId)

/-- **The row of an I/O**: its issue and its own completion. -/
def row : BlockIORow where
  toMergedIo := io.paired collectionId io
  measuredLatencyUs := io.completeUs - io.issueUs
  blockIoFlagsString := flagsPrint io.request.cmdFlags.toNat

end BlockIo

/-- `block_rq_issue` submits nothing, where it keeps no lengths of the device, or the event of the
I/O. -/
theorem blockIoStarts_blockRqIssue (io : BlockIo) (m : Maps) :
    (blockRqIssue io.request io.issueNs m).blockIoStarts = m.blockIoStarts ∨
      ∃ segments units, (blockRqIssue io.request io.issueNs m).blockIoStarts = m.blockIoStarts ++
        [{ io with queueLengthSegments := segments, queueLength4ks := units }.startEvent] := by
  rw [blockRqIssue]
  rcases Hash.lookupOrTryInit defaultHashSize m.deviceQueue (ddevt io.request) ⟨0, 0⟩ with
    ⟨- | q, queue⟩
  · exact Or.inl rfl
  · exact Or.inr ⟨s32 (q.queueLengthSegments + blkRqNrPhysSegmentsDup io.request),
      s32 (q.queueLength4ks + block4kIos io.request.dataLen), rfl⟩

/-- `block_rq_complete` submits the event of the I/O. -/
theorem blockIoEnds_blockRqComplete (io : BlockIo) (m : Maps) :
    (blockRqComplete io.request io.completeNs io.startNs io.ioStartNs m).blockIoEnds =
      m.blockIoEnds ++ [io.endEvent] := by
  rw [blockRqComplete]
  dsimp only
  rcases m.deviceQueue.get? (ddevt io.request) with - | q
  · rfl
  · rcases m.started4kIos.get? (startKey io.request) with - | v
    · rfl
    · rfl

/-! ### Rows of their own, and when there are -/

/-- I/Os with the same key come one after the other: the later one is issued when the earlier one is
completed. -/
def InTurn (ios : List BlockIo) : Prop :=
  ios.Pairwise fun io io' ↦ io.SameKey io' → io.completeNs ≤ io'.issueNs

instance (ios : List BlockIo) : Decidable (InTurn ios) :=
  inferInstanceAs (Decidable (List.Pairwise _ _))

/-- **Each I/O has one row**, that of its own two events, in every table that can be returned. -/
def PairsOwn (collectionId : PyStr) (ios : List BlockIo)
    (queueTable : List (WithId BlockIOQueueData))
    (latencyTable : List (WithId BlockIOLatencyData)) : Prop :=
  ∀ table, FromTables queueTable latencyTable table →
    table.Perm (ios.map fun io ↦ io.row collectionId)

/-- **The condition**: the time of each I/O is believed, and that of no pair of an issue and a later
completion of its key. -/
structure Separable (ios : List BlockIo) : Prop where
  own : ∀ io ∈ ios, io.issueUs < io.completeUs ∧ io.completeUs < io.issueUs + io.latencyUs
  later : ios.Pairwise fun io io' ↦ io.SameKey io' → io.issueUs + io'.latencyUs ≤ io'.completeUs

/-! ### Times -/

namespace BlockIo

variable (io : BlockIo)

theorem start_le_complete : io.startNs ≤ io.completeNs :=
  BitVec.le_def.2 ((BitVec.le_def.1 io.start_le).trans (BitVec.le_def.1 io.issue_le))

theorem toNat_issueUs : (io.issueNs / 1000).toNat = io.issueUs := by
  rw [BitVec.toNat_udiv]
  rfl

theorem toNat_completeUs : (io.completeNs / 1000).toNat = io.completeUs := by
  rw [BitVec.toNat_udiv]
  rfl

theorem toNat_latencyUs : ((io.completeNs - io.startNs) / 1000).toNat = io.latencyUs := by
  rw [BitVec.toNat_udiv, BitVec.toNat_sub_of_le io.start_le_complete]
  rfl

end BlockIo

/-- The handlers do not hide the sector. -/
theorem handledSector_inj {s s' : BitVec 64} : handledSector s = handledSector s' ↔ s = s' := by
  constructor
  · intro h
    refine BitVec.eq_of_toNat_eq ?_
    rw [handledSector, handledSector] at h
    split_ifs at h <;> omega
  · exact congrArg _

section Pairs

variable {io io' : BlockIo} {collectionId : PyStr}

/-- **The join** is that of the key. -/
theorem joinsOn_iff :
    JoinsOn (io.queueRow collectionId) (io'.latencyRow collectionId) ↔ io.SameKey io' := by
  rw [JoinsOn, BlockIo.SameKey]
  show ((ddevt io.request : ℕ) : ℤ) = (ddevt io'.request : ℕ) ∧
    handledSector io.request.sector = handledSector io'.request.sector ∧
    ((blkRqNrPhysSegmentsDup io.request : ℕ) : ℤ) = (blkRqNrPhysSegmentsDup io'.request : ℕ) ∧
    (io.request.dataLen.toNat : ℤ) = io'.request.dataLen.toNat ∧
    io.request.cmdFlags.toNat = io'.request.cmdFlags.toNat ∧ collectionId = collectionId ↔ _
  rw [Nat.cast_inj, handledSector_inj, Nat.cast_inj, Nat.cast_inj, BitVec.toNat_inj,
    BitVec.toNat_inj, and_iff_left rfl]

/-- **Which pairs are believed.** -/
theorem plausible_paired_iff : Plausible (io.paired collectionId io') ↔
    io.issueUs < io'.completeUs ∧ io'.completeUs < io.issueUs + io'.latencyUs := by
  have hup : (io.paired collectionId io').uptimeTimestamp = io.issueUs :=
    congrArg Nat.cast io.toNat_issueUs
  have hfinish : (io.paired collectionId io').finishTsUptimeUs = io'.completeUs :=
    congrArg Nat.cast io'.toNat_completeUs
  have hlatency : (io.paired collectionId io').blockLatencyUs = io'.latencyUs :=
    congrArg Nat.cast io'.toNat_latencyUs
  rw [Plausible, hup, hfinish, hlatency]
  omega

theorem uniqueKey_paired_inj (h : uniqueKey (io.paired collectionId io) =
    uniqueKey (io'.paired collectionId io')) : io.SameKey io' ∧ io.issueUs = io'.issueUs := by
  obtain ⟨-, hdevice, hsector, hsegments, hbytes, hup, hflags⟩ := UniqueKey.mk.inj h
  refine ⟨⟨Nat.cast_inj.1 hdevice, handledSector_inj.1 hsector, Nat.cast_inj.1 hsegments,
    BitVec.toNat_inj.1 (Nat.cast_inj.1 hbytes), BitVec.toNat_inj.1 hflags⟩, ?_⟩
  rw [← io.toNat_issueUs, ← io'.toNat_issueUs]
  exact Nat.cast_inj.1 hup

end Pairs

/-! ### The rows of the merge -/

section Rows

variable {collectionId : PyStr} {ios : List BlockIo} {queueTable : List (WithId BlockIOQueueData)}
  {latencyTable : List (WithId BlockIOLatencyData)} {table : List BlockIORow} {r : MergedIo}

/-- **The rows before `unique`** are the pairs of the same key that are believed. -/
theorem mem_blockDf_iff (hq : queueTable.Perm (ios.map fun io ↦ io.queueRow collectionId))
    (hl : latencyTable.Perm (ios.map fun io ↦ io.latencyRow collectionId)) :
    r ∈ blockDf queueTable latencyTable ↔ ∃ io ∈ ios, ∃ io' ∈ ios, io.SameKey io' ∧
      Plausible (io.paired collectionId io') ∧ io.paired collectionId io' = r := by
  rw [blockDf, List.mem_filter, List.mem_flatMap]
  constructor
  · rintro ⟨⟨q, hqmem, hr⟩, hplausible⟩
    obtain ⟨l, hlfilter, rfl⟩ := List.mem_map.1 hr
    obtain ⟨hlmem, hjoins⟩ := List.mem_filter.1 hlfilter
    obtain ⟨io, hio, rfl⟩ := List.mem_map.1 (hq.mem_iff.1 hqmem)
    obtain ⟨io', hio', rfl⟩ := List.mem_map.1 (hl.mem_iff.1 hlmem)
    exact ⟨io, hio, io', hio', joinsOn_iff.1 (of_decide_eq_true hjoins),
      of_decide_eq_true hplausible, rfl⟩
  · rintro ⟨io, hio, io', hio', hkey, hplausible, rfl⟩
    have hqmem := hq.mem_iff.2 (List.mem_map_of_mem (f := fun io ↦ io.queueRow collectionId) hio)
    have hlmem := hl.mem_iff.2 (List.mem_map_of_mem (f := fun io ↦ io.latencyRow collectionId) hio')
    exact ⟨⟨_, hqmem, List.mem_map.2 ⟨_, List.mem_filter.2
      ⟨hlmem, decide_eq_true (joinsOn_iff.2 hkey)⟩, rfl⟩⟩, decide_eq_true hplausible⟩

/-- The pairs of the I/Os with themselves. -/
def ownPairs (collectionId : PyStr) (ios : List BlockIo) : List MergedIo :=
  ios.map fun io ↦ io.paired collectionId io

theorem map_withColumns_ownPairs :
    (ownPairs collectionId ios).map withColumns = ios.map fun io ↦ io.row collectionId := by
  rw [ownPairs, List.map_map]
  refine List.map_congr_left fun io _ ↦ ?_
  have hmeasured : (withColumns (io.paired collectionId io)).measuredLatencyUs =
      io.completeUs - io.issueUs := by
    rw [← io.toNat_completeUs, ← io.toNat_issueUs]
    rfl
  show withColumns (io.paired collectionId io) = io.row collectionId
  rw [BlockIo.row, ← hmeasured]
  rfl

/-- Where the time of each I/O is believed, no two have the same unique key: one of the same key is
issued when the other is completed, in a later microsecond. -/
theorem nodup_uniqueKey_ownPairs (collectionId : PyStr) (hturn : InTurn ios)
    (hown : ∀ io ∈ ios, io.issueUs < io.completeUs) :
    ((ownPairs collectionId ios).map uniqueKey).Nodup := by
  rw [ownPairs, List.map_map, List.Nodup, List.pairwise_map]
  refine hturn.imp_of_mem fun {io io'} hio _ hafter hsame ↦ ?_
  obtain ⟨hkey, hissue⟩ := uniqueKey_paired_inj hsame
  have hle : io.completeUs ≤ io'.issueUs :=
    Nat.div_le_div_right (BitVec.le_def.1 (hafter hkey))
  have hlt := hown io hio
  omega

/-- **Where the condition holds, only own pairs are believed.** -/
theorem Separable.eq_of_plausible (h : Separable ios) (hturn : InTurn ios) :
    ∀ io ∈ ios, ∀ io' ∈ ios, io.SameKey io' → Plausible (io.paired collectionId io') →
      io = io' := by
  refine List.Pairwise.forall_of_forall_of_flip (fun _ _ _ _ ↦ rfl) (h.later.imp ?_)
    (hturn.imp ?_)
  · -- a later completion comes too late for what it reports
    intro io io' hlater hkey hplausible
    have hle := hlater hkey
    have hlt := (plausible_paired_iff.1 hplausible).2
    omega
  · -- an earlier completion comes before the issue
    intro io io' hafter hkey hplausible
    have hle : io.completeUs ≤ io'.issueUs :=
      Nat.div_le_div_right (BitVec.le_def.1 (hafter hkey.symm))
    have hlt := (plausible_paired_iff.1 hplausible).1
    omega

/-- Where the condition holds, the rows before `unique` are those of the I/Os. -/
theorem Separable.mem_blockDf_iff (h : Separable ios) (hturn : InTurn ios)
    (hq : queueTable.Perm (ios.map fun io ↦ io.queueRow collectionId))
    (hl : latencyTable.Perm (ios.map fun io ↦ io.latencyRow collectionId)) :
    r ∈ blockDf queueTable latencyTable ↔ r ∈ ownPairs collectionId ios := by
  rw [BlkIo.mem_blockDf_iff hq hl, ownPairs, List.mem_map]
  constructor
  · rintro ⟨io, hio, io', hio', hkey, hplausible, rfl⟩
    obtain rfl := h.eq_of_plausible hturn io hio io' hio' hkey hplausible
    exact ⟨io, hio, rfl⟩
  · rintro ⟨io, hio, rfl⟩
    exact ⟨io, hio, io, hio, .refl io, plausible_paired_iff.2 (h.own io hio), rfl⟩

/-- **What is believed is in a table** that can be returned. -/
theorem exists_fromTables_mem (hr : r ∈ blockDf queueTable latencyTable) :
    ∃ table, FromTables queueTable latencyTable table ∧ withColumns r ∈ table := by
  obtain ⟨picks, hpicks, hmem⟩ := exists_oneOfEach_mem uniqueKey hr
  obtain ⟨table, htable, hperm⟩ := exists_fromTables hpicks
  exact ⟨table, htable, hperm.mem_iff.2 (List.mem_map_of_mem hmem)⟩

/-- Where each I/O has its own row, what is believed is an own pair. -/
theorem PairsOwn.mem_ownPairs (h : PairsOwn collectionId ios queueTable latencyTable)
    (hr : r ∈ blockDf queueTable latencyTable) : r ∈ ownPairs collectionId ios := by
  obtain ⟨table, htable, hmem⟩ := exists_fromTables_mem hr
  rw [(h table htable).mem_iff, ← map_withColumns_ownPairs] at hmem
  obtain ⟨r', hr', hsame⟩ := List.mem_map.1 hmem
  have hrr : r' = r := congrArg BlockIORow.toMergedIo hsame
  exact hrr ▸ hr'

/-- Where each I/O has its own row, the time of each is believed. -/
theorem PairsOwn.inWindow (h : PairsOwn collectionId ios queueTable latencyTable) {io : BlockIo}
    (hio : io ∈ ios) : Plausible (io.paired collectionId io) := by
  obtain ⟨picks, hpicks⟩ := exists_oneOfEach uniqueKey (blockDf queueTable latencyTable)
  obtain ⟨table, htable, hperm⟩ := exists_fromTables hpicks
  have hmem : withColumns (io.paired collectionId io) ∈ picks.map withColumns := by
    rw [← hperm.mem_iff, (h table htable).mem_iff, ← map_withColumns_ownPairs]
    exact List.mem_map_of_mem (List.mem_map_of_mem (f := fun io ↦ io.paired collectionId io) hio)
  obtain ⟨r, hr, hsame⟩ := List.mem_map.1 hmem
  have hrr : r = io.paired collectionId io := congrArg BlockIORow.toMergedIo hsame
  have hplausible := of_decide_eq_true (List.mem_filter.1 (hpicks.subset hr)).2
  rwa [hrr] at hplausible

/-- **Each I/O has exactly one row, that of its own events, exactly where** the time of each is
believed and no completion can be taken for that of an earlier I/O of its key. -/
theorem fromTables_pairsOwn_iff (hturn : InTurn ios)
    (hq : queueTable.Perm (ios.map fun io ↦ io.queueRow collectionId))
    (hl : latencyTable.Perm (ios.map fun io ↦ io.latencyRow collectionId)) :
    PairsOwn collectionId ios queueTable latencyTable ↔ Separable ios := by
  constructor
  · intro hpairs
    have hown : ∀ io ∈ ios, io.issueUs < io.completeUs ∧
        io.completeUs < io.issueUs + io.latencyUs :=
      fun io hio ↦ plausible_paired_iff.1 (hpairs.inWindow hio)
    refine ⟨hown, hturn.imp_of_mem fun {io io'} hio hio' hafter hkey ↦ ?_⟩
    by_contra hlater
    have hle : io.completeUs ≤ io'.issueUs :=
      Nat.div_le_div_right (BitVec.le_def.1 (hafter hkey))
    have hpos := (hown io hio).1
    have hpos' := (hown io' hio').1
    -- the issue of the first with the completion of the second is believed
    have hmem : io.paired collectionId io' ∈ blockDf queueTable latencyTable :=
      (mem_blockDf_iff hq hl).2 ⟨io, hio, io', hio', hkey,
        plausible_paired_iff.2 ⟨by omega, by omega⟩, rfl⟩
    have hnd := nodup_uniqueKey_ownPairs collectionId hturn
      fun io hio ↦ (hown io hio).1
    have hsame : io.paired collectionId io' = io.paired collectionId io :=
      List.inj_on_of_nodup_map hnd (hpairs.mem_ownPairs hmem)
        (List.mem_map_of_mem (f := fun io ↦ io.paired collectionId io) hio) rfl
    have hfinish : io'.completeUs = io.completeUs := by
      rw [← io'.toNat_completeUs, ← io.toNat_completeUs]
      exact Nat.cast_inj.1 (congrArg MergedIo.finishTsUptimeUs hsame)
    omega
  · rintro h table ⟨picks, hpicks, hperm, -⟩
    -- only own pairs are believed and no two have one key, so that every one is kept
    have hnd := nodup_uniqueKey_ownPairs collectionId hturn
      fun io hio ↦ (h.own io hio).1
    rw [← map_withColumns_ownPairs]
    exact hperm.trans ((hpicks.perm_of_nodup hnd fun r ↦
      h.mem_blockDf_iff hturn hq hl).map withColumns)

end Rows

/-! ### Examples -/

/-- A read that waits for one microsecond before it is issued. -/
def firstRead : BlockIo where
  request := readOne
  issueCpu := 0
  completeCpu := 1
  queueLengthSegments := 1
  queueLength4ks := 1
  startNs := 1000
  ioStartNs := 2000
  issueNs := 2000
  completeNs := 5000
  start_le := by decide
  issue_le := by decide

/-- The read again, started at the given time. -/
def secondRead (startNs : BitVec 64) (h : startNs ≤ 6000) : BlockIo where
  request := readOne
  issueCpu := 0
  completeCpu := 1
  queueLengthSegments := 1
  queueLength4ks := 1
  startNs := startNs
  ioStartNs := 6000
  issueNs := 6000
  completeNs := 9000
  start_le := h
  issue_le := by decide

/-- The second read is started when the first is completed. -/
def oneByOne : List BlockIo := [firstRead, secondRead 5000 (by decide)]

/-- The second read is started before the first is issued. -/
def queuedBehind : List BlockIo := [firstRead, secondRead 1000 (by decide)]

/-- Reads of one sector that are started in turn have a row each. -/
theorem pairsOwn_oneByOne : PairsOwn [] oneByOne (oneByOne.map fun io ↦ io.queueRow [])
    (oneByOne.map fun io ↦ io.latencyRow []) :=
  (fromTables_pairsOwn_iff (by decide +kernel) (.refl _) (.refl _)).2
    ⟨by decide +kernel, by decide +kernel⟩

/-- The completion of a read that was queued behind another can be taken for that of the other. -/
theorem not_pairsOwn_queuedBehind : InTurn queuedBehind ∧
    ¬ PairsOwn [] queuedBehind (queuedBehind.map fun io ↦ io.queueRow [])
      (queuedBehind.map fun io ↦ io.latencyRow []) := by
  refine ⟨by decide +kernel, fun h ↦ ?_⟩
  have hmem : firstRead.paired [] (secondRead 1000 (by decide)) ∈
      blockDf (queuedBehind.map fun io ↦ io.queueRow [])
        (queuedBehind.map fun io ↦ io.latencyRow []) := by decide +kernel
  exact absurd (h.mem_ownPairs hmem) (by decide +kernel)

end BlkIo
