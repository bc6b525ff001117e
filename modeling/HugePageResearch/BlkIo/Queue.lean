import HugePageResearch.Library.Hash
import HugePageResearch.Library.Run
import Mathlib.Algebra.BigOperators.Group.List.Basic
import Mathlib.Algebra.Order.Group.Nat
import Mathlib.Tactic.Ring

/-!
# The queue lengths of block devices

`bpf/blk_io.bpf.c`: a probe on the issue and one on the completion of a block request keep, for each
device, the 4 KiB units and the segments that are outstanding, and report each event. The requests
that were counted are remembered under their device and sector, so that a completion is counted only
for a request whose issue was.

A hash of BPF is a dictionary of at most so many keys: an update that needs one more fails. A 32-bit
integer is an integer that is wrapped after each operation.

## The result

`lengths_iff`: in every state of a run the lengths kept for a device are the sums over the requests
outstanding on it, exactly where each issue on a device that is kept has a length below the wrap of
`block_4k_ios` and leaves the sums below `2 ^ 31`, and each completion of a request that counts for
anything finds its device and sector. That fails for the second of two requests of one sector, and
for a request that was issued while the hash was full.
-/

namespace BlkIo

/-! ### Data -/

/-- The fields of a `struct request` that the probes read. -/
structure Request where
  /-- `disk->major` and `disk->first_minor`. -/
  major : ℕ
  firstMinor : ℕ
  sector : BitVec 64
  cmdFlags : BitVec 32
  /-- `rq_flags & RQF_SPECIAL_PAYLOAD`. -/
  specialPayload : Bool
  nrPhysSegments : BitVec 16
  dataLen : BitVec 32
  deriving DecidableEq

/-- `block_io_start_perf_event_t`. -/
structure BlockIoStartPerfEvent where
  device : ℕ
  sector : BitVec 64
  segments : ℕ
  blockIoBytes : ℕ
  blockIoStartUptimeUs : BitVec 64
  blockIoFlags : ℕ
  queueLengthSegments : ℤ
  queueLength4ks : ℤ

/-- `block_io_end_perf_event_t`. -/
structure BlockIoEndPerfEvent where
  device : ℕ
  sector : BitVec 64
  segments : ℕ
  blockIoBytes : ℕ
  blockIoEndUptimeUs : BitVec 64
  blockLatencyUs : BitVec 64
  blockIoLatencyUs : BitVec 64
  blockIoFlags : ℕ

/-- `struct queue_lengths`. -/
structure QueueLengths where
  queueLengthSegments : ℤ
  queueLength4ks : ℤ
  deriving DecidableEq

/-- `struct start_key`. -/
structure StartKey where
  dev : ℕ
  sector : BitVec 64
  deriving DecidableEq

/-- The size that `BPF_HASH` takes by default. -/
def defaultHashSize : ℕ := 10240

/-- The size of `started_4k_ios`. -/
def startedHashSize : ℕ := 1024

/-- The hashes, and what was submitted to the two outputs. -/
structure Maps where
  deviceQueue : Dict ℕ QueueLengths
  started4kIos : Dict StartKey ℕ
  blockIoStarts : List BlockIoStartPerfEvent
  blockIoEnds : List BlockIoEndPerfEvent

/-- A 32-bit signed integer. -/
def s32 (z : ℤ) : ℤ := (z + 2 ^ 31) % 2 ^ 32 - 2 ^ 31

/-! ### The probes -/

/-- `ddevt`. -/
def ddevt (r : Request) : ℕ := (r.major <<< 20 ||| r.firstMinor) % 2 ^ 32

/-- `block_4k_ios`. -/
def block4kIos (bytes : BitVec 32) : ℕ := ((bytes + 4095) >>> 12).toNat

/-- `REQ_META`. -/
def reqMeta : BitVec 32 := 1 <<< 12

/-- `REQ_IDLE`. -/
def reqIdle : BitVec 32 := 1 <<< 15

/-- `REQ_FUA`. -/
def reqFua : BitVec 32 := 1 <<< 17

/-- `blk_rq_nr_phys_segments_dup`. -/
def blkRqNrPhysSegmentsDup (r : Request) : ℕ :=
  if r.cmdFlags &&& reqIdle ≠ 0 ∧ r.cmdFlags &&& reqFua ≠ 0 ∧ r.cmdFlags &&& reqMeta ≠ 0 then 0
  else if r.specialPayload then 1
  else r.nrPhysSegments.toNat

/-- The key of a request in `started_4k_ios`. -/
def startKey (r : Request) : StartKey := ⟨ddevt r, r.sector⟩

/-- `block_rq_issue`, at the time `ts`. -/
def blockRqIssue (r : Request) (ts : BitVec 64) (m : Maps) : Maps :=
  match Hash.lookupOrTryInit defaultHashSize m.deviceQueue (ddevt r) ⟨0, 0⟩ with
  | (none, queue) => { m with deviceQueue := queue }
  | (some q, queue) =>
    let q : QueueLengths :=
      ⟨s32 (q.queueLengthSegments + blkRqNrPhysSegmentsDup r),
        s32 (q.queueLength4ks + block4kIos r.dataLen)⟩
    { m with
      deviceQueue := queue.set (ddevt r) q
      started4kIos :=
        Hash.update startedHashSize m.started4kIos (startKey r) (block4kIos r.dataLen)
      blockIoStarts := m.blockIoStarts ++ [{
        device := ddevt r
        sector := r.sector
        segments := blkRqNrPhysSegmentsDup r
        blockIoBytes := r.dataLen.toNat
        blockIoStartUptimeUs := ts / 1000
        blockIoFlags := r.cmdFlags.toNat
        queueLengthSegments := q.queueLengthSegments
        queueLength4ks := q.queueLength4ks }] }

/-- `block_rq_complete`, at the time `ts`, of a request with the given `start_time_ns` and
`io_start_time_ns`. -/
def blockRqComplete (r : Request) (ts startTimeNs ioStartTimeNs : BitVec 64) (m : Maps) : Maps :=
  let m : Maps := { m with
    blockIoEnds := m.blockIoEnds ++ [{
      device := ddevt r
      sector := r.sector
      segments := blkRqNrPhysSegmentsDup r
      blockIoBytes := r.dataLen.toNat
      blockIoEndUptimeUs := ts / 1000
      blockLatencyUs := (ts - startTimeNs) / 1000
      blockIoLatencyUs := (ts - ioStartTimeNs) / 1000
      blockIoFlags := r.cmdFlags.toNat }] }
  match m.deviceQueue.get? (ddevt r) with
  | none => m
  | some q =>
    match m.started4kIos.get? (startKey r) with
    | none => m
    | some _ =>
      { m with
        started4kIos := m.started4kIos.erase (startKey r)
        deviceQueue := m.deviceQueue.set (ddevt r)
          ⟨s32 (q.queueLengthSegments - blkRqNrPhysSegmentsDup r),
            s32 (q.queueLength4ks - block4kIos r.dataLen)⟩ }

/-! ### Runs -/

/-- What happens to requests. -/
inductive Event where
  | issue (r : Request) (ts : BitVec 64)
  | complete (r : Request) (ts startTimeNs ioStartTimeNs : BitVec 64)

/-- The hashes, and the requests that were issued and not completed. -/
structure World where
  maps : Maps
  outstanding : List Request

/-- One event. A request is completed only when it is outstanding. -/
def step (w : World) : Event → Option World
  | .issue r ts => some ⟨blockRqIssue r ts w.maps, r :: w.outstanding⟩
  | .complete r ts startTimeNs ioStartTimeNs =>
    if r ∈ w.outstanding then
      some ⟨blockRqComplete r ts startTimeNs ioStartTimeNs w.maps, w.outstanding.erase r⟩
    else none

/-- The program is installed. -/
def init : World := ⟨⟨.empty, .empty, [], []⟩, []⟩

/-! ### What is expected -/

/-- The 4 KiB units of a request. -/
def units (r : Request) : ℕ := (r.dataLen.toNat + 4095) / 4096

/-- The sum over the requests outstanding on a device. -/
def load (f : Request → ℕ) (device : ℕ) (rs : List Request) : ℕ :=
  (rs.map fun r ↦ if ddevt r = device then f r else 0).sum

/-- **The lengths kept for a device** are the sums over the requests outstanding on it. -/
def LengthsTrue (w : World) : Prop :=
  ∀ device q, w.maps.deviceQueue.get? device = some q →
    q.queueLength4ks = load units device w.outstanding ∧
      q.queueLengthSegments = load blkRqNrPhysSegmentsDup device w.outstanding

/-- The lengths of the device are kept from the next issue on. -/
def Tracked (m : Maps) (device : ℕ) : Prop :=
  device ∈ m.deviceQueue.keys ∨ m.deviceQueue.items.length < defaultHashSize

/-- **The condition**: an issue on a device whose lengths are kept does not wrap, neither in
`block_4k_ios` nor in the sums; a completion on such a device finds its device and sector, or counts
for nothing. -/
def Counted (w : World) : Event → Prop
  | .issue r _ => Tracked w.maps (ddevt r) →
    r.dataLen.toNat ≤ 2 ^ 32 - 4096 ∧ load units (ddevt r) w.outstanding + units r < 2 ^ 31 ∧
      load blkRqNrPhysSegmentsDup (ddevt r) w.outstanding + blkRqNrPhysSegmentsDup r < 2 ^ 31
  | .complete r .. => ddevt r ∈ w.maps.deviceQueue.keys → startKey r ∈ w.maps.started4kIos.keys ∨
    units r = 0 ∧ blkRqNrPhysSegmentsDup r = 0

instance (m : Maps) (device : ℕ) : Decidable (Tracked m device) :=
  inferInstanceAs (Decidable (_ ∨ _))

instance (w : World) : ∀ e, Decidable (Counted w e)
  | .issue _ _ => inferInstanceAs (Decidable (_ → _))
  | .complete .. => inferInstanceAs (Decidable (_ → _))

/-! ### Arithmetic -/

theorem s32_add {a b : ℕ} (h : a + b < 2 ^ 31) : s32 ((a : ℤ) + b) = (b + a : ℕ) := by
  rw [s32]
  omega

theorem s32_sub {a b : ℕ} (h : b + a < 2 ^ 31) : s32 ((b + a : ℕ) - (b : ℤ)) = a := by
  rw [s32]
  omega

theorem s32_lt (z : ℤ) : s32 z < 2 ^ 31 := by
  rw [s32]
  omega

theorem block4kIos_eq (bytes : BitVec 32) :
    block4kIos bytes = (bytes.toNat + 4095) % 2 ^ 32 / 4096 := by
  rw [block4kIos, BitVec.toNat_ushiftRight, Nat.shiftRight_eq_div_pow, BitVec.toNat_add]
  rfl

theorem block4kIos_of_le {r : Request} (h : r.dataLen.toNat ≤ 2 ^ 32 - 4096) :
    block4kIos r.dataLen = units r := by
  rw [block4kIos_eq, units]
  omega

/-- The last lengths wrap to no unit at all. -/
theorem block4kIos_of_gt {r : Request} (h : 2 ^ 32 - 4096 < r.dataLen.toNat) :
    block4kIos r.dataLen = 0 := by
  have := r.dataLen.isLt
  rw [block4kIos_eq]
  omega

variable {f : Request → ℕ} {device : ℕ} {r : Request} {rs : List Request}

theorem load_cons_self : load f (ddevt r) (r :: rs) = f r + load f (ddevt r) rs := by
  rw [load, List.map_cons, List.sum_cons, if_pos rfl]
  rfl

theorem load_cons_of_ne (h : ddevt r ≠ device) : load f device (r :: rs) = load f device rs := by
  rw [load, List.map_cons, List.sum_cons, if_neg h, zero_add]
  rfl

theorem load_erase (f : Request → ℕ) (device : ℕ) (h : r ∈ rs) :
    (if ddevt r = device then f r else 0) + load f device (rs.erase r) = load f device rs :=
  List.sum_map_erase (fun r ↦ if ddevt r = device then f r else 0) h

theorem load_erase_self (h : r ∈ rs) :
    f r + load f (ddevt r) (rs.erase r) = load f (ddevt r) rs := by
  rw [← load_erase f (ddevt r) h, if_pos rfl]

/-- Taking out a request that does not count for a device. -/
theorem load_erase_of_eq_zero (h : r ∈ rs) (hzero : ddevt r = device → f r = 0) :
    load f device (rs.erase r) = load f device rs := by
  rw [← load_erase f device h, ite_eq_right_iff.2 hzero, zero_add]

theorem load_eq_zero (h : ∀ r ∈ rs, ddevt r ≠ device) : load f device rs = 0 := by
  refine List.sum_eq_zero fun n hn ↦ ?_
  obtain ⟨r, hr, rfl⟩ := List.mem_map.1 hn
  exact if_neg (h r hr)

/-! ### What the probes do -/

variable {m : Maps} {ts : BitVec 64}

/-- The lengths kept for a device, or those that it starts with. -/
def lengths (m : Maps) (device : ℕ) : QueueLengths :=
  (m.deviceQueue.get? device).getD ⟨0, 0⟩

theorem mem_keys_of_get? {device : ℕ} {q : QueueLengths}
    (h : m.deviceQueue.get? device = some q) : device ∈ m.deviceQueue.keys := by
  by_contra hnot
  rw [Dict.get?_eq_none hnot] at h
  cases h

/-- The entry of a device that is tracked, and what the hash then holds for the others. -/
theorem lookupOrTryInit_of_tracked {device : ℕ} (h : Tracked m device) :
    ∃ queue, Hash.lookupOrTryInit defaultHashSize m.deviceQueue device ⟨0, 0⟩ =
        (some (lengths m device), queue) ∧
      (∀ d, d ≠ device → queue.get? d = m.deviceQueue.get? d) ∧
      ∀ q d, d ∈ (queue.set device q).keys ↔ d ∈ m.deviceQueue.keys ∨ d = device := by
  rcases hget : m.deviceQueue.get? device with - | q
  · refine ⟨m.deviceQueue.set device ⟨0, 0⟩, ?_, fun d hd ↦ ?_, fun q d ↦ ?_⟩
    · rw [Hash.lookupOrTryInit_of_fits hget h, lengths, hget]
      rfl
    · rw [Dict.get?_set, if_neg hd.symm]
    · rw [Dict.mem_keys_set, Dict.mem_keys_set, or_assoc, or_self, eq_comm]
  · refine ⟨m.deviceQueue, ?_, fun _ _ ↦ rfl, fun q' d ↦ ?_⟩
    · rw [Hash.lookupOrTryInit_of_get? hget, lengths, hget]
      rfl
    · rw [Dict.mem_keys_set, eq_comm]

theorem blockRqIssue_of_not_tracked (h : ¬ Tracked m (ddevt r)) : blockRqIssue r ts m = m := by
  rw [blockRqIssue, Hash.lookupOrTryInit_of_not_fits h]

/-- **An issue on a device that is tracked** adds to its lengths. -/
theorem blockRqIssue_of_tracked (ts : BitVec 64) (h : Tracked m (ddevt r)) :
    (∀ d, (blockRqIssue r ts m).deviceQueue.get? d = if ddevt r = d then
      some ⟨s32 ((lengths m d).queueLengthSegments + blkRqNrPhysSegmentsDup r),
        s32 ((lengths m d).queueLength4ks + block4kIos r.dataLen)⟩
      else m.deviceQueue.get? d) ∧
    ∀ d, d ∈ (blockRqIssue r ts m).deviceQueue.keys ↔ d ∈ m.deviceQueue.keys ∨ d = ddevt r := by
  obtain ⟨queue, hlookup, hother, hkeys⟩ := lookupOrTryInit_of_tracked h
  rw [blockRqIssue, hlookup]
  refine ⟨fun d ↦ ?_, fun d ↦ hkeys _ d⟩
  dsimp only
  rw [Dict.get?_set]
  split_ifs with hd
  · rw [hd]
  · exact hother d (Ne.symm hd)

variable (ts) (startTimeNs ioStartTimeNs : BitVec 64)

/-- **A completion that finds its device and sector** takes from the lengths. -/
theorem blockRqComplete_of_found (hdev : ddevt r ∈ m.deviceQueue.keys)
    (hkey : startKey r ∈ m.started4kIos.keys) :
    (∀ d, (blockRqComplete r ts startTimeNs ioStartTimeNs m).deviceQueue.get? d =
      if ddevt r = d then
        some ⟨s32 ((lengths m d).queueLengthSegments - blkRqNrPhysSegmentsDup r),
          s32 ((lengths m d).queueLength4ks - block4kIos r.dataLen)⟩
      else m.deviceQueue.get? d) ∧
    ∀ d, d ∈ (blockRqComplete r ts startTimeNs ioStartTimeNs m).deviceQueue.keys ↔
      d ∈ m.deviceQueue.keys := by
  obtain ⟨q, hq⟩ := Dict.exists_get?_of_mem_keys hdev
  obtain ⟨v, hv⟩ := Dict.exists_get?_of_mem_keys hkey
  have hlengths : lengths m (ddevt r) = q := by rw [lengths, hq]; rfl
  rw [blockRqComplete]
  simp only [hq, hv]
  refine ⟨fun d ↦ ?_, fun d ↦ ?_⟩
  · rw [Dict.get?_set]
    split_ifs with hd
    · rw [← hd, hlengths]
    · rfl
  · rw [Dict.mem_keys_set]
    exact or_iff_left_of_imp fun hd ↦ hd ▸ hdev

/-- A completion that does not find them leaves the lengths alone. -/
theorem blockRqComplete_of_not_found
    (h : ddevt r ∈ m.deviceQueue.keys → startKey r ∉ m.started4kIos.keys) :
    (blockRqComplete r ts startTimeNs ioStartTimeNs m).deviceQueue = m.deviceQueue := by
  rw [blockRqComplete]
  dsimp only
  rcases hq : m.deviceQueue.get? (ddevt r) with - | q
  · rfl
  · rw [Dict.get?_eq_none (h (mem_keys_of_get? hq))]

/-! ### The invariant -/

/-- **What the counted steps keep.** -/
structure Inv (w : World) : Prop where
  lengths : LengthsTrue w
  /-- A device without an entry has nothing outstanding, as long as there is room for it. -/
  fresh : ∀ r ∈ w.outstanding, Tracked w.maps (ddevt r) → ddevt r ∈ w.maps.deviceQueue.keys
  sized : ∀ r ∈ w.outstanding, ddevt r ∈ w.maps.deviceQueue.keys →
    r.dataLen.toNat ≤ 2 ^ 32 - 4096
  bounded : ∀ d ∈ w.maps.deviceQueue.keys, load units d w.outstanding < 2 ^ 31 ∧
    load blkRqNrPhysSegmentsDup d w.outstanding < 2 ^ 31

variable {w w' : World}

/-- The lengths of a device that is tracked, with an entry or without. -/
theorem Inv.lengths_eq (h : Inv w) {device : ℕ} (ht : Tracked w.maps device) :
    (BlkIo.lengths w.maps device).queueLength4ks = load units device w.outstanding ∧
      (BlkIo.lengths w.maps device).queueLengthSegments =
        load blkRqNrPhysSegmentsDup device w.outstanding := by
  rcases hq : w.maps.deviceQueue.get? device with - | q
  · have hnone : ∀ r ∈ w.outstanding, ddevt r ≠ device := by
      rintro r hr rfl
      obtain ⟨q, hq'⟩ := Dict.exists_get?_of_mem_keys (h.fresh r hr ht)
      rw [hq] at hq'
      cases hq'
    rw [BlkIo.lengths, hq, load_eq_zero hnone, load_eq_zero hnone]
    exact ⟨rfl, rfl⟩
  · rw [BlkIo.lengths, hq]
    exact h.lengths device q hq

theorem length_items (d : Dict ℕ QueueLengths) : d.items.length = d.keys.length :=
  (List.length_map _).symm

/-- Room for one more key was there before. -/
theorem Tracked.of_subset {m' : Maps} (h : ∀ d ∈ m.deviceQueue.keys, d ∈ m'.deviceQueue.keys)
    {device : ℕ} (ht : Tracked m' device) :
    device ∈ m'.deviceQueue.keys ∨ Tracked m device := by
  refine ht.imp_right fun hlt ↦ .inr (lt_of_le_of_lt ?_ hlt)
  rw [length_items, length_items]
  exact (m.deviceQueue.nodupKeys.subperm h).length_le

/-- **An issue on a device whose lengths are kept.** -/
theorem Inv.issue (h : Inv w) (ht : Tracked w.maps (ddevt r))
    (hbytes : r.dataLen.toNat ≤ 2 ^ 32 - 4096)
    (hunits : load units (ddevt r) w.outstanding + units r < 2 ^ 31)
    (hsegments : load blkRqNrPhysSegmentsDup (ddevt r) w.outstanding +
      blkRqNrPhysSegmentsDup r < 2 ^ 31) :
    Inv ⟨blockRqIssue r ts w.maps, r :: w.outstanding⟩ := by
  obtain ⟨hget, hkeys⟩ := blockRqIssue_of_tracked ts ht
  obtain ⟨h4ks, hsegs⟩ := h.lengths_eq ht
  refine ⟨fun d q hq ↦ ?_, List.forall_mem_cons.2 ⟨fun _ ↦ (hkeys _).2 (.inr rfl),
    fun r' hr' ht' ↦ ?_⟩, List.forall_mem_cons.2 ⟨fun _ ↦ hbytes, fun r' hr' hk ↦ ?_⟩,
    fun d hd ↦ ?_⟩
  · rw [hget] at hq
    split_ifs at hq with hd
    · subst hd
      rw [← Option.some.inj hq, load_cons_self, load_cons_self, h4ks, hsegs,
        block4kIos_of_le hbytes]
      exact ⟨s32_add hunits, s32_add hsegments⟩
    · rw [load_cons_of_ne hd, load_cons_of_ne hd]
      exact h.lengths d q hq
  · rcases ht'.of_subset fun d hd ↦ (hkeys d).2 (.inl hd) with hk | hold
    · exact hk
    · exact (hkeys _).2 (.inl (h.fresh r' hr' hold))
  · rcases (hkeys _).1 hk with hold | hnew
    · exact h.sized r' hr' hold
    · rw [← hnew] at ht
      exact h.sized r' hr' (h.fresh r' hr' ht)
  · rcases eq_or_ne (ddevt r) d with rfl | hd'
    · rw [load_cons_self, load_cons_self, Nat.add_comm, Nat.add_comm (blkRqNrPhysSegmentsDup r)]
      exact ⟨hunits, hsegments⟩
    · rw [load_cons_of_ne hd', load_cons_of_ne hd']
      exact h.bounded d (((hkeys d).1 hd).resolve_right hd'.symm)

/-- An issue on a device for which there is no room. -/
theorem Inv.issue_of_not_tracked (h : Inv w) (ht : ¬ Tracked w.maps (ddevt r)) :
    Inv ⟨blockRqIssue r ts w.maps, r :: w.outstanding⟩ := by
  rw [blockRqIssue_of_not_tracked ht]
  have hne : ∀ d ∈ w.maps.deviceQueue.keys, ddevt r ≠ d := fun d hd he ↦ ht (.inl (he ▸ hd))
  refine ⟨fun d q hq ↦ ?_, List.forall_mem_cons.2 ⟨fun ht' ↦ absurd ht' ht, h.fresh⟩,
    List.forall_mem_cons.2 ⟨fun hk ↦ absurd (.inl hk) ht, h.sized⟩, fun d hd ↦ ?_⟩
  · have hd := hne d (mem_keys_of_get? hq)
    rw [load_cons_of_ne hd, load_cons_of_ne hd]
    exact h.lengths d q hq
  · rw [load_cons_of_ne (hne d hd), load_cons_of_ne (hne d hd)]
    exact h.bounded d hd

/-- What stays true of the others when a request is completed. -/
theorem Inv.erase (h : Inv w) (hr : r ∈ w.outstanding) {maps : Maps}
    (hkeys : ∀ d, d ∈ maps.deviceQueue.keys ↔ d ∈ w.maps.deviceQueue.keys)
    (hlengths : LengthsTrue ⟨maps, w.outstanding.erase r⟩) :
    Inv ⟨maps, w.outstanding.erase r⟩ := by
  refine ⟨hlengths, fun r' hr' ht' ↦ ?_, fun r' hr' hk ↦ ?_, fun d hd ↦ ?_⟩
  · rcases ht'.of_subset fun d hd ↦ (hkeys d).2 hd with hk | hold
    · exact hk
    · exact (hkeys _).2 (h.fresh r' (List.mem_of_mem_erase hr') hold)
  · exact h.sized r' (List.mem_of_mem_erase hr') ((hkeys _).1 hk)
  · obtain ⟨hunits, hsegments⟩ := h.bounded d ((hkeys d).1 hd)
    rw [← load_erase _ d hr] at hunits hsegments
    show load units d (w.outstanding.erase r) < 2 ^ 31 ∧
      load blkRqNrPhysSegmentsDup d (w.outstanding.erase r) < 2 ^ 31
    exact ⟨by omega, by omega⟩

/-- **A completion that finds its device and sector.** -/
theorem Inv.complete_of_found (h : Inv w) (hr : r ∈ w.outstanding)
    (hdev : ddevt r ∈ w.maps.deviceQueue.keys) (hkey : startKey r ∈ w.maps.started4kIos.keys) :
    Inv ⟨blockRqComplete r ts startTimeNs ioStartTimeNs w.maps, w.outstanding.erase r⟩ := by
  obtain ⟨hget, hkeys⟩ := blockRqComplete_of_found ts startTimeNs ioStartTimeNs hdev hkey
  refine h.erase hr hkeys fun d q hq ↦ ?_
  rw [hget] at hq
  split_ifs at hq with hd
  · subst hd
    obtain ⟨h4ks, hsegs⟩ := h.lengths_eq (.inl hdev)
    obtain ⟨hunits, hsegments⟩ := h.bounded _ hdev
    rw [← load_erase_self hr] at hunits hsegments h4ks hsegs
    rw [← Option.some.inj hq, h4ks, hsegs, block4kIos_of_le (h.sized r hr hdev)]
    exact ⟨s32_sub hunits, s32_sub hsegments⟩
  · rw [load_erase_of_eq_zero hr fun he ↦ absurd he hd,
      load_erase_of_eq_zero hr fun he ↦ absurd he hd]
    exact h.lengths d q hq

/-- A completion that takes nothing from the lengths of its device. -/
theorem lengthsTrue_erase_iff (h : LengthsTrue w) (hr : r ∈ w.outstanding) {maps : Maps}
    (hqueue : maps.deviceQueue = w.maps.deviceQueue) :
    LengthsTrue ⟨maps, w.outstanding.erase r⟩ ↔
      (ddevt r ∈ w.maps.deviceQueue.keys → units r = 0 ∧ blkRqNrPhysSegmentsDup r = 0) := by
  constructor
  · intro htrue hdev
    obtain ⟨q, hq⟩ := Dict.exists_get?_of_mem_keys hdev
    obtain ⟨h4ks, hsegs⟩ := h _ q hq
    have htrue' : q.queueLength4ks = load units (ddevt r) (w.outstanding.erase r) ∧
        q.queueLengthSegments = load blkRqNrPhysSegmentsDup (ddevt r) (w.outstanding.erase r) :=
      htrue _ q (by rw [hqueue]; exact hq)
    obtain ⟨h4ks', hsegs'⟩ := htrue'
    have hunits := load_erase_self (f := units) hr
    have hsegments := load_erase_self (f := blkRqNrPhysSegmentsDup) hr
    exact ⟨by omega, by omega⟩
  · intro hzero d q hq
    rw [hqueue] at hq
    have hd : ddevt r = d → units r = 0 ∧ blkRqNrPhysSegmentsDup r = 0 := by
      rintro rfl
      exact hzero (mem_keys_of_get? hq)
    rw [load_erase_of_eq_zero hr fun he ↦ (hd he).1, load_erase_of_eq_zero hr fun he ↦ (hd he).2]
    exact h d q hq

/-! ### Steps and runs -/

/-- **A step that is counted keeps the lengths true.** -/
theorem inv_step {e : Event} (h : Inv w) (hc : Counted w e) (hs : step w e = some w') :
    Inv w' := by
  cases e with
  | issue r ts =>
    obtain rfl := Option.some.inj hs
    by_cases ht : Tracked w.maps (ddevt r)
    · obtain ⟨hbytes, hunits, hsegments⟩ := hc ht
      exact h.issue ts ht hbytes hunits hsegments
    · exact h.issue_of_not_tracked ts ht
  | complete r ts startTimeNs ioStartTimeNs =>
    rw [step] at hs
    split_ifs at hs with hr
    obtain rfl := Option.some.inj hs
    by_cases hfound : ddevt r ∈ w.maps.deviceQueue.keys ∧ startKey r ∈ w.maps.started4kIos.keys
    · exact h.complete_of_found ts startTimeNs ioStartTimeNs hr hfound.1 hfound.2
    · have hqueue := blockRqComplete_of_not_found (r := r) (m := w.maps) ts startTimeNs
        ioStartTimeNs fun hd hk ↦ hfound ⟨hd, hk⟩
      refine h.erase hr (fun d ↦ by rw [hqueue]) ((lengthsTrue_erase_iff h.lengths hr hqueue).2
        fun hd ↦ (hc hd).resolve_left fun hk ↦ hfound ⟨hd, hk⟩)

/-- An issue that leaves the lengths true has not wrapped. -/
theorem Inv.counted_of_issue (h : Inv w)
    (htrue : LengthsTrue ⟨blockRqIssue r ts w.maps, r :: w.outstanding⟩) :
    Counted w (.issue r ts) := by
  intro ht
  obtain ⟨hget, -⟩ := blockRqIssue_of_tracked ts ht
  obtain ⟨h4ks, hsegs⟩ := h.lengths_eq ht
  have htrue' : s32 ((BlkIo.lengths w.maps (ddevt r)).queueLength4ks + block4kIos r.dataLen) =
      load units (ddevt r) (r :: w.outstanding) ∧
      s32 ((BlkIo.lengths w.maps (ddevt r)).queueLengthSegments + blkRqNrPhysSegmentsDup r) =
        load blkRqNrPhysSegmentsDup (ddevt r) (r :: w.outstanding) :=
    htrue _ _ ((hget (ddevt r)).trans (if_pos rfl))
  rw [load_cons_self, load_cons_self] at htrue'
  obtain ⟨h4ks', hsegs'⟩ := htrue'
  have hunits := s32_lt ((BlkIo.lengths w.maps (ddevt r)).queueLength4ks + block4kIos r.dataLen)
  have hsegments :=
    s32_lt ((BlkIo.lengths w.maps (ddevt r)).queueLengthSegments + blkRqNrPhysSegmentsDup r)
  rw [h4ks'] at hunits
  rw [hsegs'] at hsegments
  refine ⟨?_, by omega, by omega⟩
  by_contra hbytes
  -- the wrapped length adds no unit
  rw [block4kIos_of_gt (not_le.1 hbytes), h4ks, s32_add (by omega)] at h4ks'
  have : 0 < units r := by
    rw [units]
    omega
  omega

/-- **A step that is not counted shows at once.** -/
theorem not_lengthsTrue_of_not_counted {e : Event} (h : Inv w) (hc : ¬ Counted w e)
    (hs : step w e = some w') : ¬ LengthsTrue w' := by
  intro htrue
  cases e with
  | issue r ts =>
    obtain rfl := Option.some.inj hs
    exact hc (h.counted_of_issue ts htrue)
  | complete r ts startTimeNs ioStartTimeNs =>
    rw [step] at hs
    split_ifs at hs with hr
    obtain rfl := Option.some.inj hs
    refine hc fun hd ↦ or_iff_not_imp_left.2 fun hk ↦ ?_
    have hqueue := blockRqComplete_of_not_found ts startTimeNs ioStartTimeNs
      fun _ : ddevt r ∈ w.maps.deviceQueue.keys ↦ hk
    exact (lengthsTrue_erase_iff h.lengths hr hqueue).1 htrue hd

theorem inv_init : Inv init :=
  ⟨fun _ _ hq ↦ absurd hq (Option.some_ne_none _).symm, fun _ hr ↦ absurd hr List.not_mem_nil,
    fun _ hr ↦ absurd hr List.not_mem_nil, fun _ hd ↦ absurd hd List.not_mem_nil⟩

/-- **When the queue lengths are the sums of what is outstanding**, in every state of a run: if and
only if every step of it is counted. -/
theorem lengths_iff {es : List Event} {w : World} (h : Run.exec step init es = some w) :
    (∀ pre w, pre <+: es → Run.exec step init pre = some w → LengthsTrue w) ↔
      Run.Always step Counted init es :=
  Run.forall_prefix_iff_always (I := Inv) (fun _ _ _ ↦ inv_step) (fun _ hw ↦ hw.lengths)
    (fun _ _ _ hw hc hs ↦ not_lengthsTrue_of_not_counted hw hc hs) inv_init h

/-! ### Examples -/

/-- A read of 4 KiB. -/
def readOne : Request := ⟨8, 0, 2048, 0, false, 1, 4096⟩

/-- A read of 8 KiB from the same sector. -/
def readTwo : Request := { readOne with nrPhysSegments := 2, dataLen := 8192 }

/-- The second is issued when the first is completed. -/
def inTurn : List Event :=
  [.issue readOne 1000, .complete readOne 9000 500 1000, .issue readTwo 10000,
    .complete readTwo 20000 9500 10000]

/-- Both are issued, then both are completed. -/
def sameSector : List Event :=
  [.issue readOne 1000, .issue readTwo 2000, .complete readOne 9000 500 1000,
    .complete readTwo 20000 1500 2000]

/-- One after the other, they are counted. -/
theorem lengths_iff_inTurn : ∃ w, Run.exec step init inTurn = some w ∧
    ∀ pre w, pre <+: inTurn → Run.exec step init pre = some w → LengthsTrue w := by
  obtain ⟨w, hw⟩ : ∃ w, Run.exec step init inTurn = some w := ⟨_, rfl⟩
  exact ⟨w, hw, (lengths_iff hw).2 (by decide +kernel)⟩

/-- The completion of the first removes the key of both, so that the second stays counted. -/
theorem not_lengthsTrue_sameSector : ∃ w, Run.exec step init sameSector = some w ∧
    w.outstanding = [] ∧ w.maps.deviceQueue.get? (ddevt readTwo) = some ⟨2, 2⟩ ∧
      ¬ LengthsTrue w := by
  have hget : ∀ w, Run.exec step init sameSector = some w →
      w.outstanding = [] ∧ w.maps.deviceQueue.get? (ddevt readTwo) = some ⟨2, 2⟩ := by
    decide +kernel
  obtain ⟨w, hw⟩ : ∃ w, Run.exec step init sameSector = some w := ⟨_, rfl⟩
  obtain ⟨hnil, hq⟩ := hget w hw
  refine ⟨w, hw, hnil, hq, fun htrue ↦ ?_⟩
  have h4ks := (htrue _ _ hq).1
  rw [hnil] at h4ks
  exact absurd h4ks (by decide)

end BlkIo
