import HugePageResearch.Library.FirstLeast
import HugePageResearch.Library.Sorts
import HugePageResearch.Proc.Maps
import HugePageResearch.Thp.CollapseHook
import Mathlib.Data.List.Dedup

/-!
# Comparing the mappings of two runs

`compare_maps.py` reads the tables that `proc_maps_hook.py` leaves of two runs, takes from each the
poll that is nearest to a point of the benchmark, and prints the mappings that both have and those
that only one of them has.

`compareAtPct_spec` follows this from the texts that the polls read: where the polls of a run come
at different times, the snapshot is what one poll read, the nearest one (of two, the earlier one),
and the three tables divide the mappings of the two snapshots by whether the other one has a mapping
with the same range, permissions, offset, device, inode and path.
-/

namespace Proc

open Sorts Thp Thp.Collapse

/-! ### The code -/

/-- The columns `VMA_KEY_COLS`. -/
structure VmaKey where
  startAddr : ℤ
  endAddr : ℤ
  perms : PyStr
  offset : ℤ
  dev : PyStr
  inode : ℤ
  pathname : PyStr
  deriving DecidableEq

/-- A row of a snapshot: `VMA_KEY_COLS + ["size_kb"]`. -/
structure VmaRow where
  key : VmaKey
  sizeKb : ℤ
  deriving DecidableEq

/-- The columns of a row. -/
def ProcMapsData.vmaRow (r : ProcMapsData) : VmaRow :=
  ⟨⟨r.startAddr, r.endAddr, r.perms, r.offset, r.dev, r.inode, r.pathname⟩, r.sizeKb⟩

/-- The order of `sort("pathname", "start_addr")`. -/
def PathLe (r s : VmaRow) : Prop :=
  r.key.pathname ≤ s.key.pathname ∧
    (r.key.pathname = s.key.pathname → r.key.startAddr ≤ s.key.startAddr)

instance : DecidableRel PathLe := fun _ _ ↦ inferInstanceAs (Decidable (_ ∧ _))

/-- The sorts, which leave open what comes first of equal rows. -/
structure MapsSorts where
  /-- `sort("start_addr")`. -/
  byStart : SortBy fun r : VmaRow ↦ r.key.startAddr
  /-- `sort("pathname", "start_addr")`. -/
  byPath : List VmaRow → List VmaRow
  perm_byPath : ∀ rows, (byPath rows).Perm rows
  sorted_byPath : ∀ rows, (byPath rows).Pairwise PathLe

theorem pathLe_total (r s : VmaRow) : PathLe r s ∨ PathLe s r := by
  rcases lt_trichotomy r.key.pathname s.key.pathname with hlt | heq | hlt
  · exact .inl ⟨hlt.le, fun h ↦ absurd h hlt.ne⟩
  · exact (Int.le_total r.key.startAddr s.key.startAddr).imp
      (fun hstart ↦ ⟨heq.le, fun _ ↦ hstart⟩) fun hstart ↦ ⟨heq.ge, fun _ ↦ hstart⟩
  · exact .inr ⟨hlt.le, fun h ↦ absurd h hlt.ne⟩

theorem pathLe_trans {r s t : VmaRow} (h : PathLe r s) (h' : PathLe s t) : PathLe r t := by
  refine ⟨le_trans h.1 h'.1, fun heq ↦ ?_⟩
  have hrs : r.key.pathname = s.key.pathname := le_antisymm h.1 (heq ▸ h'.1)
  exact Int.le_trans (h.2 hrs) (h'.2 (hrs.symm.trans heq))

/-- Insertion sorts. -/
def mapsSorts : MapsSorts where
  byStart := .ofInsertionSort _
  byPath := List.insertionSort PathLe
  perm_byPath rows := List.perm_insertionSort _ rows
  sorted_byPath rows :=
    have : Std.Total PathLe := ⟨pathLe_total⟩
    have : IsTrans VmaRow PathLe := ⟨fun _ _ _ ↦ pathLe_trans⟩
    List.pairwise_insertionSort _ rows

/-- `df["ts_uptime_us"].unique().sort()`. -/
def timestamps (df : List ProcMapsData) : List ℤ :=
  (df.map ProcMapsData.tsUptimeUs).dedup.insertionSort (· ≤ ·)

/-- `target_us`: `offsetUs` is what `int(collection_time_sec * 1_000_000 * pct / 100.0)` gives. -/
def targetUs (uptimeSec offsetUs : ℤ) : ℤ := uptimeSec * 1000000 + offsetUs

/-- `snapshot_at_pct`: the rows, and the time that they are from; `none` is a table without rows. -/
def snapshotAtPct (S : MapsSorts) (df : List ProcMapsData) (uptimeSec offsetUs : ℤ) :
    Option (List VmaRow × ℤ) :=
  (firstLeast (fun t ↦ (t - targetUs uptimeSec offsetUs).natAbs) (timestamps df)).map fun closest ↦
    (S.byStart.sort ((df.filter fun r ↦ r.tsUptimeUs = closest).map ProcMapsData.vmaRow), closest)

/-- `a.join(b, on=VMA_KEY_COLS, how="semi")`. -/
def semiJoin (a b : List VmaRow) : List VmaRow := a.filter fun r ↦ r.key ∈ b.map VmaRow.key

/-- `a.join(b, on=VMA_KEY_COLS, how="anti")`. -/
def antiJoin (a b : List VmaRow) : List VmaRow := a.filter fun r ↦ r.key ∉ b.map VmaRow.key

/-- What `compare_at_pct` prints. -/
structure Comparison where
  common : List VmaRow
  onlyA : List VmaRow
  onlyB : List VmaRow

/-- `compare_at_pct`. -/
def compareAtPct (S : MapsSorts) (dfA dfB : List ProcMapsData)
    (uptimeA offsetA uptimeB offsetB : ℤ) : Option Comparison :=
  (snapshotAtPct S dfA uptimeA offsetA).bind fun a ↦
    (snapshotAtPct S dfB uptimeB offsetB).map fun b ↦
      { common := S.byPath (semiJoin a.1 b.1)
        onlyA := S.byPath (antiJoin a.1 b.1)
        onlyB := S.byPath (antiJoin b.1 a.1) }

/-! ### The polls -/

/-- What a poll finds: the time, and the mappings that the kernel prints, which start at different
addresses and have plain paths. -/
structure Poll where
  tsUptimeUs : ℤ
  mappings : List Mapping
  distinct : (mappings.map Mapping.start).Nodup
  plain : ∀ m ∈ mappings, Plain m.pathname

/-- The polls of a run, with the directories of `/proc` that each of them sees. -/
def pollAll [Python] (hook : ProcMapsHook) :
    List (List (PyStr × Option PyStr) × Poll) → ProcMapsHook × Option PollError
  | [] => (hook, none)
  | (proc, p) :: polls =>
    match hook.poll proc (some (mapsText p.mappings)) p.tsUptimeUs with
    | (hook, some e) => (hook, some e)
    | (hook, none) => pollAll hook polls

/-- The rows of the polls of a process. -/
def rowsOf (pid : ℤ) (polls : List Poll) : List ProcMapsData :=
  polls.flatMap fun p ↦ p.mappings.map (Mapping.row · pid p.tsUptimeUs)

/-- The row of a mapping in a snapshot. -/
def Mapping.vmaRow (m : Mapping) : VmaRow where
  key := ⟨m.start, m.stop, m.perms, m.offset, m.dev, m.inode, m.pathname⟩
  sizeKb := ((m.stop - m.start) / 1024 : ℕ)

/-- Another mapping with the same range, permissions, offset, device, inode and path. -/
def Has (p : Poll) (m : Mapping) : Prop := ∃ m' ∈ p.mappings, m'.vmaRow.key = m.vmaRow.key

instance (p : Poll) (m : Mapping) : Decidable (Has p m) :=
  inferInstanceAs (Decidable (∃ m' ∈ p.mappings, _))

/-- **The poll that is nearest to a time**, of those that found mappings, and of two the earlier
one. -/
structure Nearest (polls : List Poll) (t : ℤ) (p : Poll) : Prop where
  mem : p ∈ polls
  ne_nil : p.mappings ≠ []
  least : ∀ q ∈ polls, q.mappings ≠ [] → (p.tsUptimeUs - t).natAbs < (q.tsUptimeUs - t).natAbs ∨
    (p.tsUptimeUs - t).natAbs = (q.tsUptimeUs - t).natAbs ∧ p.tsUptimeUs ≤ q.tsUptimeUs

/-- A table of the polls of a process: the hook found the process at the first one, the polls come
at different times, some of them found a mapping, and the rows come in any order. -/
structure Recorded [Python] (hook : ProcMapsHook)
    (polls : List (List (PyStr × Option PyStr) × Poll)) (pid : ℤ) (df : List ProcMapsData) :
    Prop where
  fresh : hook.samples = []
  target : ∀ proc ∈ polls.head?.map Prod.fst, hook.target proc = .ok (some pid)
  times : ((polls.map Prod.snd).map Poll.tsUptimeUs).Nodup
  found : ∃ p ∈ polls.map Prod.snd, p.mappings ≠ []
  perm : df.Perm (pollAll hook polls).1.samples

/-! ### The rows of the polls -/

section Polls

variable {pid t : ℤ} {p : Poll} {polls : List Poll}

/-- **The polls record their rows**, one after the other. -/
theorem pollAll_rows [Python] {hook : ProcMapsHook}
    {polls : List (List (PyStr × Option PyStr) × Poll)}
    (h : ∀ proc ∈ polls.head?.map Prod.fst, hook.target proc = .ok (some pid)) :
    (pollAll hook polls).2 = none ∧
      (pollAll hook polls).1.samples = hook.samples ++ rowsOf pid (polls.map Prod.snd) := by
  induction polls generalizing hook with
  | nil => exact ⟨rfl, (List.append_nil _).symm⟩
  | cons e polls ih =>
    obtain ⟨proc, p⟩ := e
    -- the process is not looked for again
    obtain ⟨hnone, hsamples⟩ := @ih { hook with
      targetPid := some pid
      samples := hook.samples ++ p.mappings.map (Mapping.row · pid p.tsUptimeUs) }
      fun _ _ ↦ rfl
    rw [pollAll, poll_of_plain (h proc rfl) p.plain]
    refine ⟨hnone, hsamples.trans ?_⟩
    rw [List.append_assoc]
    rfl

theorem mem_rowsOf {r : ProcMapsData} : r ∈ rowsOf pid polls ↔
    ∃ p ∈ polls, ∃ m ∈ p.mappings, m.row pid p.tsUptimeUs = r := by
  rw [rowsOf, List.mem_flatMap]
  exact exists_congr fun p ↦ and_congr_right fun _ ↦ List.mem_map

/-- The rows of a time. -/
theorem filter_row (ms : List Mapping) (s : ℤ) :
    (ms.map (Mapping.row · pid s)).filter (fun r ↦ r.tsUptimeUs = t) =
      if s = t then ms.map (Mapping.row · pid s) else [] := by
  split_ifs with hs
  · exact List.filter_eq_self.2 (List.forall_mem_map.2 fun m _ ↦ decide_eq_true hs)
  · exact List.filter_eq_nil_iff.2
      (List.forall_mem_map.2 fun m _ htime ↦ hs (of_decide_eq_true htime))

/-- **The rows of a time are those of one poll**, where no two polls come at one time. -/
theorem filter_rowsOf (hnd : (polls.map Poll.tsUptimeUs).Nodup) (hp : p ∈ polls) :
    (rowsOf pid polls).filter (fun r ↦ r.tsUptimeUs = p.tsUptimeUs) =
      p.mappings.map (Mapping.row · pid p.tsUptimeUs) := by
  induction polls with
  | nil => exact absurd hp List.not_mem_nil
  | cons q polls ih =>
    obtain ⟨hq, hnd⟩ := List.nodup_cons.1 hnd
    rw [rowsOf, List.flatMap_cons, List.filter_append, filter_row]
    rcases List.mem_cons.1 hp with rfl | hp
    · have hrest : (rowsOf pid polls).filter (fun r ↦ r.tsUptimeUs = p.tsUptimeUs) = [] := by
        refine List.filter_eq_nil_iff.2 fun r hr htime ↦ hq ?_
        obtain ⟨p', hp', m, -, rfl⟩ := mem_rowsOf.1 hr
        exact List.mem_map.2 ⟨p', hp', of_decide_eq_true htime⟩
      rw [if_pos rfl]
      exact (congrArg (_ ++ ·) hrest).trans (List.append_nil _)
    · have hne : q.tsUptimeUs ≠ p.tsUptimeUs := fun heq ↦
        hq (heq ▸ List.mem_map_of_mem hp)
      rw [if_neg hne, List.nil_append]
      exact ih hnd hp

end Polls

/-! ### Snapshots -/

section Snapshots

variable {df : List ProcMapsData} {pid t : ℤ} {p : Poll} {polls : List Poll}

theorem mem_timestamps : t ∈ timestamps df ↔ ∃ r ∈ df, r.tsUptimeUs = t := by
  rw [timestamps, List.mem_insertionSort, List.mem_dedup, List.mem_map]

theorem pairwise_timestamps (df : List ProcMapsData) :
    (timestamps df).Pairwise fun s t ↦ s ≤ t := by
  have : Std.Total fun s t : ℤ ↦ s ≤ t := ⟨Int.le_total⟩
  have : IsTrans ℤ fun s t ↦ s ≤ t := ⟨fun _ _ _ ↦ Int.le_trans⟩
  exact List.pairwise_insertionSort _ _

/-- **A snapshot is what the nearest poll read.** -/
theorem exists_snapshotAtPct (S : MapsSorts) (uptimeSec offsetUs : ℤ)
    (hdf : df.Perm (rowsOf pid polls)) (hnd : (polls.map Poll.tsUptimeUs).Nodup)
    (hne : ∃ p ∈ polls, p.mappings ≠ []) :
    ∃ p rows, Nearest polls (targetUs uptimeSec offsetUs) p ∧
      snapshotAtPct S df uptimeSec offsetUs = some (rows, p.tsUptimeUs) ∧
      rows.Perm (p.mappings.map Mapping.vmaRow) := by
  have hmem : ∀ t, t ∈ timestamps df ↔ ∃ p ∈ polls, p.mappings ≠ [] ∧ p.tsUptimeUs = t := by
    intro t
    rw [mem_timestamps]
    constructor
    · rintro ⟨r, hr, rfl⟩
      obtain ⟨p, hp, m, hm, rfl⟩ := mem_rowsOf.1 (hdf.mem_iff.1 hr)
      exact ⟨p, hp, List.ne_nil_of_mem hm, rfl⟩
    · rintro ⟨p, hp, hne, rfl⟩
      obtain ⟨m, hm⟩ := List.exists_mem_of_ne_nil _ hne
      exact ⟨m.row pid p.tsUptimeUs, hdf.mem_iff.2 (mem_rowsOf.2 ⟨p, hp, m, hm, rfl⟩), rfl⟩
  have hsome : timestamps df ≠ [] := by
    obtain ⟨p, hp, hne⟩ := hne
    exact List.ne_nil_of_mem ((hmem _).2 ⟨p, hp, hne, rfl⟩)
  obtain ⟨closest, hclosest, hleast⟩ := exists_firstLeast
    (f := fun t ↦ (t - targetUs uptimeSec offsetUs).natAbs) hsome
  obtain ⟨p, hp, hpne, rfl⟩ := (hmem closest).1 hleast.mem
  refine ⟨p, S.byStart.sort ((df.filter fun r ↦ r.tsUptimeUs = p.tsUptimeUs).map
    ProcMapsData.vmaRow), ⟨hp, hpne, fun q hq hqne ↦ ?_⟩, ?_, ?_⟩
  · have hq : q.tsUptimeUs ∈ timestamps df := (hmem _).2 ⟨q, hq, hqne, rfl⟩
    rcases hleast.lt_or_le (pairwise_timestamps df) (Int.le_refl _) hq with hlt | ⟨hle, htime⟩
    · exact .inl hlt
    · exact (Nat.lt_or_eq_of_le hle).imp id fun heq ↦ ⟨heq, htime⟩
  · rw [snapshotAtPct, hclosest]
    rfl
  · refine (S.byStart.perm _).trans ?_
    have hrows := (hdf.filter fun r ↦ decide (r.tsUptimeUs = p.tsUptimeUs)).map ProcMapsData.vmaRow
    rw [filter_rowsOf hnd hp, List.map_map] at hrows
    exact hrows

end Snapshots

/-! ### The tables of a comparison -/

section Tables

variable {a b : List VmaRow} {p q : Poll}

theorem has_iff {m : Mapping} :
    Has q m ↔ m.vmaRow.key ∈ (q.mappings.map Mapping.vmaRow).map VmaRow.key := by
  rw [List.map_map, List.mem_map]
  exact Iff.rfl

/-- The rows of one snapshot whose keys the other one has. -/
theorem semiJoin_perm (ha : a.Perm (p.mappings.map Mapping.vmaRow))
    (hb : b.Perm (q.mappings.map Mapping.vmaRow)) :
    (semiJoin a b).Perm ((p.mappings.filter (Has q)).map Mapping.vmaRow) := by
  have hkeys : ∀ r : VmaRow, r.key ∈ b.map VmaRow.key ↔
      r.key ∈ (q.mappings.map Mapping.vmaRow).map VmaRow.key := fun _ ↦
    (hb.map VmaRow.key).mem_iff
  refine (ha.filter _).trans (List.Perm.of_eq ?_)
  rw [List.filter_map]
  refine congrArg (List.map _) (List.filter_congr fun m _ ↦ decide_eq_decide.2 ?_)
  exact (hkeys _).trans has_iff.symm

/-- The rows of one snapshot whose keys the other one lacks. -/
theorem antiJoin_perm (ha : a.Perm (p.mappings.map Mapping.vmaRow))
    (hb : b.Perm (q.mappings.map Mapping.vmaRow)) :
    (antiJoin a b).Perm ((p.mappings.filter fun m ↦ ¬ Has q m).map Mapping.vmaRow) := by
  have hkeys : ∀ r : VmaRow, r.key ∈ b.map VmaRow.key ↔
      r.key ∈ (q.mappings.map Mapping.vmaRow).map VmaRow.key := fun _ ↦
    (hb.map VmaRow.key).mem_iff
  refine (ha.filter _).trans (List.Perm.of_eq ?_)
  rw [List.filter_map]
  refine congrArg (List.map _) (List.filter_congr fun m _ ↦ decide_eq_decide.2 (not_congr ?_))
  exact (hkeys _).trans has_iff.symm

/-- The keys of a poll. -/
theorem nodup_keys (p : Poll) : (p.mappings.map fun m ↦ m.vmaRow.key).Nodup := by
  refine List.Nodup.of_map (fun k : VmaKey ↦ k.startAddr.toNat) ?_
  rw [List.map_map]
  exact p.distinct

/-- **What two polls share is the same for both.** -/
theorem length_filter_has (p q : Poll) :
    (p.mappings.filter (Has q)).length = (q.mappings.filter (Has p)).length := by
  have hshared : ∀ p q : Poll, ((p.mappings.filter (Has q)).map fun m ↦ m.vmaRow.key).Nodup ∧
      ∀ k, k ∈ (p.mappings.filter (Has q)).map (fun m ↦ m.vmaRow.key) ↔
        k ∈ p.mappings.map (fun m ↦ m.vmaRow.key) ∧ k ∈ q.mappings.map fun m ↦ m.vmaRow.key := by
    intro p q
    refine ⟨(nodup_keys p).sublist (List.filter_sublist.map _), fun k ↦ ?_⟩
    simp only [List.mem_map, List.mem_filter, decide_eq_true_eq]
    constructor
    · rintro ⟨m, ⟨hm, m', hm', hkey⟩, rfl⟩
      exact ⟨⟨m, hm, rfl⟩, m', hm', hkey⟩
    · rintro ⟨⟨m, hm, rfl⟩, m', hm', hkey⟩
      exact ⟨m, ⟨hm, m', hm', hkey⟩, rfl⟩
  obtain ⟨hnd, hmem⟩ := hshared p q
  obtain ⟨hnd', hmem'⟩ := hshared q p
  have hperm := (List.perm_ext_iff_of_nodup hnd hnd').2 fun k ↦
    (hmem k).trans (and_comm.trans (hmem' k).symm)
  simpa only [List.length_map] using hperm.length_eq

/-- **What the comparison says** of two snapshots. -/
structure Compares (c : Comparison) (p q : Poll) : Prop where
  common : c.common.Perm ((p.mappings.filter (Has q)).map Mapping.vmaRow)
  onlyA : c.onlyA.Perm ((p.mappings.filter fun m ↦ ¬ Has q m).map Mapping.vmaRow)
  onlyB : c.onlyB.Perm ((q.mappings.filter fun m ↦ ¬ Has p m).map Mapping.vmaRow)
  length_a : c.common.length + c.onlyA.length = p.mappings.length
  length_b : c.common.length + c.onlyB.length = q.mappings.length
  sorted : c.common.Pairwise PathLe ∧ c.onlyA.Pairwise PathLe ∧ c.onlyB.Pairwise PathLe

theorem length_filter_add (p q : Poll) : (p.mappings.filter (Has q)).length +
    (p.mappings.filter fun m ↦ ¬ Has q m).length = p.mappings.length := by
  rw [(p.mappings).length_eq_length_filter_add fun m ↦ decide (Has q m)]
  simp only [decide_not]

theorem compares (S : MapsSorts) (ha : a.Perm (p.mappings.map Mapping.vmaRow))
    (hb : b.Perm (q.mappings.map Mapping.vmaRow)) :
    Compares ⟨S.byPath (semiJoin a b), S.byPath (antiJoin a b), S.byPath (antiJoin b a)⟩ p q := by
  have hcommon := (S.perm_byPath _).trans (semiJoin_perm ha hb)
  have honlyA := (S.perm_byPath _).trans (antiJoin_perm ha hb)
  have honlyB := (S.perm_byPath _).trans (antiJoin_perm hb ha)
  refine ⟨hcommon, honlyA, honlyB, ?_, ?_,
    ⟨S.sorted_byPath _, S.sorted_byPath _, S.sorted_byPath _⟩⟩
  · show (S.byPath _).length + (S.byPath _).length = _
    rw [hcommon.length_eq, honlyA.length_eq, List.length_map, List.length_map, length_filter_add]
  · show (S.byPath _).length + (S.byPath _).length = _
    rw [hcommon.length_eq, honlyB.length_eq, List.length_map, List.length_map,
      length_filter_has p q, length_filter_add]

/-- The rows of a table are those of its polls. -/
theorem Recorded.rows [Python] {hook : ProcMapsHook}
    {polls : List (List (PyStr × Option PyStr) × Poll)} {pid : ℤ} {df : List ProcMapsData}
    (h : Recorded hook polls pid df) : df.Perm (rowsOf pid (polls.map Prod.snd)) := by
  have hperm := h.perm
  rwa [(pollAll_rows h.target).2, h.fresh, List.nil_append] at hperm

/-- **The comparison of two runs** is that of what the nearest poll of each of them read. -/
theorem compareAtPct_spec [Python] {hookA hookB : ProcMapsHook}
    {pollsA pollsB : List (List (PyStr × Option PyStr) × Poll)} {pidA pidB : ℤ}
    {dfA dfB : List ProcMapsData} (S : MapsSorts) (uptimeA offsetA uptimeB offsetB : ℤ)
    (hA : Recorded hookA pollsA pidA dfA) (hB : Recorded hookB pollsB pidB dfB) :
    ∃ c p q, compareAtPct S dfA dfB uptimeA offsetA uptimeB offsetB = some c ∧
      Nearest (pollsA.map Prod.snd) (targetUs uptimeA offsetA) p ∧
      Nearest (pollsB.map Prod.snd) (targetUs uptimeB offsetB) q ∧ Compares c p q := by
  obtain ⟨p, a, hp, ha, hpa⟩ := exists_snapshotAtPct S uptimeA offsetA hA.rows hA.times hA.found
  obtain ⟨q, b, hq, hb, hqb⟩ := exists_snapshotAtPct S uptimeB offsetB hB.rows hB.times hB.found
  refine ⟨_, p, q, ?_, hp, hq, compares S hpa hqb⟩
  rw [compareAtPct, ha, hb]
  rfl

/-- A poll that found two of the mappings. -/
def pairPoll (t : ℤ) (m m' : Mapping) (hm : m ∈ threeMappings) (hm' : m' ∈ threeMappings)
    (hne : m.start ≠ m'.start) : Poll where
  tsUptimeUs := t
  mappings := [m, m']
  distinct := List.nodup_cons.2 ⟨mt List.mem_singleton.1 hne, List.nodup_singleton _⟩
  plain := List.forall_mem_cons.2 ⟨plain_threeMappings m hm,
    List.forall_mem_singleton.2 (plain_threeMappings m' hm')⟩

/-- Two polls of a process with a heap, which maps a file between them. -/
def pollsOfFile : List Poll :=
  [⟨5, [.ofVma heapRegion], List.nodup_singleton _, List.forall_mem_singleton.2
      (plain_threeMappings _ List.mem_cons_self)⟩,
    pairPoll 20 (.ofVma heapRegion) (.ofVma fileRegion) List.mem_cons_self
      (List.mem_cons_of_mem _ List.mem_cons_self) (by decide)]

/-- One poll of a process with a heap and no file. -/
def pollsOfPage : List Poll :=
  [pairPoll 9 (.ofVma heapRegion) vsyscallPage List.mem_cons_self
    (List.mem_cons_of_mem _ (List.mem_cons_of_mem _ List.mem_cons_self)) (by decide)]

/-- What the hook records of polls. -/
theorem recorded_rowsOf {polls : List Poll} (times : (polls.map Poll.tsUptimeUs).Nodup)
    (found : ∃ p ∈ polls, p.mappings ≠ []) : @Recorded Python.ascii ⟨some 7, fun _ ↦ false, []⟩
      (polls.map fun p ↦ ([], p)) 7 (rowsOf 7 polls) := by
  have hpolls : (polls.map fun p ↦ (([] : List (PyStr × Option PyStr)), p)).map Prod.snd = polls :=
    List.map_map.trans (List.map_id _)
  have hrows := (@pollAll_rows 7 Python.ascii ⟨some 7, fun _ ↦ false, []⟩
    (polls.map fun p ↦ ([], p)) fun _ _ ↦ rfl).2
  rw [hpolls] at hrows
  refine @Recorded.mk Python.ascii _ _ _ _ rfl (fun _ _ ↦ rfl) ?_ ?_ ?_
  · rwa [hpolls]
  · rwa [hpolls]
  · rw [hrows]
    exact List.Perm.refl _

/-- The second poll of the one run and the only one of the other are compared, which share the heap
and have a mapping each besides. -/
theorem compareAtPct_spec_pollsOfFile : ∃ c p q, compareAtPct mapsSorts (rowsOf 7 pollsOfFile)
      (rowsOf 7 pollsOfPage) 0 18 0 100 = some c ∧
    Nearest pollsOfFile (targetUs 0 18) p ∧ Nearest pollsOfPage (targetUs 0 100) q ∧
      Compares c p q :=
  @compareAtPct_spec Python.ascii _ _ _ _ _ _ _ _ mapsSorts 0 18 0 100
    (recorded_rowsOf (by decide) ⟨_, List.mem_cons_self, List.cons_ne_nil _ _⟩)
    (recorded_rowsOf (by decide) ⟨_, List.mem_cons_self, List.cons_ne_nil _ _⟩)

end Tables

end Proc
