import HugePageResearch.Library.Lists
import HugePageResearch.Library.Paced
import HugePageResearch.Thp.ProcSmaps
import Mathlib.Data.List.Forall2

/-!
# Counters of `/proc/meminfo` and `/proc/vmstat`

`memory_usage_hook.py` keeps the text of `/proc/meminfo` at each poll and parses it when the data is
asked for; `vmstat_harness.py` reads `/proc/vmstat` at a poll if the last sample is old enough.

## The results

`memoryUsage_run`: in whatever order polls and pops come, each table that is popped holds one row
for each poll since the pop before it, in order, and each column is 1024 times what the kernel
printed then, bytes where it prints kilobytes; a pop with no poll before it gives one row that holds
the collection id alone. `vmstat_run`: the samples are those of some of the polls, in order, with
the counters of that poll; two of them are an interval apart, and a poll without a sample comes less
than an interval after one.
-/

namespace Proc

open Thp

/-! ### Memory usage -/

/-- `MemoryUsageData`. -/
structure MemoryUsageData where
  tsUptimeUs : ℤ
  memTotalBytes : ℤ
  memFreeBytes : ℤ
  memAvailableBytes : ℤ
  buffersBytes : ℤ
  cachedBytes : ℤ
  swapTotalBytes : ℤ
  swapFreeBytes : ℤ
  dirtyBytes : ℤ
  writebackBytes : ℤ
  anonPagesTotalBytes : ℤ
  anonHugepagesTotalBytes : ℤ
  mappedTotalBytes : ℤ
  shmemTotalBytes : ℤ
  hugepagesTotal : ℤ
  hugepagesFree : ℤ
  hugepagesReserved : ℤ
  hugepageSizeBytes : ℤ
  hardwareCorruptedBytes : ℤ
  deriving DecidableEq

/-- `from_procfs_map`. -/
def fromProcfsMap (tsUptimeUs : ℤ) (procfsMap : Dict PyStr ℤ) : MemoryUsageData :=
  let get (key : String) : ℤ := (procfsMap.get? key.toList).getD 0
  { tsUptimeUs
    memTotalBytes := get "MemTotal" * 1024
    memFreeBytes := get "MemFree" * 1024
    memAvailableBytes := get "MemAvailable" * 1024
    buffersBytes := get "Buffers" * 1024
    cachedBytes := get "Cached" * 1024
    swapTotalBytes := get "SwapTotal" * 1024
    swapFreeBytes := get "SwapFree" * 1024
    dirtyBytes := get "Dirty" * 1024
    writebackBytes := get "Writeback" * 1024
    anonPagesTotalBytes := get "AnonPages" * 1024
    anonHugepagesTotalBytes := get "AnonHugePages" * 1024
    mappedTotalBytes := get "Mapped" * 1024
    shmemTotalBytes := get "Shmem" * 1024
    -- the three numbers of pages are multiplied as well
    hugepagesTotal := get "HugePages_Total" * 1024
    hugepagesFree := get "HugePages_Free" * 1024
    hugepagesReserved := get "HugePages_Rsvd" * 1024
    hugepageSizeBytes := get "Hugepagesize" * 1024
    hardwareCorruptedBytes := get "HardwareCorrupted" * 1024 }

/-- The columns, with the keys that they are read from. -/
def memoryColumns : List (PyStr × (MemoryUsageData → ℤ)) :=
  [("MemTotal".toList, (·.memTotalBytes)), ("MemFree".toList, (·.memFreeBytes)),
    ("MemAvailable".toList, (·.memAvailableBytes)), ("Buffers".toList, (·.buffersBytes)),
    ("Cached".toList, (·.cachedBytes)), ("SwapTotal".toList, (·.swapTotalBytes)),
    ("SwapFree".toList, (·.swapFreeBytes)), ("Dirty".toList, (·.dirtyBytes)),
    ("Writeback".toList, (·.writebackBytes)), ("AnonPages".toList, (·.anonPagesTotalBytes)),
    ("AnonHugePages".toList, (·.anonHugepagesTotalBytes)),
    ("Mapped".toList, (·.mappedTotalBytes)), ("Shmem".toList, (·.shmemTotalBytes)),
    ("HugePages_Total".toList, (·.hugepagesTotal)), ("HugePages_Free".toList, (·.hugepagesFree)),
    ("HugePages_Rsvd".toList, (·.hugepagesReserved)),
    ("Hugepagesize".toList, (·.hugepageSizeBytes)),
    ("HardwareCorrupted".toList, (·.hardwareCorruptedBytes))]

/-- `MemoryUsageDataRaw`. -/
structure MemoryUsageDataRaw where
  tsUptimeUs : ℤ
  procfsDump : PyStr

/-- `s.removesuffix(suffix)`. -/
def removesuffix (suffix s : PyStr) : PyStr :=
  if PyStr.endswith s suffix then s.take (s.length - suffix.length) else s

section Parse

variable [Python]

/-- An entry of `procfs_map`, of the two parts of a line. -/
def procfsEntry (parts : PyStr × PyStr) : Except ParseError (PyStr × ℤ) :=
  (parseInt 10 (PyStr.strip (removesuffix "kB".toList parts.2))).map fun n ↦
    (PyStr.strip parts.1, n)

/-- `parse`. -/
def MemoryUsageDataRaw.parse (raw : MemoryUsageDataRaw) : Except ParseError MemoryUsageData :=
  let procfsLines := (PyStr.splitlines raw.procfsDump).filterMap (PyStr.splitOnce ':')
  (procfsLines.mapM procfsEntry).map fun es ↦
    fromProcfsMap raw.tsUptimeUs (es.foldl (fun d e ↦ d.set e.1 e.2) .empty)

end Parse

/-- A row of `MemoryUsageTable`: the collection id, and the columns of the data, which a frame of
no data does not have. -/
structure MemoryUsageRow where
  collectionId : PyStr
  data : Option MemoryUsageData
  deriving DecidableEq

/-- `MemoryUsageTable.from_df_id`: the literal column of the collection id is as long as the other
columns, and one row long in a frame that has no other column. -/
def MemoryUsageTable.fromDfId (collectionId : PyStr) : List MemoryUsageData → List MemoryUsageRow
  | [] => [⟨collectionId, none⟩]
  | d :: ds => (d :: ds).map fun d ↦ ⟨collectionId, some d⟩

section Hook

variable [Python] (collectionId : PyStr)

/-- `data`. -/
def memoryTable (memoryUsage : List MemoryUsageDataRaw) : Except ParseError (List MemoryUsageRow) :=
  (memoryUsage.mapM MemoryUsageDataRaw.parse).map (MemoryUsageTable.fromDfId collectionId)

/-- What the collector does with the hook. -/
inductive MemoryOp where
  | poll (raw : MemoryUsageDataRaw)
  | popData

/-- `poll` and `pop_data`, one after the other: what is left in the hook, and the tables. -/
def memoryRun : List MemoryUsageDataRaw → List MemoryOp →
    Except ParseError (List MemoryUsageDataRaw × List (List MemoryUsageRow))
  | memoryUsage, [] => .ok (memoryUsage, [])
  | memoryUsage, .poll raw :: ops => memoryRun (memoryUsage ++ [raw]) ops
  | memoryUsage, .popData :: ops =>
    (memoryTable collectionId memoryUsage).bind fun table ↦
      (memoryRun [] ops).map fun run ↦ (run.1, table :: run.2)

end Hook

/-! ### Counters of the memory manager -/

/-- `VMSTAT_KEYS`. -/
def vmstatKeys : List PyStr :=
  ["pgfault".toList, "pgmajfault".toList, "pgmigrate_success".toList, "pgmigrate_fail".toList,
    "thp_migration_success".toList, "thp_migration_fail".toList, "thp_migration_split".toList,
    "compact_migrate_scanned".toList, "compact_free_scanned".toList, "compact_isolated".toList,
    "compact_stall".toList, "compact_fail".toList, "compact_success".toList,
    "compact_daemon_wake".toList, "thp_fault_alloc".toList, "thp_fault_fallback".toList,
    "thp_collapse_alloc".toList, "thp_collapse_alloc_failed".toList, "thp_split_page".toList,
    "thp_split_page_failed".toList, "thp_deferred_split_page".toList, "thp_split_pmd".toList]

/-- `VMStatSample`: its counters are those of `VMSTAT_KEYS`, in this order. -/
structure VMStatSample where
  tsNs : ℤ
  counters : List ℤ
  deriving DecidableEq

/-- The hook. -/
structure VMStatHarnessHook where
  samples : List VMStatSample
  lastSampleNs : ℤ
  sampleIntervalNs : ℤ

section Parse

variable [Python]

/-- `_parse_vmstat`, of the lines. -/
def parseVmstatLines (values : Dict PyStr ℤ) : List PyStr → Except ParseError (Dict PyStr ℤ)
  | [] => .ok values
  | line :: lines =>
    match PyStr.split line with
    | [key, value] =>
      if key ∈ vmstatKeys then
        (parseInt 10 value).bind fun n ↦ parseVmstatLines (values.set key n) lines
      else parseVmstatLines values lines
    | _ => parseVmstatLines values lines

/-- `_parse_vmstat`. -/
def parseVmstat (raw : PyStr) : Except ParseError (Dict PyStr ℤ) :=
  parseVmstatLines .empty (PyStr.splitlines raw)

/-- `poll`: the hook after it, and what it raised. -/
def VMStatHarnessHook.poll (hook : VMStatHarnessHook) (now : ℤ) (raw : PyStr) :
    VMStatHarnessHook × Option ParseError :=
  if now - hook.lastSampleNs < hook.sampleIntervalNs then (hook, none)
  else
    match parseVmstat raw with
    | .error e => ({ hook with lastSampleNs := now }, some e)
    | .ok values =>
      ({ hook with
          lastSampleNs := now
          samples := hook.samples ++
            [⟨now, vmstatKeys.map fun key ↦ (values.get? key).getD 0⟩] }, none)

/-- Polls, one after the other, until one raises. -/
def VMStatHarnessHook.polls (hook : VMStatHarnessHook) :
    List (ℤ × PyStr) → VMStatHarnessHook × Option ParseError
  | [] => (hook, none)
  | (now, raw) :: ps =>
    match hook.poll now raw with
    | (hook, some e) => (hook, some e)
    | (hook, none) => hook.polls ps

end Parse

/-! ### What the kernel prints -/

/-- A line of `/proc/meminfo`. -/
structure MemLine where
  key : PyStr
  no_colon : ':' ∉ key
  oneLine : ∀ c ∈ key, PyStr.isLineBreak c = false
  stripped : PyStr.strip key = key
  /-- The blanks before the number. -/
  pad : ℕ
  value : ℕ
  kB : Bool

/-- `key: value kB`. -/
def MemLine.text (l : MemLine) : PyStr :=
  l.key ++ ':' :: (List.replicate l.pad ' ' ++ (Nat.toDigits 10 l.value ++
    if l.kB then " kB".toList else []))

/-- The text of `/proc/meminfo`. -/
def meminfoText (ls : List MemLine) : PyStr := (ls.map MemLine.text).flatMap (· ++ ['\n'])

/-- The value that is printed for a key, 0 if there is none. -/
def memValue (ls : List MemLine) (key : PyStr) : ℕ :=
  ((ls.find? fun l ↦ l.key = key).map MemLine.value).getD 0

/-- A line of `/proc/vmstat`. -/
structure VmstatLine where
  key : PyStr
  isWord_key : IsWord key
  value : ℕ

/-- `key value`. -/
def VmstatLine.text (l : VmstatLine) : PyStr := l.key ++ ' ' :: Nat.toDigits 10 l.value

/-- The text of `/proc/vmstat`. -/
def vmstatText (ls : List VmstatLine) : PyStr := (ls.map VmstatLine.text).flatMap (· ++ ['\n'])

/-- The value that is printed for a key, 0 if there is none. -/
def vmstatValue (ls : List VmstatLine) (key : PyStr) : ℕ :=
  ((ls.find? fun l ↦ l.key = key).map VmstatLine.value).getD 0

/-! ### Dictionaries of counters -/

section Dicts

variable {α γ : Type*} [DecidableEq α] {k : α}

/-- What a dictionary of counters holds under a key. -/
theorem getItem_map (key : γ → α) (value : γ → ℕ) (ls : List γ) :
    (Dict.getItem k (ls.map fun l ↦ (key l, (value l : ℤ)))).getD 0 =
      (((ls.find? fun l ↦ key l = k).map value).getD 0 : ℕ) := by
  induction ls with
  | nil => rfl
  | cons l ls ih =>
    rw [List.map_cons, Dict.getItem, List.find?_cons]
    by_cases hk : key l = k
    · rw [if_pos hk, decide_eq_true hk]
      rfl
    · rw [if_neg hk, decide_eq_false hk]
      exact ih

end Dicts

/-! ### Lines of numbers -/

section Numbers

variable [Python]

/-- A number is read back. -/
theorem parseInt_toDigits (n : ℕ) : parseInt 10 (Nat.toDigits 10 n) = .ok (n : ℤ) := by
  have hint : PyStr.int 10 (Nat.toDigits 10 n) = some (n : ℤ) := PyStr.int_decimal 0 n
  rw [parseInt, hint]

omit [Python] in
theorem removesuffix_append (s suffix : PyStr) : removesuffix suffix (s ++ suffix) = s := by
  have hends : PyStr.endswith (s ++ suffix) suffix = true :=
    List.isSuffixOf_iff_suffix.2 (List.suffix_append s suffix)
  rw [removesuffix, if_pos hends, List.length_append, Nat.add_sub_cancel, List.take_left]

omit [Python] in
/-- A text of digits has no other suffix. -/
theorem removesuffix_toDigits (ws : PyStr) (n : ℕ) :
    removesuffix "kB".toList (ws ++ Nat.toDigits 10 n) = ws ++ Nat.toDigits 10 n := by
  refine if_neg fun hends ↦ ?_
  obtain ⟨t, ht⟩ := List.isSuffixOf_iff_suffix.1 hends
  have hlast : (Nat.toDigits 10 n).getLast? = some 'B' := by
    have hne : "kB".toList ≠ [] := by decide
    rw [← List.getLast?_append_of_ne_nil ws (isWord_toDigits n).ne_nil, ← ht,
      List.getLast?_append_of_ne_nil t hne]
    rfl
  have hdigit : PyStr.IsDigitOf 10 'B' :=
    (PyStr.toDigits_spec (by decide) (by decide) n).1 _ (List.mem_of_getLast? hlast)
  exact absurd hdigit (by decide)

omit [Python] in
/-- What is between blanks is stripped of them. -/
theorem strip_toDigits (k j n : ℕ) : PyStr.strip
    (List.replicate k ' ' ++ (Nat.toDigits 10 n ++ List.replicate j ' ')) = Nat.toDigits 10 n := by
  rw [PyStr.strip_space_append (PyStr.isSpace_replicate k),
    PyStr.strip_append_space (PyStr.isSpace_replicate j),
    PyStr.strip_of_forall_not (isWord_toDigits n).isSpace]

/-- **The entry of a line.** -/
theorem procfsEntry_line (l : MemLine) : (PyStr.splitOnce ':' l.text).map procfsEntry =
    some (.ok (l.key, (l.value : ℤ))) := by
  have hvalue : PyStr.strip (removesuffix "kB".toList (List.replicate l.pad ' ' ++
      (Nat.toDigits 10 l.value ++ if l.kB then " kB".toList else []))) =
        Nat.toDigits 10 l.value := by
    cases l.kB with
    | true =>
      have hsplit : List.replicate l.pad ' ' ++ (Nat.toDigits 10 l.value ++ " kB".toList) =
          List.replicate l.pad ' ' ++ (Nat.toDigits 10 l.value ++ List.replicate 1 ' ') ++
            "kB".toList := by
        rw [List.append_assoc, List.append_assoc]
        rfl
      rw [if_pos rfl, hsplit, removesuffix_append, strip_toDigits]
    | false =>
      have hstrip := strip_toDigits l.pad 0 l.value
      rw [List.replicate_zero, List.append_nil] at hstrip
      rw [if_neg Bool.false_ne_true, List.append_nil, removesuffix_toDigits, hstrip]
  rw [MemLine.text, PyStr.splitOnce_append l.no_colon, Option.map_some, procfsEntry, hvalue,
    parseInt_toDigits, l.stripped]
  rfl

end Numbers

/-! ### Memory usage over a run -/

section Memory

variable {ls : List MemLine} {tsUptimeUs : ℤ}

theorem MemLine.isLineBreak_text (l : MemLine) : ∀ c ∈ l.text, PyStr.isLineBreak c = false := by
  have hunit : ∀ c ∈ if l.kB then " kB".toList else [], PyStr.isLineBreak c = false := by
    split_ifs
    · exact List.all_iff_forall_prop.1 (by decide)
    · exact fun _ hc ↦ absurd hc List.not_mem_nil
  exact List.forall_mem_append.2 ⟨l.oneLine, List.forall_mem_cons.2 ⟨rfl,
    List.forall_mem_append.2 ⟨isLineBreak_replicate _,
      List.forall_mem_append.2 ⟨(isWord_toDigits _).isLineBreak, hunit⟩⟩⟩⟩

variable [Python]

theorem mapM_procfsEntry (ls : List MemLine) :
    ((ls.map MemLine.text).filterMap (PyStr.splitOnce ':')).mapM procfsEntry =
      .ok (ls.map fun l ↦ (l.key, (l.value : ℤ))) := by
  induction ls with
  | nil => rfl
  | cons l ls ih =>
    obtain ⟨parts, hparts, hentry⟩ := Option.map_eq_some_iff.1 (procfsEntry_line l)
    rw [List.map_cons, List.filterMap_cons_some hparts, List.mapM_cons, hentry, ih]
    rfl

/-- A row as the kernel's text says. -/
def memoryRow (tsUptimeUs : ℤ) (ls : List MemLine) : MemoryUsageData :=
  fromProcfsMap tsUptimeUs
    ((ls.map fun l ↦ (l.key, (l.value : ℤ))).foldl (fun d e ↦ d.set e.1 e.2) .empty)

/-- **The text of a poll is read back.** -/
theorem parse_meminfoText (ls : List MemLine) :
    MemoryUsageDataRaw.parse ⟨tsUptimeUs, meminfoText ls⟩ = .ok (memoryRow tsUptimeUs ls) := by
  have hlines : PyStr.splitlines (meminfoText ls) = ls.map MemLine.text :=
    PyStr.splitlines_flatMap (List.forall_mem_map.2 fun l _ ↦ l.isLineBreak_text)
  rw [MemoryUsageDataRaw.parse]
  simp only [hlines, mapM_procfsEntry]
  rfl

omit [Python] in
/-- **Each column is 1024 times what is printed.** -/
theorem column_memoryRow (hnd : (ls.map MemLine.key).Nodup) :
    ∀ column ∈ memoryColumns, column.2 (memoryRow tsUptimeUs ls) = memValue ls column.1 * 1024 := by
  have hget (key : PyStr) : (((ls.map fun l ↦ (l.key, (l.value : ℤ))).foldl
      (fun d e ↦ d.set e.1 e.2) Dict.empty).get? key).getD 0 = memValue ls key := by
    rw [Dict.get?_foldl_set_empty (by rwa [List.map_map]), getItem_map]
    rfl
  rw [memoryColumns]
  iterate 18 refine List.forall_mem_cons.2 ⟨congrArg (· * (1024 : ℤ)) (hget _), ?_⟩
  exact List.forall_mem_nil _

/-- What a poll finds: the time, and the lines that the kernel prints, one for each key. -/
structure MemPoll where
  tsUptimeUs : ℤ
  ls : List MemLine
  distinct : (ls.map MemLine.key).Nodup

/-- A call of the hook; `none` is `pop_data`. -/
def memoryOp : Option MemPoll → MemoryOp
  | some p => .poll ⟨p.tsUptimeUs, meminfoText p.ls⟩
  | none => .popData

/-- **What a row says** of a poll: each column is 1024 times the number that is printed. -/
structure SaysOf (p : MemPoll) (r : MemoryUsageData) : Prop where
  tsUptimeUs : r.tsUptimeUs = p.tsUptimeUs
  columns : ∀ column ∈ memoryColumns, column.2 r = memValue p.ls column.1 * 1024

/-- The texts that polls left in the hook. -/
def raws (ps : List MemPoll) : List MemoryUsageDataRaw :=
  ps.map fun p ↦ ⟨p.tsUptimeUs, meminfoText p.ls⟩

/-- The rows of polls. -/
def memoryRows (ps : List MemPoll) : List MemoryUsageData :=
  ps.map fun p ↦ memoryRow p.tsUptimeUs p.ls

theorem mapM_parse_raws (ps : List MemPoll) :
    (raws ps).mapM MemoryUsageDataRaw.parse = .ok (memoryRows ps) := by
  induction ps with
  | nil => rfl
  | cons p ps ih =>
    show ((⟨p.tsUptimeUs, meminfoText p.ls⟩ :: raws ps).mapM MemoryUsageDataRaw.parse) = _
    rw [List.mapM_cons, parse_meminfoText, ih]
    rfl

variable (collectionId : PyStr)

/-- **What a table holds** of the polls since the pop before it: one row for each, in order, or a
single row of the collection id alone where there was no poll. -/
def TableOf (ps : List MemPoll) (table : List MemoryUsageRow) : Prop :=
  if ps = [] then table = [⟨collectionId, none⟩]
  else List.Forall₂ (fun p r ↦ r.collectionId = collectionId ∧ ∃ d, r.data = some d ∧ SaysOf p d)
    ps table

/-- Groups of polls with a pop after each, and the polls that no pop follows. -/
def grouped (groups : List (List MemPoll)) (last : List MemPoll) : List (Option MemPoll) :=
  (groups.flatMap fun ps ↦ ps.map some ++ [none]) ++ last.map some

omit [Python] in
/-- Every run of calls is such groups. -/
theorem exists_grouped (ops : List (Option MemPoll)) :
    ∃ groups last, ops = grouped groups last := by
  induction ops with
  | nil => exact ⟨[], [], rfl⟩
  | cons op ops ih =>
    obtain ⟨groups, last, rfl⟩ := ih
    cases op with
    | none => exact ⟨[] :: groups, last, rfl⟩
    | some p =>
      cases groups with
      | nil => exact ⟨[], p :: last, rfl⟩
      | cons ps groups => exact ⟨(p :: ps) :: groups, last, rfl⟩

omit [Python] in
theorem saysOf_memoryRow (p : MemPoll) : SaysOf p (memoryRow p.tsUptimeUs p.ls) :=
  ⟨rfl, column_memoryRow p.distinct⟩

omit [Python] in
theorem forall₂_saysOf (ps : List MemPoll) : List.Forall₂ SaysOf ps (memoryRows ps) :=
  Lists.forall₂_map_self saysOf_memoryRow ps

omit [Python] in
/-- The table of the rows of polls. -/
theorem tableOf_fromDfId (ps : List MemPoll) :
    TableOf collectionId ps (MemoryUsageTable.fromDfId collectionId (memoryRows ps)) := by
  rw [TableOf]
  cases ps with
  | nil => exact (if_pos rfl).mpr rfl
  | cons p ps =>
    rw [if_neg (List.cons_ne_nil p ps)]
    show List.Forall₂ _ (p :: ps)
      ((memoryRows (p :: ps)).map fun d ↦ (⟨collectionId, some d⟩ : MemoryUsageRow))
    rw [memoryRows, List.map_map]
    exact Lists.forall₂_map_self (fun p ↦ ⟨rfl, _, rfl, saysOf_memoryRow p⟩) (p :: ps)

theorem memoryTable_raws (ps : List MemPoll) : memoryTable collectionId (raws ps) =
    .ok (MemoryUsageTable.fromDfId collectionId (memoryRows ps)) := by
  rw [memoryTable, mapM_parse_raws]
  rfl

/-- Polls only fill the hook. -/
theorem memoryRun_polls (held ps : List MemPoll) (ops : List MemoryOp) :
    memoryRun collectionId (raws held) ((ps.map some).map memoryOp ++ ops) =
      memoryRun collectionId (raws (held ++ ps)) ops := by
  induction ps generalizing held with
  | nil => rw [List.append_nil]; rfl
  | cons p ps ih =>
    have happend : raws (held ++ [p]) = raws held ++ [⟨p.tsUptimeUs, meminfoText p.ls⟩] :=
      List.map_append
    show memoryRun collectionId (raws held ++ [⟨p.tsUptimeUs, meminfoText p.ls⟩])
      ((ps.map some).map memoryOp ++ ops) = _
    rw [← happend, ih, List.append_assoc, List.singleton_append]

/-- A pop takes the polls since the pop before it. -/
theorem memoryRun_grouped (groups : List (List MemPoll)) (last : List MemPoll) :
    memoryRun collectionId [] ((grouped groups last).map memoryOp) = .ok (raws last,
      groups.map fun ps ↦ MemoryUsageTable.fromDfId collectionId (memoryRows ps)) := by
  induction groups with
  | nil =>
    have hpolls := memoryRun_polls collectionId [] last []
    rw [List.append_nil] at hpolls
    exact hpolls
  | cons ps groups ih =>
    have hsplit : (grouped (ps :: groups) last).map memoryOp =
        (ps.map some).map memoryOp ++ .popData :: (grouped groups last).map memoryOp := by
      rw [grouped, List.flatMap_cons, List.append_assoc, List.append_assoc, List.map_append]
      rfl
    rw [hsplit]
    refine (memoryRun_polls collectionId [] ps _).trans ?_
    show (memoryTable collectionId (raws ps)).bind _ = _
    rw [memoryTable_raws]
    show (memoryRun collectionId [] _).map _ = _
    rw [ih]
    rfl

/-- **Every poll has one row**: in whatever order polls and pops come, no pop raises, each takes a
table of the polls since the pop before it, and the hook holds the polls that no pop follows. -/
theorem memoryUsage_run (ops : List (Option MemPoll)) : ∃ groups last left tables rest,
    ops = grouped groups last ∧
      memoryRun collectionId [] (ops.map memoryOp) = .ok (left, tables) ∧
      List.Forall₂ (TableOf collectionId) groups tables ∧
      left.mapM MemoryUsageDataRaw.parse = .ok rest ∧ List.Forall₂ SaysOf last rest := by
  obtain ⟨groups, last, rfl⟩ := exists_grouped ops
  refine ⟨groups, last, raws last, _, memoryRows last, rfl,
    memoryRun_grouped collectionId groups last, ?_, mapM_parse_raws last, forall₂_saysOf last⟩
  exact Lists.forall₂_map_self (tableOf_fromDfId collectionId) groups

end Memory

/-! ### Samples of the counters over a run -/

section Vmstat

variable {hook : VMStatHarnessHook}

/-- What a poll finds: the time, and the lines that the kernel prints, one for each counter. -/
structure VmstatPoll where
  now : ℤ
  ls : List VmstatLine
  distinct : (ls.map VmstatLine.key).Nodup

/-- The sample of a poll: the counters that are printed. -/
def VmstatPoll.sample (p : VmstatPoll) : VMStatSample :=
  ⟨p.now, vmstatKeys.map fun key ↦ (vmstatValue p.ls key : ℤ)⟩

theorem VmstatLine.isLineBreak_text (l : VmstatLine) :
    ∀ c ∈ l.text, PyStr.isLineBreak c = false :=
  List.forall_mem_append.2 ⟨l.isWord_key.isLineBreak,
    List.forall_mem_cons.2 ⟨rfl, (isWord_toDigits _).isLineBreak⟩⟩

theorem VmstatLine.split_text (l : VmstatLine) :
    PyStr.split l.text = [l.key, Nat.toDigits 10 l.value] := by
  have hblank : PyStr.isSpace ' ' = true := rfl
  rw [VmstatLine.text, PyStr.split_word_append l.isWord_key.ne_nil l.isWord_key.isSpace hblank,
    PyStr.split_word (isWord_toDigits _).ne_nil (isWord_toDigits _).isSpace]

variable [Python]

/-- The loop keeps the counters that it looks for. -/
theorem parseVmstatLines_text (values : Dict PyStr ℤ) (ls : List VmstatLine) :
    parseVmstatLines values (ls.map VmstatLine.text) =
      .ok (((ls.filter fun l ↦ l.key ∈ vmstatKeys).map fun l ↦ (l.key, (l.value : ℤ))).foldl
        (fun d e ↦ d.set e.1 e.2) values) := by
  induction ls generalizing values with
  | nil => rfl
  | cons l ls ih =>
    rw [List.map_cons, parseVmstatLines, l.split_text]
    by_cases hkey : l.key ∈ vmstatKeys
    · rw [List.filter_cons_of_pos (by simpa using hkey)]
      dsimp only
      rw [if_pos hkey, parseInt_toDigits]
      exact ih _
    · rw [List.filter_cons_of_neg (by simpa using hkey)]
      dsimp only
      rw [if_neg hkey]
      exact ih values

/-- **The counters of a text**, 0 for one that is not printed. -/
theorem parseVmstat_text (p : VmstatPoll) : ∃ values, parseVmstat (vmstatText p.ls) = .ok values ∧
    ∀ key ∈ vmstatKeys, (values.get? key).getD 0 = vmstatValue p.ls key := by
  have hlines : PyStr.splitlines (vmstatText p.ls) = p.ls.map VmstatLine.text :=
    PyStr.splitlines_flatMap (List.forall_mem_map.2 fun l _ ↦ l.isLineBreak_text)
  refine ⟨_, (congrArg _ hlines).trans (parseVmstatLines_text .empty p.ls), fun key hkey ↦ ?_⟩
  have hnd : (((p.ls.filter fun l ↦ l.key ∈ vmstatKeys).map fun l ↦
      (l.key, (l.value : ℤ))).map Prod.fst).Nodup := by
    rw [List.map_map]
    exact p.distinct.sublist (List.filter_sublist.map _)
  have hfilter : ∀ l : VmstatLine, decide (decide (l.key ∈ vmstatKeys) = true ∧
      decide (l.key = key) = true) = decide (l.key = key) := fun l ↦ by
    refine decide_eq_decide.2 ?_
    rw [decide_eq_true_iff, decide_eq_true_iff]
    exact and_iff_right_of_imp fun hl ↦ hl ▸ hkey
  rw [Dict.get?_foldl_set_empty hnd, getItem_map, List.find?_filter, vmstatValue]
  simp only [hfilter]

/-- A poll that is due takes its sample. -/
theorem poll_of_due (p : VmstatPoll) (h : hook.sampleIntervalNs ≤ p.now - hook.lastSampleNs) :
    hook.poll p.now (vmstatText p.ls) =
      ({ hook with lastSampleNs := p.now, samples := hook.samples ++ [p.sample] }, none) := by
  obtain ⟨values, hvalues, hget⟩ := parseVmstat_text p
  have hcounters : vmstatKeys.map (fun key ↦ (values.get? key).getD 0) =
      vmstatKeys.map fun key ↦ (vmstatValue p.ls key : ℤ) := List.map_congr_left hget
  rw [VMStatHarnessHook.poll, if_neg (by omega), hvalues]
  dsimp only
  rw [hcounters]
  rfl

/-- **A sample for each interval**: the samples of a run of polls are those of some of them, in
order, with the counters that the kernel printed then; they are an interval apart, and a poll
without one comes less than an interval after the last. -/
theorem vmstat_run (ps : List VmstatPoll)
    (hsorted : (hook.lastSampleNs :: ps.map VmstatPoll.now).Pairwise (· ≤ ·)) :
    ∃ taken : List VmstatPoll, taken.Sublist ps ∧
      (hook.polls (ps.map fun p ↦ (p.now, vmstatText p.ls))).2 = none ∧
      (hook.polls (ps.map fun p ↦ (p.now, vmstatText p.ls))).1.samples =
        hook.samples ++ taken.map VmstatPoll.sample ∧
      Paced hook.sampleIntervalNs hook.lastSampleNs (taken.map VmstatPoll.now)
        (hook.polls (ps.map fun p ↦ (p.now, vmstatText p.ls))).1.lastSampleNs ∧
      ∀ p ∈ ps, p ∈ taken ∨ ∃ t ∈ hook.lastSampleNs :: taken.map VmstatPoll.now,
        t ≤ p.now ∧ p.now - t < hook.sampleIntervalNs := by
  induction ps generalizing hook with
  | nil =>
    exact ⟨[], List.Sublist.refl _, rfl, (List.append_nil _).symm, Paced.nil,
      fun _ hp ↦ absurd hp List.not_mem_nil⟩
  | cons p ps ih =>
    obtain ⟨hfirst, hsorted'⟩ := List.pairwise_cons.1 hsorted
    have hle : hook.lastSampleNs ≤ p.now := hfirst _ List.mem_cons_self
    by_cases hdue : p.now - hook.lastSampleNs < hook.sampleIntervalNs
    · have hpoll : hook.poll p.now (vmstatText p.ls) = (hook, none) := if_pos hdue
      obtain ⟨taken, hsub, hnone, hsamples, hpaced, hall⟩ := @ih hook
        (List.pairwise_cons.2 ⟨fun t ht ↦ hfirst t (List.mem_cons_of_mem _ ht),
          (List.pairwise_cons.1 hsorted').2⟩)
      rw [List.map_cons, VMStatHarnessHook.polls, hpoll]
      refine ⟨taken, hsub.cons p, hnone, hsamples, hpaced, List.forall_mem_cons.2 ⟨?_, hall⟩⟩
      exact .inr ⟨_, List.mem_cons_self, hle, hdue⟩
    · have hpoll := poll_of_due p (Int.not_lt.1 hdue)
      obtain ⟨taken, hsub, hnone, hsamples, hpaced, hall⟩ := @ih { hook with
        lastSampleNs := p.now, samples := hook.samples ++ [p.sample] } hsorted'
      rw [List.map_cons, VMStatHarnessHook.polls, hpoll]
      refine ⟨p :: taken, hsub.cons_cons p, hnone, ?_, ⟨Int.not_lt.1 hdue, hpaced⟩,
        List.forall_mem_cons.2 ⟨.inl List.mem_cons_self, fun q hq ↦ ?_⟩⟩
      · rw [hsamples, List.append_assoc]
        rfl
      · rcases hall q hq with htaken | ⟨t, ht, hbefore, hsoon⟩
        · exact .inl (List.mem_cons_of_mem _ htaken)
        · exact .inr ⟨t, List.mem_cons_of_mem _ ht, hbefore, hsoon⟩

/-- A poll that prints one of the counters and another one. -/
def faultsPoll (now : ℤ) (faults : ℕ) : VmstatPoll where
  now := now
  ls := [⟨"nr_free_pages".toList, ⟨by decide, List.all_iff_forall_prop.1 (by decide)⟩, 9⟩,
    ⟨"pgfault".toList, ⟨by decide, List.all_iff_forall_prop.1 (by decide)⟩, faults⟩]
  distinct := (by decide : ["nr_free_pages".toList, "pgfault".toList].Nodup)

/-- A hook that was made just now. -/
def newHook : VMStatHarnessHook := ⟨[], 0, 200⟩

/-- Three polls, of which the second one comes too early. -/
def threePolls : List VmstatPoll := [faultsPoll 300 7, faultsPoll 450 8, faultsPoll 510 9]

omit [Python] in
theorem vmstat_run_threePolls : ∃ taken : List VmstatPoll, taken.Sublist threePolls ∧
    (@VMStatHarnessHook.polls Python.ascii newHook
      (threePolls.map fun p ↦ (p.now, vmstatText p.ls))).2 = none ∧
    (@VMStatHarnessHook.polls Python.ascii newHook
      (threePolls.map fun p ↦ (p.now, vmstatText p.ls))).1.samples =
        newHook.samples ++ taken.map VmstatPoll.sample ∧
    Paced newHook.sampleIntervalNs newHook.lastSampleNs (taken.map VmstatPoll.now)
      (@VMStatHarnessHook.polls Python.ascii newHook
        (threePolls.map fun p ↦ (p.now, vmstatText p.ls))).1.lastSampleNs ∧
    ∀ p ∈ threePolls, p ∈ taken ∨ ∃ t ∈ newHook.lastSampleNs :: taken.map VmstatPoll.now,
      t ≤ p.now ∧ p.now - t < newHook.sampleIntervalNs :=
  @vmstat_run newHook Python.ascii threePolls (by decide)

end Vmstat

end Proc
