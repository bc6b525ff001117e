import HugePageResearch.Library.Lists
import HugePageResearch.Pages.PageAccess
import HugePageResearch.Python.Text
import Mathlib.Algebra.Order.Field.Rat

/-!
# Counting idle-page accesses

`data_collection/track_idle_accesses.py`: `main` polls the idle bitmap for the pages of a process.
A poll marks all present page frames idle, waits, and counts those whose bit is 0 afterwards; every
so often the set of present page frames is read anew; at the end the counts are dumped.

## The result

`dump_complete_iff`: the dump has a row for every page frame that some poll found accessed, with the
number of polls that found it, exactly where all of these are still present at the last refresh: the
counts are kept for the whole run, but the rows come from the latest present set.

It rests on what the counters hold (`pollLoop_left`) and on a sum over distinct keys
(`Lists.sum_countP`).
-/

namespace Pages

open Lists BitFile

/-! ### One poll -/

section Poll

variable {κ : Type*} (F : IdleFile κ)

/-- `WORD_BYTES`. -/
def wordBytes : ℕ := 8

/-- The loop of `mark_pfns_idle` that builds `word_to_mask`. -/
def wordToMask (pfns : List ℕ) : Dict ℕ (BitVec 64) :=
  pfns.foldl (fun masks pfn ↦
    let wi := pfn >>> 6
    masks.set wi ((masks.get? wi).getD 0#64 ||| 1#64 <<< (pfn &&& 63))) Dict.empty

/-- The `pwrite` of neighbouring words; an `OSError` is ignored. -/
def writeRun (masks : Dict ℕ (BitVec 64)) (k : κ) (run : List ℕ) : κ :=
  (F.write k (run.headD 0 * wordBytes) (run.map fun wi ↦ (masks.get? wi).getD 0#64)).2

/-- `mark_pfns_idle`. -/
def markPfnsIdle (pfns : List ℕ) (k : κ) : κ :=
  if pfns = [] then k
  else
    let masks := wordToMask pfns
    (runs (masks.keys.insertionSort (· ≤ ·))).foldl (writeRun F masks) k

/-- `word_to_pfns` of `_group_pfns_by_word`. -/
def groupPfnsByWord (pfns : List ℕ) : Dict ℕ (List ℕ) :=
  pfns.foldl (fun groups pfn ↦
    groups.set (pfn >>> 6) ((groups.get? (pfn >>> 6)).getD [] ++ [pfn])) Dict.empty

/-- The PFNs of neighbouring words whose bits are 0 in what was read. -/
def clearedPfns (wordToPfns : Dict ℕ (List ℕ)) (run : List ℕ) (words : List (BitVec 64)) :
    List ℕ :=
  (run.zip words).flatMap fun e ↦
    ((wordToPfns.get? e.1).getD []).filter fun pfn ↦ e.2 &&& 1#64 <<< (pfn &&& 63) = 0#64

/-- The `pread` of neighbouring words and what is added to `accessed`; an `OSError` adds nothing,
a short read only what it covers. -/
def readRun (wordToPfns : Dict ℕ (List ℕ)) (s : List ℕ × κ) (run : List ℕ) : List ℕ × κ :=
  match F.read s.2 (run.headD 0 * wordBytes) run.length with
  | (none, k) => (s.1, k)
  | (some words, k) => (s.1 ++ clearedPfns wordToPfns run words, k)

/-- `check_pfns_accessed`: the set, as a list without repetition. -/
def checkPfnsAccessed (pfns : List ℕ) (k : κ) : List ℕ × κ :=
  if pfns = [] then ([], k)
  else
    let wordToPfns := groupPfnsByWord pfns
    let (accessed, k') := (runs (wordToPfns.keys.insertionSort (· ≤ ·))).foldl
      (readRun F wordToPfns) ([], k)
    (accessed.dedup, k')

/-- What a poll finds: it marks, waits (whatever that does to the bitmap), and checks. -/
def accessedPfns (sleep : κ → κ) (pfns : List ℕ) (k : κ) : List ℕ × κ :=
  checkPfnsAccessed F pfns (sleep (markPfnsIdle F pfns k))

/-- `{pfn: (vaddr, vma_name)}`. -/
abbrev PfnMeta := Dict ℕ (ℕ × PyStr)

/-- `poll_once`: the new counts, `(n_accessed, n_total)` and the bitmap. -/
def pollOnce (sleep : κ → κ) (accessCounts : Dict ℕ ℕ) (pfnMeta : PfnMeta) (k : κ) :
    Dict ℕ ℕ × (ℕ × ℕ) × κ :=
  let pfns := pfnMeta.keys
  let (accessed, k') := accessedPfns F sleep pfns k
  (accessed.foldl Dict.incr accessCounts, (accessed.length, pfns.length), k')

/-! ### The set of accessed pages -/

/-- The word of a PFN. -/
theorem shiftRight_six (p : ℕ) : p >>> 6 = p / 64 := Nat.shiftRight_eq_div_pow p 6

/-- The bit of a PFN in its word. -/
theorem and_sixtyThree (p : ℕ) : p &&& 63 = p % 64 := Nat.and_two_pow_sub_one_eq_mod p 6

theorem wordToMask_eq (pfns : List ℕ) : wordToMask pfns = groupMasks 64 id pfns := by
  simp only [wordToMask, groupMasks, shiftRight_six, and_sixtyThree, mask, id]

theorem nodup_checkPfnsAccessed (pfns : List ℕ) (k : κ) : (checkPfnsAccessed F pfns k).1.Nodup := by
  rw [checkPfnsAccessed]
  split_ifs
  · exact List.nodup_nil
  · exact List.nodup_dedup _

variable (pfns : List ℕ)

theorem getD_foldl_groups (groups : Dict ℕ (List ℕ)) (wi : ℕ) :
    ((pfns.foldl (fun groups pfn ↦
      groups.set (pfn >>> 6) ((groups.get? (pfn >>> 6)).getD [] ++ [pfn]))
        groups).get? wi).getD [] =
      (groups.get? wi).getD [] ++ pfns.filter fun pfn ↦ pfn / 64 = wi := by
  induction pfns generalizing groups with
  | nil => simp
  | cons p pfns ih =>
    rw [List.foldl_cons, ih, Dict.get?_set, shiftRight_six]
    split_ifs with hwi
    · rw [List.filter_cons_of_pos (by simp [hwi]), hwi, Option.getD_some, List.append_assoc]
      rfl
    · rw [List.filter_cons_of_neg (by simp [hwi])]

/-- The PFNs under a word are those of the list that lie in it. -/
theorem getD_groupPfnsByWord (wi : ℕ) :
    ((groupPfnsByWord pfns).get? wi).getD [] = pfns.filter fun pfn ↦ pfn / 64 = wi := by
  rw [groupPfnsByWord, getD_foldl_groups]
  rfl

/-- The words of the groups are those of the PFNs. -/
theorem mem_keys_groupPfnsByWord (wi : ℕ) :
    wi ∈ (groupPfnsByWord pfns).keys ↔ ∃ pfn ∈ pfns, pfn / 64 = wi := by
  have hset := Dict.mem_keys_foldl_set (fun p ↦ p >>> 6)
    (fun (groups : Dict ℕ (List ℕ)) p ↦ (groups.get? (p >>> 6)).getD [] ++ [p]) pfns .empty wi
  refine hset.trans ((or_iff_right List.not_mem_nil).trans ?_)
  simp only [shiftRight_six]

end Poll

/-! ### Polls of a kernel's bitmap -/

section Kernel

variable (tracked : ℕ → Bool) (pfns : List ℕ) (bits : ℕ → Bool)

/-- The offset of a stretch is that of its first word. -/
theorem offset_run (i n : ℕ) : (List.range' i (n + 1)).headD 0 * wordBytes / 8 = i := by
  rw [List.range'_succ]
  exact Nat.mul_div_cancel _ (by decide)

/-- Writing stretches of neighbouring words sets the bits that their masks have. -/
theorem foldl_writeRun (masks : Dict ℕ (BitVec 64)) {rs : List (List ℕ)}
    (hrs : ∀ r ∈ rs, ∃ i n, r = List.range' i (n + 1)) (p : ℕ) :
    rs.foldl (writeRun (kernelFile tracked) masks) bits p = true ↔
      bits p = true ∨ tracked p = true ∧ p / 64 ∈ rs.flatten ∧
        ((masks.get? (p / 64)).getD 0#64).getLsbD (p % 64) = true := by
  induction rs generalizing bits with
  | nil => simp
  | cons r rs ih =>
    obtain ⟨i, n, rfl⟩ := hrs _ List.mem_cons_self
    have hwrite : writeRun (kernelFile tracked) masks bits (List.range' i (n + 1)) p = true ↔
        bits p = true ∨ tracked p = true ∧ p / 64 ∈ List.range' i (n + 1) ∧
          ((masks.get? (p / 64)).getD 0#64).getLsbD (p % 64) = true := by
      rw [writeRun]
      show (bits p || (tracked p && sets (_ / 8) _ p)) = true ↔ _
      rw [offset_run, Bool.or_eq_true, Bool.and_eq_true, sets_range']
    rw [List.foldl_cons, ih _ fun r hr ↦ hrs r (List.mem_cons_of_mem _ hr), hwrite,
      List.flatten_cons, List.mem_append, or_assoc, ← and_or_left, ← or_and_right]

/-- **Marking sets the bits of the listed PFNs**, where the kernel tracks them, and no others. -/
theorem markPfnsIdle_kernel (p : ℕ) : markPfnsIdle (kernelFile tracked) pfns bits p = true ↔
    bits p = true ∨ tracked p = true ∧ p ∈ pfns := by
  rw [markPfnsIdle]
  split_ifs with hnil
  · simp [hnil]
  · have hmask : (((groupMasks 64 id pfns).get? (p / 64)).getD 0#64).getLsbD (p % 64) = true ↔
        p ∈ pfns := getLsbD_groupMasks_iff (by decide) Function.injective_id p
    rw [foldl_writeRun tracked bits (wordToMask pfns) fun r hr ↦ mem_runs hr, flatten_runs,
      List.mem_insertionSort, wordToMask_eq, mem_keys_groupMasks, hmask]
    exact or_congr_right (and_congr_right fun _ ↦
      ⟨fun h ↦ h.2, fun h ↦ ⟨⟨p, h, rfl⟩, h⟩⟩)

theorem mem_clearedPfns (i n p : ℕ) :
    p ∈ clearedPfns (groupPfnsByWord pfns) (List.range' i n) (words 64 bits i n) ↔
      p / 64 ∈ List.range' i n ∧ p ∈ pfns ∧ bits p = false := by
  have hbit : word 64 bits (p / 64) &&& 1#64 <<< (p % 64) = 0#64 ↔ bits p = false :=
    (not_iff_comm.1 (and_mask_word (w := 64) (by decide) bits p)).symm.trans
      (iff_of_eq (Bool.not_eq_true _))
  have hzip : (List.range' i n).zip (words 64 bits i n) =
      (List.range' i n).map fun wi ↦ (wi, word 64 bits wi) := by
    nth_rewrite 1 [words, ← List.map_id (List.range' i n), List.zip_map']
    rfl
  rw [clearedPfns, hzip, List.mem_flatMap]
  constructor
  · rintro ⟨e, he, hp⟩
    obtain ⟨wi, hwi, rfl⟩ := List.mem_map.1 he
    rw [getD_groupPfnsByWord] at hp
    obtain ⟨hgroup, hzero⟩ := List.mem_filter.1 hp
    obtain ⟨hmem, hdiv⟩ := List.mem_filter.1 hgroup
    obtain rfl := of_decide_eq_true hdiv
    rw [and_sixtyThree] at hzero
    exact ⟨hwi, hmem, hbit.1 (of_decide_eq_true hzero)⟩
  · rintro ⟨hwi, hp, hzero⟩
    refine ⟨_, List.mem_map_of_mem hwi, ?_⟩
    rw [getD_groupPfnsByWord]
    refine List.mem_filter.2 ⟨List.mem_filter.2 ⟨hp, decide_eq_true rfl⟩, decide_eq_true ?_⟩
    rw [and_sixtyThree]
    exact hbit.2 hzero

/-- Reading stretches of neighbouring words adds what is cleared in them. -/
theorem foldl_readRun {rs : List (List ℕ)} (hrs : ∀ r ∈ rs, ∃ i n, r = List.range' i (n + 1))
    (accessed : List ℕ) :
    (rs.foldl (readRun (kernelFile tracked) (groupPfnsByWord pfns)) (accessed, bits)).2 = bits ∧
      ∀ p, p ∈ (rs.foldl (readRun (kernelFile tracked) (groupPfnsByWord pfns))
        (accessed, bits)).1 ↔ p ∈ accessed ∨
          p / 64 ∈ rs.flatten ∧ p ∈ pfns ∧ (tracked p && bits p) = false := by
  induction rs generalizing accessed with
  | nil => exact ⟨rfl, by simp⟩
  | cons r rs ih =>
    obtain ⟨i, n, rfl⟩ := hrs _ List.mem_cons_self
    have hread : readRun (kernelFile tracked) (groupPfnsByWord pfns) (accessed, bits)
        (List.range' i (n + 1)) = (accessed ++ clearedPfns (groupPfnsByWord pfns)
          (List.range' i (n + 1)) (words 64 (fun p ↦ tracked p && bits p) i (n + 1)), bits) := by
      show (accessed ++ clearedPfns _ _ (words 64 _ (_ / 8) (List.range' i (n + 1)).length), bits)
        = _
      rw [offset_run, List.length_range']
    obtain ⟨hbits, hmem⟩ := ih (fun r hr ↦ hrs r (List.mem_cons_of_mem _ hr))
      (accessed ++ clearedPfns (groupPfnsByWord pfns) (List.range' i (n + 1))
        (words 64 (fun p ↦ tracked p && bits p) i (n + 1)))
    rw [List.foldl_cons, hread]
    refine ⟨hbits, fun p ↦ (hmem p).trans ?_⟩
    rw [List.mem_append, mem_clearedPfns, List.flatten_cons, List.mem_append, or_assoc,
      ← or_and_right]

/-- **Checking finds the listed PFNs whose bit reads as 0**, and changes nothing. -/
theorem mem_checkPfnsAccessed_kernel (p : ℕ) :
    p ∈ (checkPfnsAccessed (kernelFile tracked) pfns bits).1 ↔
      p ∈ pfns ∧ (tracked p && bits p) = false := by
  rw [checkPfnsAccessed]
  split_ifs with hnil
  · simp [hnil]
  · have hread := (@foldl_readRun tracked pfns bits
      (runs ((groupPfnsByWord pfns).keys.insertionSort (· ≤ ·))) (fun r hr ↦ mem_runs hr) []).2 p
    rw [flatten_runs, List.mem_insertionSort, mem_keys_groupPfnsByWord] at hread
    refine List.mem_dedup.trans (hread.trans ((or_iff_right List.not_mem_nil).trans ?_))
    exact ⟨fun h ↦ h.2, fun h ↦ ⟨⟨p, h.1, rfl⟩, h⟩⟩

end Kernel

/-! ### The dump -/

/-- `PAGE_SIZE`. -/
def pageSize : ℕ := 4096

/-- `PAGEMAP_ENTRY_SIZE`. -/
def pagemapEntrySize : ℕ := 8

/-- `KPF_HUGE`. -/
def kpfHuge : ℕ := 1 <<< 17

/-- `KPF_THP`. -/
def kpfThp : ℕ := 1 <<< 22

/-- `read_kpageflags_batch`, with the answer of a `pread` at an offset: the entries it covers, or
`none` for an `OSError`. -/
def readKpageflagsBatch (pread : (offset count : ℕ) → Option (List ℕ)) (pfns : List ℕ) :
    Dict ℕ ℕ :=
  (runs (pfns.insertionSort (· ≤ ·))).foldl (fun result run ↦
    match pread (run.headD 0 * pagemapEntrySize) run.length with
    | none => result
    | some flagsVals =>
      flagsVals.zipIdx.foldl (fun result e ↦ result.set (run.headD 0 + e.2) e.1) result) Dict.empty

/-- A row of the output, before the numbers are rendered. -/
structure DumpRow where
  pfn : ℕ
  physAddr : ℕ
  vaddr : ℕ
  vmaName : PyStr
  accesses : ℕ
  nPolls : ℕ
  elapsedS : ℚ
  isHuge : Bool
  isThp : Bool

/-- The rows that `dump_parquet` and `dump_csv_gz` build. -/
def dumpRows (flagsMap accessCounts : Dict ℕ ℕ) (pfnMeta : PfnMeta) (nPolls : ℕ) (elapsed : ℚ) :
    List DumpRow :=
  (pfnMeta.items.insertionSort fun e e' ↦ e.1 ≤ e'.1).map fun e ↦
    let flags := (flagsMap.get? e.1).getD 0
    { pfn := e.1
      physAddr := e.1 * pageSize
      vaddr := e.2.1
      vmaName := e.2.2
      accesses := accessCounts.count e.1
      nPolls
      elapsedS := elapsed
      isHuge := flags &&& kpfHuge ≠ 0
      isThp := flags &&& kpfThp ≠ 0 }

/-- The numbers of a row fit the column types of `dump_parquet`. -/
def DumpRow.fits (row : DumpRow) : Bool :=
  row.pfn < 2 ^ 64 && row.physAddr < 2 ^ 64 && row.vaddr < 2 ^ 64 && row.accesses < 2 ^ 32 &&
    row.nPolls < 2 ^ 32

/-- `dump_output`: the rows written, or `none` where `pa.array` raises on a number that is too large
for its column. -/
def dumpOutput (path : PyStr) (rows : List DumpRow) : Option (List DumpRow) :=
  if ".parquet".toList <:+ path then
    if rows.all DumpRow.fits then some rows else none
  else some rows

/-! ### The main loop -/

section Main

variable {κ : Type*} (F : IdleFile κ)

/-- How reading the present pages anew ends. -/
inductive Refresh where
  /-- A `RuntimeError`, or an `OSError` that is caught: the loop is left. -/
  | failed
  /-- Any other exception. -/
  | raised
  /-- The present pages. -/
  | present (pfnMeta : PfnMeta)

/-- What the environment does in one pass of the loop. -/
structure Pass (κ : Type*) where
  /-- A `SIGINT` has come. -/
  done : Bool
  /-- The refresh, if one is due. -/
  refresh : Refresh
  /-- What happens to the bitmap while the poll waits. -/
  sleep : κ → κ

/-- `--samples`, `--refresh-interval`, and the output path. -/
structure Args where
  samples : ℤ
  refreshInterval : ℤ := 10
  outPath : PyStr

/-- The variables of the loop, and the bitmap. -/
structure LoopState (κ : Type*) where
  pollN : ℕ
  pfnMeta : PfnMeta
  accessCounts : Dict ℕ ℕ
  bitmap : κ

/-- The variables before the loop. -/
def LoopState.start (bitmap : κ) : LoopState κ := ⟨0, Dict.empty, Dict.empty, bitmap⟩

/-- `should_refresh`. -/
def shouldRefresh (args : Args) (pollN : ℕ) : Bool :=
  args.refreshInterval = 0 || (pollN : ℤ) % args.refreshInterval = 0

/-- `args.samples > 0 and poll_n >= args.samples`. -/
def enough (args : Args) (pollN : ℕ) : Bool :=
  0 < args.samples && args.samples ≤ pollN

/-- How the loop stands at the end of the recorded passes. -/
inductive LoopEnd (κ : Type*) where
  | polling
  | left (s : LoopState κ)
  | raised

/-- `while not done`. -/
def pollLoop (args : Args) : List (Pass κ) → LoopState κ → LoopEnd κ
  | [], _ => .polling
  | pass :: passes, s =>
    if pass.done || enough args s.pollN then .left s
    else
      match if shouldRefresh args s.pollN then pass.refresh else .present s.pfnMeta with
      | .failed => .left s
      | .raised => .raised
      | .present pfnMeta =>
        let (accessCounts, _, bitmap) := pollOnce F pass.sleep s.accessCounts pfnMeta s.bitmap
        pollLoop args passes ⟨s.pollN + 1, pfnMeta, accessCounts, bitmap⟩

/-- `main`, from the loop on: what is dumped, given how much time went by and what
`/proc/kpageflags` answers. There is no output without a poll, or where the loop or the division by
the elapsed time raises. -/
def main (args : Args) (passes : List (Pass κ)) (bitmap : κ) (elapsed : ℚ)
    (pread : (offset count : ℕ) → Option (List ℕ)) : Option (List DumpRow) :=
  match pollLoop F args passes (.start bitmap) with
  | .left s =>
    if s.pollN = 0 ∨ elapsed = 0 then none
    else
      let flagsMap := readKpageflagsBatch pread s.pfnMeta.keys
      dumpOutput args.outPath (dumpRows flagsMap s.accessCounts s.pfnMeta s.pollN elapsed)
  | _ => none

/-! ### What the polls found -/

/-- A poll: the pages that are present, and those among them that it finds accessed. -/
structure Poll where
  present : PfnMeta
  accessed : List ℕ

/-- The polls of a run. -/
def polls (args : Args) : List (Pass κ) → ℕ → PfnMeta → κ → List Poll
  | [], _, _, _ => []
  | pass :: passes, pollN, pfnMeta, k =>
    if pass.done || enough args pollN then []
    else
      match if shouldRefresh args pollN then pass.refresh else .present pfnMeta with
      | .failed => []
      | .raised => []
      | .present pfnMeta =>
        let (accessed, k') := accessedPfns F pass.sleep pfnMeta.keys k
        ⟨pfnMeta, accessed⟩ :: polls args passes (pollN + 1) pfnMeta k'

/-- All PFNs found accessed, once for each poll that found them. -/
def allAccessed (ps : List Poll) : List ℕ := ps.flatMap (·.accessed)

/-- **What the loop has computed when it is left**: the number of polls, the counts of what they
found, and the pages that were present at the last one. -/
theorem pollLoop_left {args : Args} {passes : List (Pass κ)} {s t : LoopState κ}
    (h : pollLoop F args passes s = .left t) :
    t.pollN = s.pollN + (polls F args passes s.pollN s.pfnMeta s.bitmap).length ∧
    t.accessCounts = (allAccessed (polls F args passes s.pollN s.pfnMeta s.bitmap)).foldl
      Dict.incr s.accessCounts ∧
    t.pfnMeta = ((polls F args passes s.pollN s.pfnMeta s.bitmap).getLast?.map
      Poll.present).getD s.pfnMeta := by
  induction passes generalizing s with
  | nil => exact absurd h (by simp [pollLoop])
  | cons pass passes ih =>
    rw [pollLoop] at h
    rw [polls]
    rcases hstop : pass.done || enough args s.pollN with - | -
    · rw [hstop] at h
      rcases hrefresh : (if shouldRefresh args s.pollN then pass.refresh
          else .present s.pfnMeta) with - | - | pfnMeta
      · rw [hrefresh] at h
        obtain rfl := LoopEnd.left.inj h
        exact ⟨rfl, rfl, rfl⟩
      · rw [hrefresh] at h
        exact absurd h (by simp)
      · rcases hpoll : accessedPfns F pass.sleep pfnMeta.keys s.bitmap with ⟨accessed, k'⟩
        rw [hrefresh] at h
        simp only [pollOnce, hpoll, Bool.false_eq_true, if_false] at h ⊢
        obtain ⟨hpollN, hcounts, hmeta⟩ := ih h
        refine ⟨hpollN.trans ?_, hcounts.trans ?_, hmeta.trans ?_⟩
        · show s.pollN + 1 + (polls F args passes (s.pollN + 1) pfnMeta k').length = _
          rw [List.length_cons]
          omega
        · rw [allAccessed, allAccessed, List.flatMap_cons, List.foldl_append]
        · rw [List.getLast?_cons, Option.map_some, Option.getD_some]
          rcases (polls F args passes (s.pollN + 1) pfnMeta k').getLast? with - | poll
          · rfl
          · rfl
    · rw [hstop] at h
      obtain rfl := LoopEnd.left.inj h
      exact ⟨rfl, rfl, rfl⟩

/-- The polls of a whole run. -/
def runPolls (args : Args) (passes : List (Pass κ)) (bitmap : κ) : List Poll :=
  polls F args passes 0 Dict.empty bitmap

/-- No poll finds a page twice. -/
theorem nodup_accessed {args : Args} {passes : List (Pass κ)} {pollN : ℕ} {pfnMeta : PfnMeta}
    {k : κ} {poll : Poll} (h : poll ∈ polls F args passes pollN pfnMeta k) :
    poll.accessed.Nodup := by
  induction passes generalizing pollN pfnMeta k with
  | nil => exact absurd h List.not_mem_nil
  | cons pass passes ih =>
    rw [polls] at h
    rcases hstop : pass.done || enough args pollN with - | -
    · rw [hstop] at h
      rcases hrefresh : (if shouldRefresh args pollN then pass.refresh
          else .present pfnMeta) with - | - | present
      · rw [hrefresh] at h
        exact absurd h List.not_mem_nil
      · rw [hrefresh] at h
        exact absurd h List.not_mem_nil
      · rw [hrefresh] at h
        rcases List.mem_cons.1 h with rfl | h
        · exact nodup_checkPfnsAccessed F _ _
        · exact ih h
    · rw [hstop] at h
      exact absurd h List.not_mem_nil

end Main

/-! ### Conservation of the counts -/

/-- The dump tells how often each page was found accessed: one row for every such page, with the
number of polls that found it, and no more in all than what the polls found. -/
def DumpComplete (ps : List Poll) (rows : List DumpRow) : Prop :=
  (∀ p, (∃ poll ∈ ps, p ∈ poll.accessed) → ∃ row, rows.filter (fun row ↦ row.pfn = p) = [row] ∧
    row.accesses = ps.countP fun poll ↦ p ∈ poll.accessed) ∧
  (rows.map DumpRow.accesses).sum = (ps.map fun poll ↦ poll.accessed.length).sum

/-- **How often a page was counted**: as often as a poll found it. -/
theorem countP_allAccessed {ps : List Poll} (hnd : ∀ poll ∈ ps, poll.accessed.Nodup) (p : ℕ) :
    (allAccessed ps).countP (· = p) = ps.countP fun poll ↦ p ∈ poll.accessed := by
  induction ps with
  | nil => rfl
  | cons poll ps ih =>
    have hrest := ih fun q hq ↦ hnd q (List.mem_cons_of_mem _ hq)
    rw [allAccessed, List.flatMap_cons, List.countP_append,
      countP_of_nodup (hnd poll List.mem_cons_self), List.countP_cons, ← hrest, Nat.add_comm]
    simp [allAccessed]

theorem length_allAccessed (ps : List Poll) :
    (allAccessed ps).length = (ps.map fun poll ↦ poll.accessed.length).sum :=
  List.length_flatMap

section Rows

variable {flagsMap accessCounts : Dict ℕ ℕ} {pfnMeta : PfnMeta} {nPolls : ℕ} {elapsed : ℚ}

/-- The PFNs of the rows are those of the present pages, in some order. -/
theorem perm_pfn_dumpRows :
    ((dumpRows flagsMap accessCounts pfnMeta nPolls elapsed).map DumpRow.pfn).Perm
      pfnMeta.keys := by
  have hmap : (dumpRows flagsMap accessCounts pfnMeta nPolls elapsed).map DumpRow.pfn =
      (pfnMeta.items.insertionSort fun e e' ↦ e.1 ≤ e'.1).map Prod.fst := by
    rw [dumpRows, List.map_map]
    rfl
  rw [hmap]
  exact (List.perm_insertionSort _ _).map Prod.fst

theorem accesses_of_mem_dumpRows {row : DumpRow}
    (h : row ∈ dumpRows flagsMap accessCounts pfnMeta nPolls elapsed) :
    row.accesses = accessCounts.count row.pfn := by
  obtain ⟨e, -, rfl⟩ := List.mem_map.1 h
  rfl

/-- The counts of the rows are those of the present pages. -/
theorem sum_accesses_dumpRows :
    ((dumpRows flagsMap accessCounts pfnMeta nPolls elapsed).map DumpRow.accesses).sum =
      (pfnMeta.keys.map accessCounts.count).sum := by
  have hmap : (dumpRows flagsMap accessCounts pfnMeta nPolls elapsed).map DumpRow.accesses =
      ((dumpRows flagsMap accessCounts pfnMeta nPolls elapsed).map DumpRow.pfn).map
        accessCounts.count := by
    rw [List.map_map]
    exact List.map_congr_left fun row hrow ↦ accesses_of_mem_dumpRows hrow
  rw [hmap]
  exact (perm_pfn_dumpRows.map _).sum_nat

/-- **A present page has exactly one row.** -/
theorem filter_dumpRows {p : ℕ} (hp : p ∈ pfnMeta.keys) :
    ∃ row, (dumpRows flagsMap accessCounts pfnMeta nPolls elapsed).filter
      (fun row ↦ row.pfn = p) = [row] ∧ row.accesses = accessCounts.count p := by
  have hmem : p ∈ (dumpRows flagsMap accessCounts pfnMeta nPolls elapsed).map DumpRow.pfn :=
    perm_pfn_dumpRows.mem_iff.2 hp
  have hnd : ((dumpRows flagsMap accessCounts pfnMeta nPolls elapsed).map DumpRow.pfn).Nodup :=
    perm_pfn_dumpRows.nodup_iff.2 pfnMeta.nodupKeys
  obtain ⟨row, hrow, rfl⟩ := List.mem_map.1 hmem
  exact ⟨row, filter_eq_singleton hnd hrow, accesses_of_mem_dumpRows hrow⟩

end Rows

/-- What a dump consists of. -/
theorem exists_of_main {κ : Type*} {F : IdleFile κ} {args : Args} {passes : List (Pass κ)}
    {bitmap : κ} {elapsed : ℚ} {pread : (offset count : ℕ) → Option (List ℕ)}
    {rows : List DumpRow} (h : main F args passes bitmap elapsed pread = some rows) :
    ∃ s flagsMap, pollLoop F args passes (.start bitmap) = .left s ∧
      rows = dumpRows flagsMap s.accessCounts s.pfnMeta s.pollN elapsed := by
  rw [main] at h
  split at h
  · rename_i s hleft
    split_ifs at h with hnone
    refine ⟨s, readKpageflagsBatch pread s.pfnMeta.keys, hleft, ?_⟩
    rw [dumpOutput] at h
    split_ifs at h
    · exact (Option.some.inj h).symm
    · exact (Option.some.inj h).symm
  · exact absurd h (by simp)

/-- The PFNs that are present at the last poll. -/
def lastPresent (ps : List Poll) : List ℕ :=
  (ps.getLast?.map fun poll ↦ poll.present.keys).getD []

/-- **The dump is complete exactly where no page found accessed has gone.** In every run that dumps
its counts, there is a row for every page that some poll found accessed, with the number of these
polls, and the counts add up to what the polls found, if and only if all these pages are still
present at the last poll. -/
theorem dump_complete_iff {κ : Type*} (F : IdleFile κ) (args : Args) (passes : List (Pass κ))
    (bitmap : κ) (elapsed : ℚ) (pread : (offset count : ℕ) → Option (List ℕ))
    {rows : List DumpRow} (h : main F args passes bitmap elapsed pread = some rows) :
    DumpComplete (runPolls F args passes bitmap) rows ↔
      ∀ poll ∈ runPolls F args passes bitmap, ∀ p ∈ poll.accessed,
        p ∈ lastPresent (runPolls F args passes bitmap) := by
  obtain ⟨s, flagsMap, hleft, rfl⟩ := exists_of_main h
  obtain ⟨-, hcounts, hmeta⟩ := pollLoop_left F hleft
  have hkeys : s.pfnMeta.keys = lastPresent (runPolls F args passes bitmap) := by
    rw [hmeta]
    show Dict.keys (((runPolls F args passes bitmap).getLast?.map Poll.present).getD Dict.empty) = _
    rw [lastPresent]
    rcases (runPolls F args passes bitmap).getLast? with - | poll
    · rfl
    · rfl
  have hnd : ∀ poll ∈ runPolls F args passes bitmap, poll.accessed.Nodup := fun poll hpoll ↦
    nodup_accessed F hpoll
  have hcount : ∀ p, s.accessCounts.count p =
      (allAccessed (runPolls F args passes bitmap)).countP (· = p) := fun p ↦ by
    rw [hcounts]
    exact (Dict.count_foldl_incr _ _ p).trans (Nat.zero_add _)
  rw [← hkeys]
  constructor
  · rintro ⟨hrows, -⟩ poll hpoll p hp
    obtain ⟨row, hrow, -⟩ := hrows p ⟨poll, hpoll, hp⟩
    have hmem : row ∈ [row] := List.mem_singleton_self row
    rw [← hrow] at hmem
    obtain ⟨hmem, hpfn⟩ := List.mem_filter.1 hmem
    rw [← of_decide_eq_true hpfn]
    exact perm_pfn_dumpRows.mem_iff.1 (List.mem_map_of_mem hmem)
  · intro hpresent
    refine ⟨fun p ⟨poll, hpoll, hp⟩ ↦ ?_, ?_⟩
    · obtain ⟨row, hrow, haccesses⟩ := filter_dumpRows (hpresent poll hpoll p hp)
      exact ⟨row, hrow, by rw [haccesses, hcount, countP_allAccessed hnd]⟩
    · have hmem : ∀ p ∈ allAccessed (runPolls F args passes bitmap), p ∈ s.pfnMeta.keys :=
        fun p hp ↦ by
          obtain ⟨poll, hpoll, hp⟩ := List.mem_flatMap.1 hp
          exact hpresent poll hpoll p hp
      have hnodup : s.pfnMeta.keys.Nodup := s.pfnMeta.nodupKeys
      rw [sum_accesses_dumpRows, List.map_congr_left fun p _ ↦ hcount p,
        sum_countP hnodup hmem, length_allAccessed]

/-- A page that is present under the given PFN. -/
def presentPage (pfn : ℕ) : PfnMeta := Dict.empty.set pfn (0x1000, ['[', 'h', 'e', 'a', 'p', ']'])

/-- Two polls, each after a refresh: page 5 is accessed during the first, and the second finds the
given page present. -/
def twoPolls (pfn : ℕ) : List (Pass (ℕ → Bool)) :=
  [⟨false, .present (presentPage 5), fun bits p ↦ bits p && decide (p ≠ 5)⟩,
    ⟨false, .present (presentPage pfn), id⟩, ⟨true, .failed, id⟩]

/-- A refresh for every poll. -/
def everyPoll : Args := ⟨0, 1, ['o', 'u', 't', '.', 'c', 's', 'v']⟩

/-- **A page that has moved takes its count with it.** -/
theorem not_dumpComplete_movedPage : ∃ rows,
    main (kernelFile fun _ ↦ true) everyPoll (twoPolls 6) (fun _ ↦ false) 1 (fun _ _ ↦ none) =
      some rows ∧
    ¬ DumpComplete (runPolls (kernelFile fun _ ↦ true) everyPoll (twoPolls 6) fun _ ↦ false)
      rows := by
  have hsum : (main (kernelFile fun _ ↦ true) everyPoll (twoPolls 6) (fun _ ↦ false) 1
      fun _ _ ↦ none).map (fun rows ↦ (rows.map DumpRow.accesses).sum) = some 0 := by
    decide +kernel
  have htotal : ((runPolls (kernelFile fun _ ↦ true) everyPoll (twoPolls 6) fun _ ↦ false).map
      fun poll ↦ poll.accessed.length).sum = 1 := by
    decide +kernel
  obtain ⟨rows, hrows, hzero⟩ := Option.map_eq_some_iff.1 hsum
  refine ⟨rows, hrows, fun h ↦ ?_⟩
  exact absurd (hzero.symm.trans (h.2.trans htotal)) (by decide)

/-- A page that stays keeps it. -/
theorem dumpComplete_steadyPage : ∃ rows,
    main (kernelFile fun _ ↦ true) everyPoll (twoPolls 5) (fun _ ↦ false) 1 (fun _ _ ↦ none) =
      some rows ∧
    DumpComplete (runPolls (kernelFile fun _ ↦ true) everyPoll (twoPolls 5) fun _ ↦ false)
      rows := by
  have hsome : (main (kernelFile fun _ ↦ true) everyPoll (twoPolls 5) (fun _ ↦ false) 1
      fun _ _ ↦ none).isSome := by
    decide +kernel
  have hpresent : ∀ poll ∈ runPolls (kernelFile fun _ ↦ true) everyPoll (twoPolls 5)
      fun _ ↦ false, ∀ p ∈ poll.accessed,
      p ∈ lastPresent (runPolls (kernelFile fun _ ↦ true) everyPoll (twoPolls 5)
        fun _ ↦ false) := by
    decide +kernel
  obtain ⟨rows, hrows⟩ := Option.isSome_iff_exists.1 hsome
  exact ⟨rows, hrows, (dump_complete_iff _ _ _ _ _ _ hrows).2 hpresent⟩

end Pages
