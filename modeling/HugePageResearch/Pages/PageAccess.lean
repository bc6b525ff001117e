import HugePageResearch.Library.BitFile
import Mathlib.Data.Finset.Dedup
import Mathlib.Data.Finset.Lattice.Lemmas
import Mathlib.Data.List.Sort

/-!
# The page access tracker

`data_collection/page_access.py`: a tracker turns a virtual address into the page frame number (PFN)
that the idle bitmap tracks for it, marks such PFNs idle and reads later whether they still are.
The kernel's answers come from `ProcFiles` (what lies below `/proc`) and from an `IdleFile`, a
bitmap of 64-bit words with a state of its own.

What the operations do to the tracker and to the bitmap is said here once, for every bitmap:
`readMany_spec` and `armMany_spec`.
-/

namespace Pages

open BitFile

/-! ### The environment -/

/-- What the methods raise. -/
inductive PageError where
  /-- `ValueError("virtual address must be non-negative")`. -/
  | negativeAddress
  /-- `ProcessLookupError(f"pid {pid} is not available")`. -/
  | pidUnavailable (pid : ℤ)
  /-- `OSError(f"short read from pagemap for pid={pid} va=0x{virtual_address:x}")`. -/
  | shortPagemap (pid virtualAddress : ℤ)
  /-- `OSError(f"short read from kpageflags for pfn={pfn}")`. -/
  | shortKpageflags (pfn : ℕ)
  /-- `OSError(f"short read from idle bitmap for pfn={pfn}")`. -/
  | shortIdleBitmap (pfn : ℕ)
  /-- An `OSError` of a system call. -/
  | os
  /-- An `OverflowError` of a system call (an offset that is no `off_t`). -/
  | overflow
  deriving DecidableEq

/-- The exception is an `OSError`, which `ProcessLookupError` is too. -/
def PageError.isOSError : PageError → Bool
  | negativeAddress | overflow => false
  | _ => true

/-- What the files below `/proc` answer. A read that comes short is `none`. -/
structure ProcFiles where
  /-- `(proc_root / str(pid)).is_dir()`. -/
  isDir : ℤ → Bool
  /-- The eight bytes at an offset of `/proc/<pid>/pagemap`. -/
  pagemap : ℤ → ℕ → Except PageError (Option ℕ)
  /-- The eight bytes at an offset of `/proc/kpageflags`. -/
  kpageflags : ℕ → Except PageError (Option ℕ)

/-- The idle bitmap, with a state `κ`: words at a byte offset are read and written. -/
structure IdleFile (κ : Type*) where
  /-- The given number of words, or fewer; `none` is an `OSError`. -/
  read : κ → (offset count : ℕ) → Option (List (BitVec 64)) × κ
  /-- `false` is an `OSError`. -/
  write : κ → (offset : ℕ) → List (BitVec 64) → Bool × κ

/-- The bitmap of a kernel: a write sets the bits that are 1 in it and leaves the others, but bits
that the kernel does not track ignore writes and read as 0. -/
def kernelFile (tracked : ℕ → Bool) : IdleFile (ℕ → Bool) where
  read bits offset count :=
    (some (words 64 (fun p ↦ tracked p && bits p) (offset / 8) count), bits)
  write bits offset masks :=
    (true, fun p ↦ bits p || (tracked p && sets (offset / 8) masks p))

/-! ### Addresses and page frames -/

/-- `PAGEMAP_ENTRY_BYTES`. -/
def pagemapEntryBytes : ℕ := 8

/-- `KPAGEFLAGS_ENTRY_BYTES`. -/
def kpageflagsEntryBytes : ℕ := 8

/-- `PAGE_PRESENT_BIT`. -/
def pagePresentBit : ℕ := 1 <<< 63

/-- `PFN_MASK`. -/
def pfnMask : ℕ := (1 <<< 55) - 1

/-- `KPF_COMPOUND_HEAD`. -/
def kpfCompoundHead : ℕ := 15

/-- `KPF_COMPOUND_TAIL`. -/
def kpfCompoundTail : ℕ := 16

/-- An address of a process. -/
structure PageAccessRequest where
  pid : ℤ
  virtualAddress : ℤ

/-- The page behind an address, if there is one. -/
structure ResolvedPhysicalPage where
  pid : ℤ
  virtualAddress : ℤ
  mappedPfn : Option ℕ
  trackingPfn : Option ℕ
  physicalPageAddr : Option ℕ
  trackingPhysicalPageAddr : Option ℕ

/-- What a read found out about a page. -/
structure PageAccessResult where
  pid : ℤ
  virtualAddress : ℤ
  mappedPfn : Option ℕ
  trackingPfn : Option ℕ
  physicalPageAddr : Option ℕ
  trackingPhysicalPageAddr : Option ℕ
  pageIdle : Option Bool
  accessBit : Option Bool
  accessBitValid : Bool

/-- `decode_pagemap_entry`. -/
def decodePagemapEntry (entry : ℕ) : Option ℕ :=
  if entry &&& pagePresentBit = 0 then none else some (entry &&& pfnMask)

/-- `idle_bitmap_offset_and_mask`. -/
def idleBitmapOffsetAndMask (pfn : ℕ) : ℕ × BitVec 64 := (pfn / 64 * 8, 1#64 <<< (pfn % 64))

/-- `flag_is_set`. -/
def flagIsSet (flags bitIndex : ℕ) : Bool := flags &&& (1 <<< bitIndex) ≠ 0

/-- `_read_mapped_pfn`, for pages of the given size. -/
def readMappedPfn (pageSize : ℕ) (proc : ProcFiles) (pid virtualAddress : ℤ) :
    Except PageError (Option ℕ) :=
  if virtualAddress < 0 then .error .negativeAddress
  else if proc.isDir pid then
    match proc.pagemap pid (virtualAddress.toNat / pageSize * pagemapEntryBytes) with
    | .error e => .error e
    | .ok none => .error (.shortPagemap pid virtualAddress)
    | .ok (some entry) => .ok (decodePagemapEntry entry)
  else .error (.pidUnavailable pid)

/-- `_read_kpageflags`. -/
def readKpageflags (proc : ProcFiles) (pfn : ℕ) : Except PageError ℕ :=
  match proc.kpageflags (pfn * kpageflagsEntryBytes) with
  | .error e => .error e
  | .ok none => .error (.shortKpageflags pfn)
  | .ok (some flags) => .ok flags

/-- The loop of `_normalize_tracking_pfn`, over the candidates below a bound in descending order. -/
def walkBack (proc : ProcFiles) (mappedPfn : ℕ) : ℕ → Except PageError ℕ
  | 0 => .ok mappedPfn
  | candidate + 1 => do
    let candidateFlags ← readKpageflags proc candidate
    if flagIsSet candidateFlags kpfCompoundHead then .ok candidate
    else if flagIsSet candidateFlags kpfCompoundTail then walkBack proc mappedPfn candidate
    else .ok mappedPfn

/-- `_normalize_tracking_pfn`. -/
def normalizeTrackingPfn (proc : ProcFiles) (mappedPfn : ℕ) : Except PageError ℕ := do
  let flags ← readKpageflags proc mappedPfn
  if flagIsSet flags kpfCompoundTail then walkBack proc mappedPfn mappedPfn else .ok mappedPfn

/-- `_resolve_request`. -/
def resolveRequest (pageSize : ℕ) (proc : ProcFiles) (request : PageAccessRequest) :
    Except PageError ResolvedPhysicalPage := do
  match ← readMappedPfn pageSize proc request.pid request.virtualAddress with
  | none => .ok ⟨request.pid, request.virtualAddress, none, none, none, none⟩
  | some mappedPfn =>
    let trackingPfn ← normalizeTrackingPfn proc mappedPfn
    .ok ⟨request.pid, request.virtualAddress, some mappedPfn, some trackingPfn,
      some (mappedPfn * pageSize), some (trackingPfn * pageSize)⟩

/-- `resolve_many`. -/
def resolveMany (pageSize : ℕ) (proc : ProcFiles) (requests : List PageAccessRequest) :
    Except PageError (List ResolvedPhysicalPage) :=
  requests.mapM (resolveRequest pageSize proc)

/-- A resolved page belongs to the address that was asked for. -/
theorem virtualAddress_of_resolveRequest {pageSize : ℕ} {proc : ProcFiles}
    {request : PageAccessRequest} {page : ResolvedPhysicalPage}
    (h : resolveRequest pageSize proc request = .ok page) :
    page.virtualAddress = request.virtualAddress := by
  rw [resolveRequest] at h
  rcases hmapped : readMappedPfn pageSize proc request.pid request.virtualAddress with
    e | - | mappedPfn
  · rw [hmapped] at h
    exact absurd h (by simp [bind, Except.bind])
  · rw [hmapped] at h
    exact congrArg _ (Except.ok.inj h).symm
  · rw [hmapped] at h
    rcases htracking : normalizeTrackingPfn proc mappedPfn with e | trackingPfn
    · simp [bind, Except.bind, htracking] at h
    · simp only [bind, Except.bind, htracking] at h
      exact congrArg _ (Except.ok.inj h).symm

/-- **Pages come back in the order of the requests**, one for each. -/
theorem forall₂_resolveMany {pageSize : ℕ} {proc : ProcFiles} {requests : List PageAccessRequest}
    {pages : List ResolvedPhysicalPage} (h : resolveMany pageSize proc requests = .ok pages) :
    List.Forall₂ (fun request page ↦ page.virtualAddress = request.virtualAddress)
      requests pages := by
  induction requests generalizing pages with
  | nil =>
    obtain rfl := Except.ok.inj h
    exact .nil
  | cons request requests ih =>
    rw [resolveMany, List.mapM_cons] at h
    rcases hpage : resolveRequest pageSize proc request with e | page
    · simp [hpage, bind, Except.bind] at h
    · rcases hrest : requests.mapM (resolveRequest pageSize proc) with e | rest
      · simp [hpage, hrest, bind, Except.bind] at h
      · simp only [hpage, hrest, bind, Except.bind] at h
        obtain rfl := Except.ok.inj h
        exact .cons (virtualAddress_of_resolveRequest hpage) (ih hrest)

/-! ### The tracker -/

/-- The fields of `PageAccessTracker` that its results depend on. -/
structure PageAccessTracker where
  pageSize : ℕ
  armedPfns : Finset ℕ

/-- `sorted` of a set of PFNs. -/
def sortedSet (pfns : List ℕ) : List ℕ := pfns.dedup.insertionSort (· ≤ ·)

/-- The `tracking_pfn`s of pages that have one. -/
def trackingPfns (pages : List ResolvedPhysicalPage) : List ℕ :=
  pages.filterMap (·.trackingPfn)

variable {κ : Type*} (F : IdleFile κ)

/-- `_read_page_idle`. -/
def readPageIdle (pfn : ℕ) (k : κ) : Except PageError Bool × κ :=
  let (offset, mask) := idleBitmapOffsetAndMask pfn
  match F.read k offset 1 with
  | (none, k') => (.error .os, k')
  | (some [word], k') => (.ok (decide (word &&& mask ≠ 0#64)), k')
  | (some _, k') => (.error (.shortIdleBitmap pfn), k')

/-- `{pfn: self._read_page_idle(pfn) for pfn in known_pfns}`, from a given dictionary on. -/
def readIdle : List ℕ → Dict ℕ Bool → κ → Except PageError (Dict ℕ Bool) × κ
  | [], idleByPfn, k => (.ok idleByPfn, k)
  | pfn :: pfns, idleByPfn, k =>
    match readPageIdle F pfn k with
    | (.error e, k') => (.error e, k')
    | (.ok idle, k') => readIdle pfns (idleByPfn.set pfn idle) k'

/-- `_result_from_resolved`. -/
def resultFromResolved (idleByPfn : Dict ℕ Bool) (page : ResolvedPhysicalPage) :
    PageAccessResult :=
  match page.trackingPfn with
  | none => ⟨page.pid, page.virtualAddress, page.mappedPfn, none, page.physicalPageAddr,
      page.trackingPhysicalPageAddr, none, none, false⟩
  | some trackingPfn =>
    let pageIdle := idleByPfn.get? trackingPfn
    ⟨page.pid, page.virtualAddress, page.mappedPfn, some trackingPfn, page.physicalPageAddr,
      page.trackingPhysicalPageAddr, pageIdle, pageIdle.map (!·),
      decide (trackingPfn ∈ idleByPfn.keys)⟩

/-- `read_many`. -/
def readMany (tracker : PageAccessTracker) (resolvedPages : List ResolvedPhysicalPage) (k : κ) :
    Except PageError (List PageAccessResult) × κ :=
  let knownPfns := sortedSet ((trackingPfns resolvedPages).filter (· ∈ tracker.armedPfns))
  match readIdle F knownPfns Dict.empty k with
  | (.error e, k') => (.error e, k')
  | (.ok idleByPfn, k') => (.ok (resolvedPages.map (resultFromResolved idleByPfn)), k')

/-- The loop of `_mark_idle_pfns` that groups the masks by offset. -/
def groupedMasks (pfns : List ℕ) : Dict ℕ (BitVec 64) :=
  pfns.foldl (fun grouped pfn ↦
    let (offset, mask) := idleBitmapOffsetAndMask pfn
    grouped.set offset ((grouped.get? offset).getD 0#64 ||| mask)) Dict.empty

/-- The loop of `_mark_idle_pfns` that writes. -/
def writeMasks : List (ℕ × BitVec 64) → κ → Except PageError Unit × κ
  | [], k => (.ok (), k)
  | (offset, mask) :: entries, k =>
    match F.write k offset [mask] with
    | (false, k') => (.error .os, k')
    | (true, k') => writeMasks entries k'

/-- `_mark_idle_pfns`. -/
def markIdlePfns (pfns : List ℕ) (k : κ) : Except PageError Unit × κ :=
  writeMasks F ((groupedMasks pfns).items.insertionSort fun e e' ↦ e.1 ≤ e'.1) k

/-- `arm_many`. -/
def armMany (tracker : PageAccessTracker) (resolvedPages : List ResolvedPhysicalPage) (k : κ) :
    Except PageError Unit × PageAccessTracker × κ :=
  let tracking := sortedSet (trackingPfns resolvedPages)
  if tracking = [] then (.ok (), tracker, k)
  else match markIdlePfns F tracking k with
    | (.error e, k') => (.error e, tracker, k')
    | (.ok (), k') =>
      (.ok (), { tracker with armedPfns := tracker.armedPfns ∪ tracking.toFinset }, k')

/-- `sample_many`. -/
def sampleMany (tracker : PageAccessTracker) (proc : ProcFiles)
    (requests : List PageAccessRequest) (k : κ) :
    Except PageError (List PageAccessResult) × PageAccessTracker × κ :=
  match resolveMany tracker.pageSize proc requests with
  | .error e => (.error e, tracker, k)
  | .ok resolved =>
    match readMany F tracker resolved k with
    | (.error e, k') => (.error e, tracker, k')
    | (.ok results, k') =>
      match armMany F tracker resolved k' with
      | (.error e, tracker', k'') => (.error e, tracker', k'')
      | (.ok (), tracker', k'') => (.ok results, tracker', k'')

/-! ### Which pages are read and armed -/

theorem mem_sortedSet {pfns : List ℕ} {p : ℕ} : p ∈ sortedSet pfns ↔ p ∈ pfns := by
  rw [sortedSet, List.mem_insertionSort, List.mem_dedup]

theorem mem_trackingPfns {pages : List ResolvedPhysicalPage} {p : ℕ} :
    p ∈ trackingPfns pages ↔ ∃ page ∈ pages, page.trackingPfn = some p :=
  List.mem_filterMap

theorem groupedMasks_eq (pfns : List ℕ) :
    groupedMasks pfns = groupMasks 64 (fun i ↦ i * 8) pfns := rfl

/-- The offsets of the grouped masks are those of words. -/
theorem exists_word_of_mem_groupedMasks {pfns : List ℕ} {e : ℕ × BitVec 64}
    (h : e ∈ (groupedMasks pfns).items) : ∃ i, e.1 = i * 8 := by
  have hoffset : e.1 ∈ (groupedMasks pfns).keys := List.mem_map_of_mem h
  rw [groupedMasks_eq, mem_keys_groupMasks] at hoffset
  obtain ⟨q, -, hq⟩ := hoffset
  exact ⟨q / 64, hq.symm⟩

/-- **The grouped masks set the bits of the PFNs, and no others.** -/
theorem exists_groupedMasks {pfns : List ℕ} {p : ℕ} :
    (∃ e ∈ (groupedMasks pfns).items, sets (e.1 / 8) [e.2] p = true) ↔ p ∈ pfns := by
  have hkey : Function.Injective fun i : ℕ ↦ i * 8 := fun i j h ↦
    Nat.eq_of_mul_eq_mul_right (by decide) h
  rw [← exists_groupMasks (w := 64) (by decide) hkey, ← groupedMasks_eq]
  constructor
  · rintro ⟨⟨offset, m⟩, he, hset⟩
    obtain ⟨hdiv, hbit⟩ := (sets_singleton _ _ _).1 hset
    obtain ⟨i, hi⟩ := exists_word_of_mem_groupedMasks he
    have hoff : p / 64 * 8 = offset := by
      have hoffset : offset = i * 8 := hi
      omega
    exact ⟨m, hoff ▸ he, hbit⟩
  · rintro ⟨m, hm, hbit⟩
    refine ⟨_, hm, (sets_singleton _ _ _).2 ⟨?_, hbit⟩⟩
    exact (Nat.mul_div_cancel _ (by decide)).symm

variable {F}

/-- A read of one word that does not come short tells whether the PFN's bit is set in it. -/
theorem readPageIdle_of_read {p : ℕ} {k k' : κ} {m : BitVec 64}
    (h : F.read k (p / 64 * 8) 1 = (some [m], k')) :
    readPageIdle F p k = (.ok (m.getLsbD (p % 64)), k') := by
  have hbit : decide (m &&& mask 64 p ≠ 0#64) = m.getLsbD (p % 64) :=
    Bool.eq_iff_iff.2 (decide_eq_true_iff.trans (and_mask_ne_zero (by decide) m p))
  rw [← hbit, readPageIdle]
  simp only [idleBitmapOffsetAndMask, h]
  rfl

/-- A read that gives one word of some bits tells the PFN's bit. -/
theorem readPageIdle_of_words {p : ℕ} {k k' : κ} {bits : ℕ → Bool}
    (h : F.read k (p / 64 * 8) 1 = (some (words 64 bits (p / 64 * 8 / 8) 1), k')) :
    readPageIdle F p k = (.ok (bits p), k') := by
  have hdiv : p / 64 * 8 / 8 = p / 64 := Nat.mul_div_cancel _ (by decide)
  rw [hdiv, words_one] at h
  rw [readPageIdle_of_read h, getLsbD_word (by decide)]

/-- **The dictionary of a read**: its keys are the PFNs asked for, and each value was read while the
bitmap was in a state between the first and the last. The relation `R` says what may happen to the
state while it is read. -/
theorem readIdle_spec {R : κ → κ → Prop} (hrefl : ∀ k, R k k)
    (htrans : ∀ k₁ k₂ k₃, R k₁ k₂ → R k₂ k₃ → R k₁ k₃)
    (hread : ∀ k p, R k (readPageIdle F p k).2) {pfns : List ℕ} {d d' : Dict ℕ Bool} {k k' : κ}
    (h : readIdle F pfns d k = (.ok d', k')) :
    R k k' ∧ (∀ p, p ∈ d'.keys ↔ p ∈ d.keys ∨ p ∈ pfns) ∧
      ∀ p b, d'.get? p = some b → d.get? p = some b ∨
        ∃ k₁, R k k₁ ∧ (readPageIdle F p k₁).1 = .ok b ∧ R (readPageIdle F p k₁).2 k' := by
  induction pfns generalizing d k with
  | nil =>
    obtain ⟨hd, rfl⟩ := Prod.mk.inj h
    obtain rfl := Except.ok.inj hd
    exact ⟨hrefl k, fun p ↦ by simp, fun p b hb ↦ Or.inl hb⟩
  | cons q pfns ih =>
    rw [readIdle] at h
    have hfirst := hread k q
    rcases hq : readPageIdle F q k with ⟨e | idle, k₁⟩
    · rw [hq] at h
      exact absurd (Prod.mk.inj h).1 (by simp)
    · rw [hq] at h hfirst
      obtain ⟨hR, hkeys, hget⟩ := ih h
      refine ⟨htrans _ _ _ hfirst hR, fun p ↦ ?_, fun p b hb ↦ ?_⟩
      · rw [hkeys, Dict.keys_set, List.mem_cons]
        split_ifs with hmem
        · refine ⟨fun h ↦ h.imp_right Or.inr, ?_⟩
          rintro (h | rfl | h)
          · exact Or.inl h
          · exact Or.inl hmem
          · exact Or.inr h
        · rw [List.mem_append, List.mem_singleton, or_assoc]
      · rcases hget p b hb with hset | ⟨k₂, hk₂, hval, hend⟩
        · rw [Dict.get?_set] at hset
          split_ifs at hset with hqp
          · subst hqp
            refine Or.inr ⟨k, hrefl k, ?_, ?_⟩
            · rw [hq]
              exact congrArg Except.ok (Option.some.inj hset)
            · rw [hq]
              exact hR
          · exact Or.inl hset
        · exact Or.inr ⟨k₂, htrans _ _ _ hfirst hk₂, hval, hend⟩

/-- **What `read_many` returns.** One result for each page, in order, from a dictionary that knows
the armed PFNs among those of the pages, each with the bit read at some moment of the call. -/
theorem readMany_spec {R : κ → κ → Prop} (hrefl : ∀ k, R k k)
    (htrans : ∀ k₁ k₂ k₃, R k₁ k₂ → R k₂ k₃ → R k₁ k₃)
    (hread : ∀ k p, R k (readPageIdle F p k).2) {tracker : PageAccessTracker}
    {pages : List ResolvedPhysicalPage} {results : List PageAccessResult} {k k' : κ}
    (h : readMany F tracker pages k = (.ok results, k')) :
    R k k' ∧ ∃ idle : Dict ℕ Bool, results = pages.map (resultFromResolved idle) ∧
      (∀ p ∈ trackingPfns pages, p ∈ idle.keys ↔ p ∈ tracker.armedPfns) ∧
      ∀ p b, idle.get? p = some b →
        ∃ k₁, R k k₁ ∧ (readPageIdle F p k₁).1 = .ok b ∧ R (readPageIdle F p k₁).2 k' := by
  simp only [readMany] at h
  split at h
  · exact absurd (Prod.mk.inj h).1 (by simp)
  · rename_i idle k₁ hidle
    obtain ⟨hres, rfl⟩ := Prod.mk.inj h
    obtain ⟨hR, hkeys, hget⟩ := readIdle_spec hrefl htrans hread hidle
    refine ⟨hR, idle, (Except.ok.inj hres).symm, fun p hp ↦ ?_, fun p b hb ↦ ?_⟩
    · rw [hkeys, mem_sortedSet, List.mem_filter, decide_eq_true_eq]
      exact ⟨fun h ↦ (h.resolve_left List.not_mem_nil).2, fun h ↦ Or.inr ⟨hp, h⟩⟩
    · exact (hget p b hb).resolve_left (by simp)

/-- Where no single read fails, the dictionary is complete. -/
theorem readIdle_ok (hok : ∀ k p, ∃ b, (readPageIdle F p k).1 = .ok b) (pfns : List ℕ)
    (d : Dict ℕ Bool) (k : κ) : ∃ d', (readIdle F pfns d k).1 = .ok d' := by
  induction pfns generalizing d k with
  | nil => exact ⟨d, rfl⟩
  | cons p pfns ih =>
    obtain ⟨b, hb⟩ := hok k p
    rcases hp : readPageIdle F p k with ⟨e | idle, k₁⟩
    · rw [hp] at hb
      exact absurd hb (by simp)
    · rw [readIdle, hp]
      exact ih _ _

/-- Where no single read fails, `read_many` returns. -/
theorem readMany_ok (hok : ∀ k p, ∃ b, (readPageIdle F p k).1 = .ok b)
    (tracker : PageAccessTracker) (pages : List ResolvedPhysicalPage) (k : κ) :
    ∃ results k', readMany F tracker pages k = (.ok results, k') := by
  simp only [readMany]
  split
  · rename_i e k' herr
    obtain ⟨d', hd'⟩ := readIdle_ok hok
      (sortedSet ((trackingPfns pages).filter (· ∈ tracker.armedPfns))) Dict.empty k
    rw [herr] at hd'
    exact absurd hd' (by simp)
  · exact ⟨_, _, rfl⟩

/-- The words that mark PFNs idle, in the order in which they are written. -/
def maskEntries (pages : List ResolvedPhysicalPage) : List (ℕ × BitVec 64) :=
  (groupedMasks (sortedSet (trackingPfns pages))).items.insertionSort fun e e' ↦ e.1 ≤ e'.1

/-- **The written words set the bits of the pages' PFNs, and no others.** -/
theorem exists_maskEntries {pages : List ResolvedPhysicalPage} {p : ℕ} :
    (∃ e ∈ maskEntries pages, sets (e.1 / 8) [e.2] p = true) ↔ p ∈ trackingPfns pages := by
  simp only [maskEntries, List.mem_insertionSort]
  rw [exists_groupedMasks, mem_sortedSet]

/-- **What `arm_many` does**: it writes the words, and where all writes succeed it adds the PFNs. -/
theorem armMany_eq (tracker : PageAccessTracker) (pages : List ResolvedPhysicalPage) (k : κ) :
    armMany F tracker pages k = match writeMasks F (maskEntries pages) k with
      | (.error e, k') => (.error e, tracker, k')
      | (.ok (), k') => (.ok (),
          { tracker with armedPfns := tracker.armedPfns ∪ (trackingPfns pages).toFinset }, k') := by
  have hset : (sortedSet (trackingPfns pages)).toFinset = (trackingPfns pages).toFinset :=
    Finset.ext fun p ↦ by rw [List.mem_toFinset, mem_sortedSet, List.mem_toFinset]
  simp only [armMany, hset]
  split_ifs with hnil
  · rw [maskEntries, ← hset, hnil]
    simp [groupedMasks, Dict.empty, writeMasks]
  · rfl

/-- Where `arm_many` returns, the PFNs of the pages are armed. -/
theorem armed_of_armMany {tracker tracker' : PageAccessTracker}
    {pages : List ResolvedPhysicalPage} {k k' : κ}
    (h : armMany F tracker pages k = (.ok (), tracker', k')) {p : ℕ} (hp : p ∈ trackingPfns pages) :
    p ∈ tracker'.armedPfns := by
  rw [armMany_eq] at h
  split at h
  · exact absurd (Prod.mk.inj h).1 (by simp)
  · obtain ⟨-, htracker⟩ := Prod.mk.inj h
    obtain ⟨rfl, -⟩ := Prod.mk.inj htracker
    exact Finset.mem_union_right _ (List.mem_toFinset.2 hp)

/-! ### What a result says -/

section Result

variable (idle : Dict ℕ Bool) (page : ResolvedPhysicalPage)

@[simp] theorem trackingPfn_resultFromResolved :
    (resultFromResolved idle page).trackingPfn = page.trackingPfn := by
  rw [resultFromResolved]
  split
  · rename_i h
    exact h.symm
  · rename_i h
    exact h.symm

variable {idle page}

theorem accessBitValid_resultFromResolved :
    (resultFromResolved idle page).accessBitValid = true ↔
      ∃ p, page.trackingPfn = some p ∧ p ∈ idle.keys := by
  rw [resultFromResolved]
  rcases page.trackingPfn with - | p
  · simp
  · simp

/-- The three outcome fields of a page with a PFN, from the dictionary's entry. -/
theorem fields_resultFromResolved {p : ℕ} (hp : page.trackingPfn = some p) :
    (resultFromResolved idle page).pageIdle = idle.get? p ∧
      (resultFromResolved idle page).accessBit = (idle.get? p).map (!·) := by
  rw [resultFromResolved, hp]
  exact ⟨rfl, rfl⟩

/-- **A result that is not valid has no bits.** -/
theorem fields_of_not_valid (h : (resultFromResolved idle page).accessBitValid = false) :
    (resultFromResolved idle page).pageIdle = none ∧
      (resultFromResolved idle page).accessBit = none := by
  rcases hp : page.trackingPfn with - | p
  · rw [resultFromResolved, hp]
    exact ⟨rfl, rfl⟩
  · have hnot : p ∉ idle.keys := fun hmem ↦
      Bool.false_ne_true (h.symm.trans (accessBitValid_resultFromResolved.2 ⟨p, hp, hmem⟩))
    obtain ⟨hidle, haccess⟩ := @fields_resultFromResolved idle _ _ hp
    rw [hidle, haccess, Dict.get?_eq_none hnot]
    exact ⟨rfl, rfl⟩

end Result

end Pages
