import HugePageResearch.Library.Lists
import HugePageResearch.Pages.IdleAccesses

/-!
# Compound pages in the two idle-page trackers

The kernel keeps idleness for the head of a compound page only: a write for a tail is ignored and
its bit reads as 0, and an access to any page of the compound clears the bit of the head.
`PageAccessTracker` walks from a tail back to its head before it arms and reads;
`track_idle_accesses` uses the page frame numbers as they are.

## The result

`trackersAgree_iff`: the two agree exactly where every present tail belongs to a compound page that
is accessed: `poll_once` counts a tail whatever happens (`counted_iff`), while the tracker reports
an access exactly where the compound page was accessed (`trackerReport_eq`).
-/

namespace Pages

open Lists BitFile

/-! ### Layouts -/

/-- A layout of memory, by its page flags: every tail follows the head or another tail. -/
structure Layout where
  /-- The entries of `/proc/kpageflags`. -/
  kpageflags : ℕ → ℕ
  /-- A tail follows its head or another tail. -/
  pred_of_tail : ∀ p, flagIsSet (kpageflags p) kpfCompoundTail = true → ∃ q, p = q + 1 ∧
    (flagIsSet (kpageflags q) kpfCompoundHead = true ∨
      flagIsSet (kpageflags q) kpfCompoundTail = true)
  /-- No page is head and tail. -/
  head_or_tail : ∀ p, flagIsSet (kpageflags p) kpfCompoundHead = true →
    flagIsSet (kpageflags p) kpfCompoundTail = false

namespace Layout

variable (L : Layout)

/-- The page is a tail. -/
def isTail (p : ℕ) : Bool := flagIsSet (L.kpageflags p) kpfCompoundTail

/-- The page whose idleness stands for that of a page: the head of its compound page, or itself. -/
def head : ℕ → ℕ
  | 0 => 0
  | p + 1 => if L.isTail (p + 1) then head p else p + 1

variable {L}

theorem not_isTail_zero : L.isTail 0 = false := by
  rw [← Bool.not_eq_true]
  intro h
  obtain ⟨q, hq, -⟩ := L.pred_of_tail 0 h
  exact absurd hq (Nat.succ_ne_zero q).symm

theorem head_of_not_isTail {p : ℕ} (h : L.isTail p = false) : L.head p = p := by
  rcases p with - | p
  · rfl
  · rw [head, if_neg (by simp [h])]

theorem head_succ_of_isTail {p : ℕ} (h : L.isTail (p + 1) = true) : L.head (p + 1) = L.head p := by
  rw [head, if_pos h]

/-- **The head is no tail.** -/
theorem not_isTail_head (p : ℕ) : L.isTail (L.head p) = false := by
  induction p with
  | zero => exact not_isTail_zero
  | succ p ih =>
    rw [head]
    split_ifs with h
    · exact ih
    · exact Bool.eq_false_iff.2 h

variable (L)

/-- The files below `/proc` of a system with this layout. -/
def procFiles (isDir : ℤ → Bool) (pagemap : ℤ → ℕ → Except PageError (Option ℕ)) : ProcFiles where
  isDir
  pagemap
  kpageflags offset := .ok (some (L.kpageflags (offset / kpageflagsEntryBytes)))

/-- The idle bitmap of a system with this layout. -/
def idleFile : IdleFile (ℕ → Bool) := kernelFile fun p ↦ !L.isTail p

/-- Pages are accessed, one after the other. -/
def accessAll (accessed : List ℕ) (bits : ℕ → Bool) : ℕ → Bool :=
  accessed.foldl (fun bits q p ↦ bits p && decide (p ≠ L.head q)) bits

/-- The compound page of a PFN is accessed. -/
def CompoundAccessed (accessed : List ℕ) (p : ℕ) : Prop := ∃ q ∈ accessed, L.head q = L.head p

instance (accessed : List ℕ) (p : ℕ) : Decidable (L.CompoundAccessed accessed p) :=
  inferInstanceAs (Decidable (∃ q ∈ accessed, L.head q = L.head p))

theorem accessAll_eq_true (accessed : List ℕ) (bits : ℕ → Bool) (p : ℕ) :
    L.accessAll accessed bits p = true ↔ bits p = true ∧ ¬ ∃ q ∈ accessed, L.head q = p := by
  rw [accessAll]
  induction accessed generalizing bits with
  | nil => simp
  | cons q qs ih =>
    rw [List.foldl_cons, ih, List.exists_mem_cons_iff, not_or, Bool.and_eq_true,
      decide_eq_true_eq, ne_comm, and_assoc]

end Layout

variable {L : Layout} {isDir : ℤ → Bool} {pagemap : ℤ → ℕ → Except PageError (Option ℕ)}

theorem readKpageflags_procFiles (p : ℕ) :
    readKpageflags (L.procFiles isDir pagemap) p = .ok (L.kpageflags p) := by
  have hdiv : p * kpageflagsEntryBytes / kpageflagsEntryBytes = p :=
    Nat.mul_div_cancel p (by decide)
  rw [readKpageflags, Layout.procFiles]
  simp only [hdiv]

/-- The walk from a tail comes to its head. -/
theorem walkBack_procFiles {mappedPfn p : ℕ} (h : L.isTail p = true) :
    walkBack (L.procFiles isDir pagemap) mappedPfn p = .ok (L.head p) := by
  induction p with
  | zero => exact absurd h (by simp [Layout.not_isTail_zero])
  | succ p ih =>
    obtain ⟨q, hq, hpred⟩ := L.pred_of_tail _ h
    obtain rfl := Nat.succ.inj hq
    rw [walkBack, readKpageflags_procFiles, Layout.head_succ_of_isTail h]
    show (if flagIsSet (L.kpageflags p) kpfCompoundHead = true then Except.ok p
      else if L.isTail p = true then walkBack (L.procFiles isDir pagemap) mappedPfn p
      else .ok mappedPfn) = .ok (L.head p)
    split_ifs with hhead htail
    · rw [Layout.head_of_not_isTail (L.head_or_tail p hhead)]
    · exact ih htail
    · exact absurd (hpred.resolve_left hhead) htail

/-- **`_normalize_tracking_pfn` finds the head** of every compound page. -/
theorem normalizeTrackingPfn_procFiles (p : ℕ) :
    normalizeTrackingPfn (L.procFiles isDir pagemap) p = .ok (L.head p) := by
  rw [normalizeTrackingPfn, readKpageflags_procFiles]
  show (if L.isTail p = true then walkBack (L.procFiles isDir pagemap) p p else .ok p) = _
  split_ifs with htail
  · exact walkBack_procFiles htail
  · rw [Layout.head_of_not_isTail (Bool.eq_false_iff.2 htail)]

/-! ### `poll_once` -/

section Poll

variable (L) (accessed : List ℕ) (accessCounts : Dict ℕ ℕ) (pfnMeta : PfnMeta) (bits : ℕ → Bool)

/-- `poll_once` counts a page, where the given pages are accessed while it waits. -/
def Counted (p : ℕ) : Prop :=
  (pollOnce L.idleFile (L.accessAll accessed) accessCounts pfnMeta bits).1.count p =
    accessCounts.count p + 1

instance (p : ℕ) : Decidable (Counted L accessed accessCounts pfnMeta bits p) :=
  inferInstanceAs (Decidable (_ = _))

/-- A poll counts the pages that it finds. -/
theorem counted_iff_mem (p : ℕ) : Counted L accessed accessCounts pfnMeta bits p ↔
    p ∈ (accessedPfns L.idleFile (L.accessAll accessed) pfnMeta.keys bits).1 := by
  have hnd := nodup_checkPfnsAccessed L.idleFile pfnMeta.keys
    (L.accessAll accessed (markPfnsIdle L.idleFile pfnMeta.keys bits))
  show (List.foldl Dict.incr accessCounts (checkPfnsAccessed L.idleFile pfnMeta.keys
    (L.accessAll accessed (markPfnsIdle L.idleFile pfnMeta.keys bits))).1).count p = _ ↔
      p ∈ (checkPfnsAccessed L.idleFile pfnMeta.keys _).1
  rw [Dict.count_foldl_incr, Nat.add_left_cancel_iff, countP_of_nodup hnd]
  split_ifs with hmem
  · exact ⟨fun _ ↦ hmem, fun _ ↦ rfl⟩
  · exact ⟨fun h ↦ absurd h (by decide), fun h ↦ absurd h hmem⟩

/-- **What a poll counts**: every present tail, and every other present page whose compound page
was accessed. -/
theorem counted_iff (p : ℕ) : Counted L accessed accessCounts pfnMeta bits p ↔
    p ∈ pfnMeta.keys ∧ (L.isTail p = true ∨ L.CompoundAccessed accessed p) := by
  rw [counted_iff_mem]
  show p ∈ (checkPfnsAccessed (kernelFile _) pfnMeta.keys (L.accessAll accessed
    (markPfnsIdle (kernelFile _) pfnMeta.keys bits))).1 ↔ _
  rw [mem_checkPfnsAccessed_kernel]
  refine and_congr_right fun hp ↦ ?_
  rcases htail : L.isTail p with - | -
  · have hmarked : markPfnsIdle (kernelFile fun q ↦ !L.isTail q) pfnMeta.keys bits p = true :=
      (markPfnsIdle_kernel _ _ _ _).2 (Or.inr ⟨by simp [htail], hp⟩)
    rw [Layout.CompoundAccessed, Layout.head_of_not_isTail htail, Bool.not_false, Bool.true_and,
      ← Bool.not_eq_true, Layout.accessAll_eq_true, and_iff_right hmarked, not_not]
    exact (or_iff_right Bool.false_ne_true).symm
  · simp

end Poll

/-! ### The tracker -/

section Tracker

variable (L) (proc : ProcFiles) (tracker : PageAccessTracker) (accessed : List ℕ)
  (bits : ℕ → Bool)

/-- The address is mapped to the page. -/
def Mapped (request : PageAccessRequest) (p : ℕ) : Prop :=
  readMappedPfn tracker.pageSize proc request.pid request.virtualAddress = .ok (some p)

/-- What the tracker reports for an address that it resolves, arms and reads again after the given
pages have been accessed. -/
def trackerReport (request : PageAccessRequest) : Except PageError (List PageAccessResult) := do
  let pages ← resolveMany tracker.pageSize proc [request]
  match armMany L.idleFile tracker pages bits with
  | (.error e, _) => .error e
  | (.ok (), tracker, bits) => (readMany L.idleFile tracker pages (L.accessAll accessed bits)).1

variable {L proc tracker}

/-- The page behind a mapped address. -/
def mappedPage (L : Layout) (tracker : PageAccessTracker) (request : PageAccessRequest) (p : ℕ) :
    ResolvedPhysicalPage :=
  ⟨request.pid, request.virtualAddress, some p, some (L.head p), some (p * tracker.pageSize),
    some (L.head p * tracker.pageSize)⟩

theorem resolveMany_mapped {request : PageAccessRequest} {p : ℕ}
    (h : Mapped (L.procFiles isDir pagemap) tracker request p) :
    resolveMany tracker.pageSize (L.procFiles isDir pagemap) [request] =
      .ok [mappedPage L tracker request p] := by
  have hone : resolveRequest tracker.pageSize (L.procFiles isDir pagemap) request =
      .ok (mappedPage L tracker request p) := by
    rw [resolveRequest, h]
    show (normalizeTrackingPfn (L.procFiles isDir pagemap) p).bind _ = _
    rw [normalizeTrackingPfn_procFiles]
    rfl
  rw [resolveMany, List.mapM_cons, List.mapM_nil, hone]
  rfl

theorem readPageIdle_kernel (tracked : ℕ → Bool) (p : ℕ) (bits : ℕ → Bool) :
    readPageIdle (kernelFile tracked) p bits = (.ok (tracked p && bits p), bits) :=
  @readPageIdle_of_words _ (kernelFile tracked) p bits bits (fun q ↦ tracked q && bits q) rfl

theorem writeMasks_kernel (tracked : ℕ → Bool) (entries : List (ℕ × BitVec 64))
    (bits : ℕ → Bool) : ∃ bits', writeMasks (kernelFile tracked) entries bits = (.ok (), bits') ∧
      ∀ p, bits' p = true ↔ bits p = true ∨
        tracked p = true ∧ ∃ e ∈ entries, sets (e.1 / 8) [e.2] p = true := by
  induction entries generalizing bits with
  | nil => exact ⟨bits, rfl, by simp⟩
  | cons e entries ih =>
    obtain ⟨bits', hwrite, hbits⟩ :=
      ih fun p ↦ bits p || (tracked p && sets (e.1 / 8) [e.2] p)
    refine ⟨bits', hwrite, fun p ↦ (hbits p).trans ?_⟩
    rw [Bool.or_eq_true, Bool.and_eq_true, List.exists_mem_cons_iff, or_assoc, ← and_or_left]

/-- **Arming pages** on this bitmap sets the bits of their PFNs, where the kernel tracks them. -/
theorem armMany_kernel (tracked : ℕ → Bool) (tracker : PageAccessTracker)
    (pages : List ResolvedPhysicalPage) (bits : ℕ → Bool) : ∃ bits',
      armMany (kernelFile tracked) tracker pages bits = (.ok (), { tracker with
        armedPfns := tracker.armedPfns ∪ (trackingPfns pages).toFinset }, bits') ∧
      ∀ p, bits' p = true ↔ bits p = true ∨ tracked p = true ∧ p ∈ trackingPfns pages := by
  obtain ⟨bits', hwrite, hbits⟩ := writeMasks_kernel tracked (maskEntries pages) bits
  refine ⟨bits', ?_, fun p ↦ (hbits p).trans (by rw [exists_maskEntries])⟩
  rw [armMany_eq, hwrite]

/-- **What the tracker reports**: an access exactly where the compound page was accessed. -/
theorem trackerReport_eq {request : PageAccessRequest} {p : ℕ}
    (h : Mapped (L.procFiles isDir pagemap) tracker request p) (accessed : List ℕ)
    (bits : ℕ → Bool) :
    ∃ r, trackerReport L (L.procFiles isDir pagemap) tracker accessed bits request = .ok [r] ∧
      r.accessBit = some (decide (L.CompoundAccessed accessed p)) := by
  have hok : ∀ (k : ℕ → Bool) q, ∃ b, (readPageIdle L.idleFile q k).1 = .ok b := fun k q ↦
    ⟨_, congrArg Prod.fst (readPageIdle_kernel _ q k)⟩
  obtain ⟨bits', harm, hbits⟩ := armMany_kernel (fun q ↦ !L.isTail q) tracker
    [mappedPage L tracker request p] bits
  obtain ⟨results, k', hread⟩ := readMany_ok hok { tracker with
    armedPfns := tracker.armedPfns ∪ (trackingPfns [mappedPage L tracker request p]).toFinset }
    [mappedPage L tracker request p] (L.accessAll accessed bits')
  have hreport : trackerReport L (L.procFiles isDir pagemap) tracker accessed bits request =
      .ok results := by
    rw [trackerReport, resolveMany_mapped h]
    show (match armMany (kernelFile _) tracker [mappedPage L tracker request p] bits with
      | (.error e, _) => Except.error e
      | (.ok (), tracker, bits) => (readMany L.idleFile tracker
        [mappedPage L tracker request p] (L.accessAll accessed bits)).1) = _
    rw [harm]
    exact congrArg Prod.fst hread
  have hquiet : ∀ (k : ℕ → Bool) q, k = (readPageIdle L.idleFile q k).2 := fun k q ↦
    (congrArg Prod.snd (readPageIdle_kernel _ q k)).symm
  obtain ⟨-, idle, rfl, hkeys, hget⟩ := readMany_spec (R := Eq) (fun _ ↦ rfl)
    (fun _ _ _ ↦ Eq.trans) hquiet hread
  have hpfn : (mappedPage L tracker request p).trackingPfn = some (L.head p) := rfl
  have hmem : L.head p ∈ trackingPfns [mappedPage L tracker request p] :=
    mem_trackingPfns.2 ⟨_, List.mem_cons_self, hpfn⟩
  have hkey : L.head p ∈ idle.keys :=
    (hkeys _ hmem).2 (Finset.mem_union_right _ (List.mem_toFinset.2 hmem))
  obtain ⟨b, hb⟩ := Dict.exists_get?_of_mem_keys hkey
  refine ⟨_, hreport, ?_⟩
  rw [(fields_resultFromResolved hpfn).2, hb, Option.map_some]
  obtain ⟨k₁, rfl, hval, -⟩ := hget _ _ hb
  have hbit : b = (!L.isTail (L.head p) && L.accessAll accessed bits' (L.head p)) :=
    (Except.ok.inj ((congrArg Prod.fst (readPageIdle_kernel _ _ _)).symm.trans hval)).symm
  have harmed : bits' (L.head p) = true :=
    (hbits _).2 (Or.inr ⟨by rw [Layout.not_isTail_head, Bool.not_false], hmem⟩)
  rw [hbit, Layout.not_isTail_head, Bool.not_false, Bool.true_and, Option.some.injEq,
    Bool.eq_iff_iff, Bool.not_eq_true', decide_eq_true_eq, ← Bool.not_eq_true,
    Layout.accessAll_eq_true, and_iff_right harmed, not_not]
  rfl

end Tracker

/-! ### Agreement -/

section Agreement

variable (L) (proc : ProcFiles) (tracker : PageAccessTracker) (accessCounts : Dict ℕ ℕ)
  (pfnMeta : PfnMeta) (accessed : List ℕ) (bits : ℕ → Bool)

/-- The trackers agree: a present page is counted exactly where the tracker reports an access for
every address that is mapped to it, and that is where its compound page was accessed. -/
def TrackersAgree : Prop :=
  ∀ p ∈ pfnMeta.keys, ∀ request, Mapped proc tracker request p →
    (Counted L accessed accessCounts pfnMeta bits p ↔
      ∃ r, trackerReport L proc tracker accessed bits request = .ok [r] ∧
        r.accessBit = some true) ∧
    (Counted L accessed accessCounts pfnMeta bits p ↔ L.CompoundAccessed accessed p)

variable {proc tracker accessCounts pfnMeta}

/-- **The trackers agree exactly where every present tail lies in an accessed compound page.** -/
theorem trackersAgree_iff
    (hpresent : ∀ p ∈ pfnMeta.keys,
      ∃ request, Mapped (L.procFiles isDir pagemap) tracker request p) :
    TrackersAgree L (L.procFiles isDir pagemap) tracker accessCounts pfnMeta accessed bits ↔
      ∀ p ∈ pfnMeta.keys, L.isTail p = true → L.CompoundAccessed accessed p := by
  constructor
  · intro hagree p hp htail
    obtain ⟨request, hrequest⟩ := hpresent p hp
    exact (hagree p hp request hrequest).2.1
      ((counted_iff _ _ _ _ _ p).2 ⟨hp, Or.inl htail⟩)
  · intro htails p hp request hrequest
    have hcounted : Counted L accessed accessCounts pfnMeta bits p ↔
        L.CompoundAccessed accessed p := by
      rw [counted_iff, and_iff_right hp]
      exact ⟨fun h ↦ h.elim (htails p hp) id, Or.inr⟩
    obtain ⟨r, hreport, hbit⟩ := trackerReport_eq hrequest accessed bits
    refine ⟨hcounted.trans ⟨fun h ↦ ⟨r, hreport, ?_⟩, ?_⟩, hcounted⟩
    · rw [hbit, decide_eq_true h]
    · rintro ⟨r', hreport', hbit'⟩
      obtain rfl : r' = r := by simpa using hreport'.symm.trans hreport
      exact of_decide_eq_true (Option.some.inj (hbit.symm.trans hbit'))

end Agreement

/-- A compound page of four: the head 8 and its tails; all other pages are on their own. -/
def quadLayout : Layout where
  kpageflags p :=
    if p = 8 then 1 <<< kpfCompoundHead else if 8 < p ∧ p < 12 then 1 <<< kpfCompoundTail else 0
  pred_of_tail p h := by
    split_ifs at h with hhead htail
    · exact absurd h (by decide)
    · have hcases : p = 9 ∨ p = 10 ∨ p = 11 := by omega
      rcases hcases with rfl | rfl | rfl
      · exact ⟨8, rfl, by decide⟩
      · exact ⟨9, rfl, by decide⟩
      · exact ⟨10, rfl, by decide⟩
    · exact absurd h (by decide)
  head_or_tail p h := by
    split_ifs at h ⊢ with hhead htail
    · decide
    · exact absurd h (by decide)
    · decide

/-- A process whose only page is the first tail. -/
def tailFiles : ProcFiles :=
  quadLayout.procFiles (fun _ ↦ true) fun _ _ ↦ .ok (some (pagePresentBit + 9))

/-- It is present. -/
def tailMeta : PfnMeta := Dict.empty.set 9 (0, ['[', 'h', 'e', 'a', 'p', ']'])

/-- **A tail counts as accessed although nothing was.** -/
theorem not_trackersAgree_idleTail :
    ¬ TrackersAgree quadLayout tailFiles ⟨4096, ∅⟩ Dict.empty tailMeta [] fun _ ↦ false := by
  intro hagree
  have hmapped : Mapped tailFiles ⟨4096, ∅⟩ ⟨1, 0⟩ 9 := rfl
  have hcounted : Counted quadLayout [] Dict.empty tailMeta (fun _ ↦ false) 9 := by decide +kernel
  obtain ⟨q, hq, -⟩ := (hagree 9 (by decide) ⟨1, 0⟩ hmapped).2.1 hcounted
  exact absurd hq List.not_mem_nil

/-- Where another tail of the page is accessed, the trackers agree. -/
theorem trackersAgree_accessedTail :
    TrackersAgree quadLayout tailFiles ⟨4096, ∅⟩ Dict.empty tailMeta [11] fun _ ↦ false := by
  have hkeys : ∀ p ∈ tailMeta.keys, p = 9 := by decide
  refine (trackersAgree_iff quadLayout [11] (fun _ ↦ false) fun p hp ↦ ?_).2 fun p hp _ ↦ ?_
  · obtain rfl := hkeys p hp
    exact ⟨⟨1, 0⟩, rfl⟩
  · obtain rfl := hkeys p hp
    decide

end Pages
