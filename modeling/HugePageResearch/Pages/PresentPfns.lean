import HugePageResearch.Pages.WordRuns
import Mathlib.Data.Set.Function

/-!
# The present pages of a process

`collect_present_pfns_fd` of `data_collection/track_idle_accesses.py`: for each range of addresses
one read of `pagemap`, whose complete entries are gone through. A read may fail or end at any byte.

## The result

`collectPresentPfnsFd_spec`: the map holds the PFNs of the present entries that were read
completely, each with the address and the name of the last such entry; where every read is complete
and no PFN occurs twice, its items are the present pages, one for each.

The ranges do not overlap, so that a page is read with its own range only (`not_mem_pages`).
-/

namespace Pages

open BitFile

/-! ### The functions -/

/-- A range of addresses and its name. -/
structure Region where
  start : ℕ
  stop : ℕ
  name : PyStr

/-- `PM_PFN_MASK`. -/
def pmPfnMask : BitVec 64 := 1#64 <<< 55 - 1

/-- The test for `PM_PRESENT`. -/
def isPresent (entry : BitVec 64) : Bool := entry >>> 63 ≠ 0#64

/-- The PFN of an entry. -/
def pfnOf (entry : BitVec 64) : ℕ := (entry &&& pmPfnMask).toNat

/-- `_parse_pagemap_region`. -/
def parsePagemapRegion (raw : List (BitVec 8)) (start : ℕ) (name : PyStr) (pfnMap : PfnMeta) :
    PfnMeta :=
  let n := raw.length / pagemapEntrySize
  if n = 0 then pfnMap
  else
    let entries := ofBytesMany 64 pagemapEntrySize n raw
    entries.zipIdx.foldl (fun pfnMap e ↦
      if isPresent e.1 then pfnMap.set (pfnOf e.1) (start + e.2 * pageSize, name) else pfnMap)
      pfnMap

namespace ByteFile

variable {κ : Type*} (F : ByteFile κ)

/-- One turn of the loop of `collect_present_pfns_fd`: `os.lseek` and `os.read`. -/
def collectRegion (s : PfnMeta × κ) (region : Region) : PfnMeta × κ :=
  if region.start ≥ region.stop then s
  else
    let nPages := (region.stop - region.start) / pageSize
    let offset := region.start / pageSize * pagemapEntrySize
    match F.pread s.2 (nPages * pagemapEntrySize) offset with
    | (none, fd) => (s.1, fd)
    | (some raw, fd) => (parsePagemapRegion raw region.start region.name s.1, fd)

/-- `collect_present_pfns_fd`. -/
def collectPresentPfnsFd (pagemapFd : κ) (regions : List Region) : PfnMeta × κ :=
  regions.foldl F.collectRegion (Dict.empty, pagemapFd)

end ByteFile

/-! ### What is expected -/

namespace Region

/-- The pages of a range. -/
def pages (r : Region) : List ℕ :=
  List.range' (r.start / pageSize) ((r.stop - r.start) / pageSize)

/-- The range begins and ends with a page. -/
def Aligned (r : Region) : Prop := pageSize ∣ r.start ∧ pageSize ∣ r.stop

/-- No address is in both. -/
def Apart (r r' : Region) : Prop :=
  ∀ x, r.start ≤ x → x < r.stop → r'.start ≤ x → ¬ x < r'.stop

/-- The entry of the map for a page. -/
def entry (bits : ℕ → Bool) (r : Region) (p : ℕ) : ℕ × ℕ × PyStr :=
  (pfnOf (word 64 bits p), p * pageSize, r.name)

end Region

instance (r : Read) (wi : ℕ) : Decidable (r.Covers wi) :=
  decidable_of_iff (∃ n ∈ r.got, r.offset ≤ 8 * wi ∧ 8 * wi + 8 ≤ r.offset + n) Iff.rfl

/-- The entry of a page was read completely. -/
def Covered (reads : List Read) (p : ℕ) : Prop := ∃ r ∈ reads, r.Covers p

instance (reads : List Read) (p : ℕ) : Decidable (Covered reads p) :=
  inferInstanceAs (Decidable (∃ r ∈ reads, r.Covers p))

/-- The entries for the present ones of some pages. -/
def presentEntries (bits : ℕ → Bool) (r : Region) (pages : List ℕ) : List (ℕ × ℕ × PyStr) :=
  (pages.filter fun p ↦ isPresent (word 64 bits p)).map (r.entry bits)

/-- **The entries that were read completely and are present**, in the order of the ranges. -/
def readEntries (bits : ℕ → Bool) (reads : List Read) (regions : List Region) :
    List (ℕ × ℕ × PyStr) :=
  regions.flatMap fun r ↦ presentEntries bits r (r.pages.filter fun p ↦ Covered reads p)

/-- **A present page of the ranges.** -/
def PresentPage (bits : ℕ → Bool) (regions : List Region) (e : Region × ℕ) : Prop :=
  e.1 ∈ regions ∧ e.2 ∈ e.1.pages ∧ isPresent (word 64 bits e.2) = true

/-! ### Reads -/

section Reads

variable {reads reads' : List Read} {p : ℕ}

theorem not_covered_nil : ¬ Covered [] p := by
  rintro ⟨r, hr, -⟩
  exact absurd hr List.not_mem_nil

theorem covered_cons {r : Read} : Covered (r :: reads) p ↔ r.Covers p ∨ Covered reads p :=
  List.exists_mem_cons_iff _ _ _

theorem covered_singleton {r : Read} : Covered [r] p ↔ r.Covers p :=
  covered_cons.trans (or_iff_left not_covered_nil)

theorem covered_append :
    Covered (reads ++ reads') p ↔ Covered reads p ∨ Covered reads' p := by
  simp only [Covered, List.mem_append, or_and_right, exists_or]

end Reads

/-! ### A range -/

section Range

variable {bits : ℕ → Bool} {answer : List Read → (count offset : ℕ) → Option ℕ} {r : Region}

/-- Words with their places. -/
theorem zipIdx_words (bits : ℕ → Bool) (i n : ℕ) :
    (words 64 bits i n).zipIdx = (List.range n).map fun k ↦ (word 64 bits (i + k), k) := by
  refine List.ext_getElem (by simp) fun k hk _ ↦ ?_
  simp [words]

/-- **Parsing what was read of a range** sets the entries of its present pages. -/
theorem parsePagemapRegion_words (hstart : pageSize ∣ r.start) (len : ℕ) (pfnMap : PfnMeta) :
    parsePagemapRegion (words 8 bits (8 * (r.start / pageSize)) len) r.start r.name pfnMap =
      (presentEntries bits r (List.range' (r.start / pageSize) (len / 8))).foldl
        (fun d e ↦ d.set e.1 e.2) pfnMap := by
  have hentries : ofBytesMany 64 pagemapEntrySize (len / pagemapEntrySize)
      (words 8 bits (8 * (r.start / pageSize)) len) =
        words 64 bits (r.start / pageSize) (len / 8) :=
    ofBytesMany_words (by decide) rfl bits _ (Nat.mul_div_le len 8)
  rw [parsePagemapRegion, length_words]
  show (if len / 8 = 0 then pfnMap else _) = _
  split_ifs with hzero
  · rw [hzero]
    rfl
  · show (ofBytesMany 64 pagemapEntrySize (len / pagemapEntrySize) _).zipIdx.foldl _ pfnMap = _
    rw [hentries, zipIdx_words, presentEntries, List.foldl_map, List.foldl_map, List.foldl_filter,
      List.range'_eq_map_range, List.foldl_map]
    have hvaddr : ∀ k, r.start + k * pageSize = (r.start / pageSize + k) * pageSize := fun k ↦ by
      rw [Nat.add_mul, Nat.div_mul_cancel hstart]
    simp only [hvaddr]
    rfl

/-- The first pages of a range. -/
theorem filter_pages_lt {a n m : ℕ} (hm : m ≤ n) (P : ℕ → Prop) [DecidablePred P]
    (hP : ∀ p, P p ↔ a ≤ p ∧ p < a + m) :
    (List.range' a n).filter (fun p ↦ P p) = List.range' a m := by
  have hsplit : List.range' a n = List.range' a m ++ List.range' (a + m) (n - m) := by
    rw [List.range'_append_1, Nat.add_sub_cancel' hm]
  have hfirst : (List.range' a m).filter (fun p ↦ P p) = List.range' a m :=
    List.filter_eq_self.2 fun p hp ↦ decide_eq_true ((hP p).2 (List.mem_range'_1.1 hp))
  have hrest : (List.range' (a + m) (n - m)).filter (fun p ↦ P p) = [] := by
    refine List.filter_eq_nil_iff.2 fun p hp hPp ↦ ?_
    have hlt := ((hP p).1 (of_decide_eq_true hPp)).2
    exact absurd hlt (Nat.not_lt.2 (List.mem_range'_1.1 hp).1)
  rw [hsplit, List.filter_append, hfirst, hrest, List.append_nil]

/-- **A turn of the loop** makes the reads `new`, one or none: it sets the entries of the present
pages whose own entry was read completely. -/
theorem collectRegion_answered (hstart : pageSize ∣ r.start) (d : PfnMeta) (log : List Read) :
    ∃ new, (answeredFile bits answer).collectRegion (d, log) r =
        ((presentEntries bits r (r.pages.filter fun p ↦ Covered new p)).foldl
          (fun d e ↦ d.set e.1 e.2) d, log ++ new) ∧
      (∀ p, Covered new p → p ∈ r.pages) ∧
      ((∀ rd ∈ new, rd.Complete) → ∀ p ∈ r.pages, Covered new p) := by
  rw [ByteFile.collectRegion]
  split_ifs with hskip
  · have hpages : r.pages = [] := by
      rw [Region.pages, Nat.sub_eq_zero_of_le hskip]
      rfl
    refine ⟨[], ?_, fun p hp ↦ absurd hp not_covered_nil, fun _ p hp ↦ ?_⟩
    · rw [hpages, List.append_nil]
      rfl
    · rw [hpages] at hp
      exact absurd hp List.not_mem_nil
  · obtain ⟨got, hgot, hread⟩ := exists_pread_answeredFile bits answer log (r.start / pageSize)
      ((r.stop - r.start) / pageSize)
    refine ⟨[.ofWords (r.start / pageSize) ((r.stop - r.start) / pageSize) got], ?_,
      fun p hp ↦ Read.mem_range'_of_covers_ofWords hgot (covered_singleton.1 hp),
      fun h p hp ↦ covered_singleton.2 ((h _ List.mem_cons_self).covers_ofWords hp)⟩
    have hoffset : r.start / pageSize * pagemapEntrySize = 8 * (r.start / pageSize) :=
      Nat.mul_comm _ 8
    have hpread : (answeredFile bits answer).pread log
        ((r.stop - r.start) / pageSize * pagemapEntrySize) (8 * (r.start / pageSize)) = _ := hread
    simp only [hoffset, hpread]
    rcases got with - | len
    · rw [List.filter_eq_nil_iff.2 fun p _ hp ↦ Read.not_covers_ofWords_none
        (covered_singleton.1 (of_decide_eq_true hp))]
      rfl
    · have hle : len / 8 ≤ (r.stop - r.start) / pageSize :=
        Nat.div_le_of_le_mul (by rw [Nat.mul_comm]; exact hgot len rfl)
      rw [Region.pages, filter_pages_lt hle _ fun p ↦
        covered_singleton.trans Read.covers_ofWords]
      simp only [Option.map_some]
      rw [parsePagemapRegion_words hstart]

end Range

/-! ### All ranges -/

section Ranges

variable {bits : ℕ → Bool} {answer : List Read → (count offset : ℕ) → Option ℕ}
  {r r' : Region} {regions : List Region} {p : ℕ}

/-- **A page is in one range only.** -/
theorem Region.Apart.not_mem_pages (h : r.Apart r') (hr : r.Aligned) (hr' : r'.Aligned)
    (hp : p ∈ r.pages) : p ∉ r'.pages := by
  intro hp'
  have haddr : ∀ s : Region, s.Aligned → p ∈ s.pages →
      s.start ≤ p * pageSize ∧ p * pageSize < s.stop := fun s hs hps ↦ by
    obtain ⟨⟨a, ha⟩, -⟩ := hs
    have hstart : s.start = 4096 * a := ha
    have hpage : s.start / 4096 ≤ p ∧ p < s.start / 4096 + (s.stop - s.start) / 4096 :=
      List.mem_range'_1.1 hps
    show s.start ≤ p * 4096 ∧ p * 4096 < s.stop
    omega
  obtain ⟨hle, hlt⟩ := haddr r hr hp
  obtain ⟨hle', hlt'⟩ := haddr r' hr' hp'
  exact h _ hle hlt hle' hlt'

/-- Reads that cover no page of a range do not count for it. -/
theorem filter_covered_congr {reads reads' : List Read}
    (h : ∀ p ∈ r.pages, Covered reads p ↔ Covered reads' p) :
    r.pages.filter (fun p ↦ Covered reads p) = r.pages.filter fun p ↦ Covered reads' p :=
  List.filter_congr fun p hp ↦ decide_eq_decide.2 (h p hp)

/-- **The loop** sets the present entries that were read completely. -/
theorem foldl_collectRegion_answered (haligned : ∀ r ∈ regions, r.Aligned)
    (hapart : regions.Pairwise Region.Apart) (d : PfnMeta) (log : List Read) :
    ∃ new, regions.foldl (answeredFile bits answer).collectRegion (d, log) =
        ((readEntries bits new regions).foldl (fun d e ↦ d.set e.1 e.2) d, log ++ new) ∧
      (∀ p, Covered new p → ∃ r ∈ regions, p ∈ r.pages) ∧
      ((∀ rd ∈ new, rd.Complete) → ∀ r ∈ regions, ∀ p ∈ r.pages, Covered new p) := by
  induction regions generalizing d log with
  | nil =>
    exact ⟨[], by rw [List.append_nil]; rfl, fun p hp ↦ absurd hp not_covered_nil,
      fun _ r hr ↦ absurd hr List.not_mem_nil⟩
  | cons r regions ih =>
    obtain ⟨hr, hregions⟩ := List.forall_mem_cons.1 haligned
    obtain ⟨hrapart, hapart⟩ := List.pairwise_cons.1 hapart
    obtain ⟨new₁, hturn, hin₁, hall₁⟩ :=
      @collectRegion_answered bits answer r hr.1 d log
    obtain ⟨new₂, hloop, hin₂, hall₂⟩ := ih hregions hapart
      ((presentEntries bits r (r.pages.filter fun p ↦ Covered new₁ p)).foldl
        (fun d e ↦ d.set e.1 e.2) d) (log ++ new₁)
    have hfirst : r.pages.filter (fun p ↦ Covered new₁ p) =
        r.pages.filter fun p ↦ Covered (new₁ ++ new₂) p := by
      refine filter_covered_congr fun p hp ↦ ?_
      rw [covered_append]
      refine (or_iff_left fun h₂ ↦ ?_).symm
      obtain ⟨r', hr', hp'⟩ := hin₂ p h₂
      exact (hrapart r' hr').not_mem_pages hr (hregions r' hr') hp hp'
    have hrest : readEntries bits new₂ regions = readEntries bits (new₁ ++ new₂) regions := by
      refine List.flatMap_congr fun r' hr' ↦ ?_
      rw [filter_covered_congr fun p hp' ↦ ?_]
      rw [covered_append]
      refine (or_iff_right fun h₁ ↦ ?_).symm
      exact (hrapart r' hr').not_mem_pages hr (hregions r' hr') (hin₁ p h₁) hp'
    refine ⟨new₁ ++ new₂, ?_, fun p hp ↦ ?_, fun hall ↦ List.forall_mem_cons.2 ⟨fun p hp ↦ ?_,
      fun r' hr' p hp ↦ ?_⟩⟩
    · rw [List.foldl_cons, hturn, hloop, hrest, hfirst, List.append_assoc, readEntries,
        readEntries, List.flatMap_cons, List.foldl_append]
    · obtain h₁ | h₂ := covered_append.1 hp
      · exact ⟨r, List.mem_cons_self, hin₁ p h₁⟩
      · obtain ⟨r', hr', hp'⟩ := hin₂ p h₂
        exact ⟨r', List.mem_cons_of_mem _ hr', hp'⟩
    · exact covered_append.2 (.inl (hall₁ (fun rd h ↦ hall rd (List.mem_append_left _ h)) p hp))
    · exact covered_append.2 (.inr (hall₂ (fun rd h ↦ hall rd (List.mem_append_right _ h))
        r' hr' p hp))

/-- The entries that were read, one by one. -/
theorem mem_readEntries {reads : List Read} {e : ℕ × ℕ × PyStr} :
    e ∈ readEntries bits reads regions ↔ ∃ r p, PresentPage bits regions (r, p) ∧
      Covered reads p ∧ r.entry bits p = e := by
  simp only [readEntries, presentEntries, PresentPage, List.mem_flatMap, List.mem_map,
    List.mem_filter, decide_eq_true_eq]
  constructor
  · rintro ⟨r, hr, p, ⟨⟨hp, hcovered⟩, hpresent⟩, rfl⟩
    exact ⟨r, p, ⟨hr, hp, hpresent⟩, hcovered, rfl⟩
  · rintro ⟨r, p, ⟨hr, hp, hpresent⟩, hcovered, rfl⟩
    exact ⟨r, hr, p, ⟨⟨hp, hcovered⟩, hpresent⟩, rfl⟩

/-- Two pages of the ranges that are the same are pages of the same range. -/
theorem PresentPage.region_unique (haligned : ∀ r ∈ regions, r.Aligned)
    (hapart : regions.Pairwise Region.Apart) (h : PresentPage bits regions (r, p))
    (h' : PresentPage bits regions (r', p)) : r = r' := by
  by_contra hne
  have hsymm : Std.Symm Region.Apart :=
    ⟨fun a b hab x hb hb' ha ha' ↦ hab x ha ha' hb hb'⟩
  exact (hapart.forall h.1 h'.1 hne).not_mem_pages (haligned r h.1) (haligned r' h'.1) h.2.1
    h'.2.1

/-! ### The map -/

/-- The map that the entries are put into. -/
def mapOf (entries : List (ℕ × ℕ × PyStr)) : PfnMeta :=
  entries.foldl (fun d e ↦ d.set e.1 e.2) Dict.empty

/-- The last entry of a PFN stays. -/
theorem get?_mapOf (entries : List (ℕ × ℕ × PyStr)) (pfn : ℕ) :
    (mapOf entries).get? pfn =
      (entries.filter fun e ↦ e.1 = pfn).getLast?.map Prod.snd := by
  rw [mapOf, Dict.get?_foldl_set, Dict.get?_empty, Option.or_none]

theorem mem_keys_mapOf_readEntries {reads : List Read} {pfn : ℕ} :
    pfn ∈ (mapOf (readEntries bits reads regions)).keys ↔
      ∃ r p, PresentPage bits regions (r, p) ∧ Covered reads p ∧
        pfnOf (word 64 bits p) = pfn := by
  rw [mapOf, Dict.mem_keys_foldl_set Prod.fst (fun _ e ↦ e.2)]
  refine (or_iff_right List.not_mem_nil).trans ?_
  simp only [mem_readEntries]
  constructor
  · rintro ⟨_, ⟨r, p, hpage, hcovered, rfl⟩, rfl⟩
    exact ⟨r, p, hpage, hcovered, rfl⟩
  · rintro ⟨r, p, hpage, hcovered, rfl⟩
    exact ⟨_, ⟨r, p, hpage, hcovered, rfl⟩, rfl⟩

/-- **An entry whose PFN no other page has** is in the map, with the address of its page. -/
theorem entry_mem_items {reads : List Read} (haligned : ∀ r ∈ regions, r.Aligned)
    (hapart : regions.Pairwise Region.Apart) (hpage : PresentPage bits regions (r, p))
    (hcovered : Covered reads p)
    (honly : ∀ r' p', PresentPage bits regions (r', p') →
      pfnOf (word 64 bits p') = pfnOf (word 64 bits p) → p' = p) :
    r.entry bits p ∈ (mapOf (readEntries bits reads regions)).items := by
  have hmem : r.entry bits p ∈ (readEntries bits reads regions).filter
      fun e ↦ e.1 = (r.entry bits p).1 :=
    List.mem_filter.2 ⟨mem_readEntries.2 ⟨r, p, hpage, hcovered, rfl⟩, decide_eq_true rfl⟩
  obtain ⟨last, hlast⟩ := Option.ne_none_iff_exists'.1
    (fun hnone ↦ List.ne_nil_of_mem hmem (List.getLast?_eq_none_iff.1 hnone))
  -- the last entry of the PFN is one of the same page
  obtain ⟨hlastmem, hpfn⟩ := List.mem_filter.1 (List.mem_of_getLast? hlast)
  obtain ⟨r', p', hpage', -, rfl⟩ := mem_readEntries.1 hlastmem
  obtain rfl := honly r' p' hpage' (of_decide_eq_true hpfn)
  obtain rfl := hpage'.region_unique haligned hapart hpage
  exact Dict.get?_eq_some.1 ((get?_mapOf _ _).trans (congrArg (Option.map Prod.snd) hlast))

/-- Every item of the map is the entry of a page. -/
theorem exists_entry_of_mem_items {reads : List Read} {item : ℕ × ℕ × PyStr}
    (hitem : item ∈ (mapOf (readEntries bits reads regions)).items) :
    ∃ r p, PresentPage bits regions (r, p) ∧ r.entry bits p = item := by
  obtain ⟨pfn, v⟩ := item
  have hsome := (get?_mapOf _ pfn).symm.trans (Dict.get?_eq_some.2 hitem)
  obtain ⟨e, he, rfl⟩ := Option.map_eq_some_iff.1 hsome
  obtain ⟨hread, hpfn⟩ := List.mem_filter.1 (List.mem_of_getLast? he)
  obtain ⟨r, p, hpage, -, rfl⟩ := mem_readEntries.1 hread
  obtain rfl := of_decide_eq_true hpfn
  exact ⟨r, p, hpage, rfl⟩

/-- **The map holds the PFNs of the entries that were read completely and are present**, each with
the address and the name of the last of them. Where all reads are complete and no PFN occurs twice,
its items are the present pages of the ranges, one for each. -/
theorem collectPresentPfnsFd_spec (bits : ℕ → Bool)
    (answer : List Read → (count offset : ℕ) → Option ℕ) (regions : List Region)
    (haligned : ∀ r ∈ regions, r.Aligned) (hapart : regions.Pairwise Region.Apart) :
    ∃ pfnMap reads, (answeredFile bits answer).collectPresentPfnsFd [] regions = (pfnMap, reads) ∧
      (∀ pfn, pfn ∈ pfnMap.keys ↔ ∃ r p, PresentPage bits regions (r, p) ∧ Covered reads p ∧
        pfnOf (word 64 bits p) = pfn) ∧
      (∀ pfn, pfnMap.get? pfn =
        ((readEntries bits reads regions).filter fun e ↦ e.1 = pfn).getLast?.map Prod.snd) ∧
      ((∀ rd ∈ reads, rd.Complete) →
        (∀ e e', PresentPage bits regions e → PresentPage bits regions e' →
          pfnOf (word 64 bits e.2) = pfnOf (word 64 bits e'.2) → e.2 = e'.2) →
        Set.BijOn (fun e : Region × ℕ ↦ e.1.entry bits e.2) {e | PresentPage bits regions e}
          {item | item ∈ pfnMap.items}) := by
  obtain ⟨reads, hloop, -, hall⟩ :=
    @foldl_collectRegion_answered bits answer regions haligned hapart Dict.empty []
  refine ⟨_, _, hloop, fun pfn ↦ mem_keys_mapOf_readEntries, get?_mapOf _,
    fun hcomplete hdistinct ↦ ⟨?_, ?_, ?_⟩⟩
  · rintro ⟨r, p⟩ hpage
    exact entry_mem_items haligned hapart hpage (hall hcomplete r hpage.1 p hpage.2.1)
      fun r' p' hpage' ↦ hdistinct (r', p') (r, p) hpage' hpage
  · rintro ⟨r, p⟩ hpage ⟨r', p'⟩ hpage' heq
    have haddr : p * pageSize = p' * pageSize := congrArg (fun e : ℕ × ℕ × PyStr ↦ e.2.1) heq
    obtain rfl := Nat.eq_of_mul_eq_mul_right (by decide) haddr
    obtain rfl := hpage.region_unique haligned hapart hpage'
    rfl
  · intro item hitem
    obtain ⟨r, p, hpage, heq⟩ := exists_entry_of_mem_items hitem
    exact ⟨(r, p), hpage, heq⟩

/-- Two pages whose entries are all ones, the read of which ends in the second: only the first is
found. -/
theorem collectPresentPfnsFd_spec_short :
    ∃ pfnMap reads, (answeredFile (fun _ ↦ true) fun _ _ _ ↦ some 15).collectPresentPfnsFd []
        [⟨0x1000, 0x3000, []⟩] = (pfnMap, reads) ∧
      pfnMap.get? (2 ^ 55 - 1) = some (0x1000, []) := by
  obtain ⟨pfnMap, reads, hcollect, -, hget, -⟩ := collectPresentPfnsFd_spec (fun _ ↦ true)
    (fun _ _ _ ↦ some 15) [⟨0x1000, 0x3000, []⟩]
    (List.forall_mem_singleton.2 ⟨by decide, by decide⟩) (List.pairwise_singleton _ _)
  have hreads : reads = [⟨8, 16, some 15⟩] :=
    (congrArg Prod.snd hcollect).symm.trans rfl
  refine ⟨pfnMap, reads, hcollect, (hget _).trans ?_⟩
  rw [hreads]
  decide +kernel

end Ranges

end Pages
