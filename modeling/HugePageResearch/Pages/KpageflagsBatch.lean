import HugePageResearch.Pages.PresentPfns

/-!
# The flags of many page frames

`read_kpageflags_batch` of `data_collection/track_idle_accesses.py`: the PFNs are sorted, and each
run of neighbouring ones is read with one call. A PFN that is listed twice ends a run, so that it
may be read twice; a read may fail or end at any byte.

## The result

`readKpageflagsBatch_spec`: the map holds exactly the listed PFNs whose entry was read completely,
each with the flags that a read of this one entry gives; where all reads are complete these are all
listed PFNs.

As in `Pages/WordRuns.lean` the loop is reduced to the runs of `Library/BitFile.lean`
(`flagsLoop_eq`). Of distinct PFNs, as the dump asks for, it finds what the batch of
`Pages/IdleAccesses.lean` finds, which tells a read by its place
(`exists_readKpageflagsBatch_eq`).
-/

namespace Pages

open BitFile

namespace ByteFile

variable {κ : Type*} (F : ByteFile κ)

/-! ### The loop -/

/-- The loop over what was read of a run. -/
def setFlags (runStart : ℕ) (flagsVals : List (BitVec 64)) (result : Dict ℕ ℕ) : Dict ℕ ℕ :=
  flagsVals.zipIdx.foldl (fun result e ↦ result.set (runStart + e.2) e.1.toNat) result

/-- The outer loop, from index `i` on. -/
def flagsLoop (pfns : List ℕ) (i : ℕ) (s : Dict ℕ ℕ × κ) : Dict ℕ ℕ × κ :=
  if _h : i < pfns.length then
    let runStart := pfns.getD i 0
    let j := runEnd pfns i
    let runLen := j - i + 1
    match F.pread s.2 (runLen * pagemapEntrySize) (runStart * pagemapEntrySize) with
    | (none, fd) => flagsLoop pfns (j + 1) (s.1, fd)
    | (some raw, fd) =>
      let actual := raw.length / pagemapEntrySize
      if actual ≠ 0 then
        let flagsVals := ofBytesMany 64 pagemapEntrySize actual raw
        flagsLoop pfns (j + 1) (setFlags runStart flagsVals s.1, fd)
      else flagsLoop pfns (j + 1) (s.1, fd)
  else s
termination_by pfns.length - i
decreasing_by
  all_goals
    have hle := (runEnd_spec pfns i).1
    omega

/-- `read_kpageflags_batch`. -/
def readKpageflagsBatch (kpfFd : κ) (pfns : List ℕ) : Dict ℕ ℕ × κ :=
  if pfns = [] then (Dict.empty, kpfFd)
  else F.flagsLoop (pfns.insertionSort (· ≤ ·)) 0 (Dict.empty, kpfFd)

/-- One run. -/
def flagsRun (s : Dict ℕ ℕ × κ) (run : List ℕ) : Dict ℕ ℕ × κ :=
  match F.pread s.2 (run.length * pagemapEntrySize) (run.headD 0 * pagemapEntrySize) with
  | (none, fd) => (s.1, fd)
  | (some raw, fd) =>
    (setFlags (run.headD 0) (ofBytesMany 64 pagemapEntrySize (raw.length / pagemapEntrySize) raw)
      s.1, fd)

/-- The run at an index. -/
theorem flagsRun_take {pfns : List ℕ} {i : ℕ} (h : i < pfns.length) (s : Dict ℕ ℕ × κ) :
    F.flagsRun s ((pfns.drop i).take (runEnd pfns i - i + 1)) =
      match F.pread s.2 ((runEnd pfns i - i + 1) * pagemapEntrySize)
        (pfns.getD i 0 * pagemapEntrySize) with
      | (none, fd) => (s.1, fd)
      | (some raw, fd) => (setFlags (pfns.getD i 0)
          (ofBytesMany 64 pagemapEntrySize (raw.length / pagemapEntrySize) raw) s.1, fd) := by
  have hlen : ((pfns.drop i).take (runEnd pfns i - i + 1)).length = runEnd pfns i - i + 1 := by
    have hle := add_run_le h
    rw [List.length_take, List.length_drop]
    omega
  rw [flagsRun, hlen, headD_run]

/-- **The loop goes through the runs**, one read for each. -/
theorem flagsLoop_eq (pfns : List ℕ) (i : ℕ) (s : Dict ℕ ℕ × κ) :
    F.flagsLoop pfns i s = (runs (pfns.drop i)).foldl F.flagsRun s := by
  fun_induction flagsLoop with
  | case1 i s h runStart j runLen fd hread ih =>
    have hrun : F.pread s.2 ((runEnd pfns i - i + 1) * pagemapEntrySize)
        (pfns.getD i 0 * pagemapEntrySize) = (none, fd) := hread
    rw [runs_eq_cons h, List.foldl_cons, flagsRun_take F h, hrun]
    exact ih
  | case2 i s h runStart j runLen raw fd hread actual hactual flagsVals ih =>
    have hrun : F.pread s.2 ((runEnd pfns i - i + 1) * pagemapEntrySize)
        (pfns.getD i 0 * pagemapEntrySize) = (some raw, fd) := hread
    rw [runs_eq_cons h, List.foldl_cons, flagsRun_take F h, hrun]
    exact ih
  | case3 i s h runStart j runLen raw fd hread actual hactual ih =>
    have hrun : F.pread s.2 ((runEnd pfns i - i + 1) * pagemapEntrySize)
        (pfns.getD i 0 * pagemapEntrySize) = (some raw, fd) := hread
    have hzero : raw.length / pagemapEntrySize = 0 := not_not.1 hactual
    rw [runs_eq_cons h, List.foldl_cons, flagsRun_take F h, hrun]
    show _ = (runs _).foldl _ (setFlags _ (ofBytesMany 64 _ (raw.length / pagemapEntrySize) raw)
      s.1, fd)
    rw [hzero]
    exact ih
  | case4 i s h =>
    rw [runs_eq_nil h]
    rfl

/-! ### Reads that do not depend on each other -/

/-- The entries in what was read. -/
def entries (raw : List (BitVec 8)) : List ℕ :=
  (ofBytesMany 64 pagemapEntrySize (raw.length / pagemapEntrySize) raw).map BitVec.toNat

/-- One run, where a read is told by its offset and its length alone. -/
def flagsOfRun (pread : (offset count : ℕ) → Option (List ℕ)) (result : Dict ℕ ℕ)
    (run : List ℕ) : Dict ℕ ℕ :=
  match pread (run.headD 0 * pagemapEntrySize) run.length with
  | none => result
  | some flagsVals =>
    flagsVals.zipIdx.foldl (fun result e ↦ result.set (run.headD 0 + e.2) e.1) result

theorem setFlags_eq (runStart : ℕ) (raw : List (BitVec 8)) (result : Dict ℕ ℕ) :
    setFlags runStart (ofBytesMany 64 pagemapEntrySize (raw.length / pagemapEntrySize) raw) result =
      (entries raw).zipIdx.foldl (fun result e ↦ result.set (runStart + e.2) e.1) result := by
  rw [setFlags, entries, List.zipIdx_map, List.foldl_map]
  rfl

/-- What a run finds, from the answer to its own read. -/
theorem flagsRun_fst {pread : (offset count : ℕ) → Option (List ℕ)} {s : Dict ℕ ℕ × κ}
    {run : List ℕ} (hpread : pread (run.headD 0 * pagemapEntrySize) run.length =
      (F.pread s.2 (run.length * pagemapEntrySize) (run.headD 0 * pagemapEntrySize)).1.map
        entries) : (F.flagsRun s run).1 = flagsOfRun pread s.1 run := by
  rw [flagsOfRun, hpread, flagsRun]
  rcases F.pread s.2 (run.length * pagemapEntrySize) (run.headD 0 * pagemapEntrySize) with
    ⟨- | raw, fd⟩
  · rfl
  · exact setFlags_eq (run.headD 0) raw s.1

/-- **Runs that start apart**: their answers make one function of the offset. -/
theorem exists_foldl_flagsOfRun {rs : List (List ℕ)} (hnd : (rs.map fun run ↦ run.headD 0).Nodup)
    (s : Dict ℕ ℕ × κ) : ∃ pread, (rs.foldl F.flagsRun s).1 = rs.foldl (flagsOfRun pread) s.1 := by
  induction rs generalizing s with
  | nil => exact ⟨fun _ _ ↦ none, rfl⟩
  | cons run rs ih =>
    obtain ⟨hnew, hnd⟩ := List.nodup_cons.1 hnd
    obtain ⟨pread, hrest⟩ := ih hnd (F.flagsRun s run)
    let pread' : (offset count : ℕ) → Option (List ℕ) := fun offset count ↦
      if offset = run.headD 0 * pagemapEntrySize then
        (F.pread s.2 (run.length * pagemapEntrySize) (run.headD 0 * pagemapEntrySize)).1.map entries
      else pread offset count
    have hfirst : (F.flagsRun s run).1 = flagsOfRun pread' s.1 run := F.flagsRun_fst (if_pos rfl)
    refine ⟨pread', ?_⟩
    rw [List.foldl_cons, List.foldl_cons, hrest, hfirst]
    refine List.foldl_ext _ _ _ fun result run' hrun' ↦ ?_
    have hne : run'.headD 0 * pagemapEntrySize ≠ run.headD 0 * pagemapEntrySize := fun h ↦
      hnew (List.mem_map.2 ⟨run', hrun', Nat.eq_of_mul_eq_mul_right (by decide) h⟩)
    have hpread : pread' (run'.headD 0 * pagemapEntrySize) run'.length =
        pread (run'.headD 0 * pagemapEntrySize) run'.length := if_neg hne
    rw [flagsOfRun, flagsOfRun, hpread]

/-- `read_kpageflags_batch` of distinct PFNs is that of entries. -/
theorem exists_readKpageflagsBatch_eq {pfns : List ℕ} (hnd : pfns.Nodup) (kpfFd : κ) :
    ∃ pread, (F.readKpageflagsBatch kpfFd pfns).1 = Pages.readKpageflagsBatch pread pfns := by
  have hheads : ((runs (pfns.insertionSort (· ≤ ·))).map fun run ↦ run.headD 0).Nodup := by
    refine (heads_sublist_flatten fun run hrun ↦ ?_).nodup ?_
    · obtain ⟨i, n, rfl⟩ := mem_runs hrun
      exact List.cons_ne_nil _ _
    · rw [flatten_runs]
      exact (List.perm_insertionSort _ _).nodup_iff.2 hnd
  obtain ⟨pread, hfold⟩ := F.exists_foldl_flagsOfRun hheads (Dict.empty, kpfFd)
  refine ⟨pread, Eq.trans ?_ hfold⟩
  rw [readKpageflagsBatch]
  split_ifs with hnil
  · rw [hnil]
    rfl
  · rw [flagsLoop_eq, List.drop_zero]

end ByteFile

/-! ### What is found -/

section Found

variable {bits : ℕ → Bool} {answer : List Read → (count offset : ℕ) → Option ℕ}

/-- **What a read of one entry gives**: the eight bytes at its place. -/
def entryFlags (bits : ℕ → Bool) (pfn : ℕ) : ℕ :=
  (ofBytes 64 (words 8 bits (pfn * pagemapEntrySize) pagemapEntrySize)).toNat

theorem entryFlags_eq (bits : ℕ → Bool) (pfn : ℕ) :
    entryFlags bits pfn = (word 64 bits pfn).toNat := by
  have hwords := ofBytes_words (b := 8) (n := 8) (w := 64) (by decide) rfl bits pfn
  rw [entryFlags, Nat.mul_comm]
  exact congrArg BitVec.toNat hwords

theorem get?_setFlags (i m : ℕ) (d : Dict ℕ ℕ) (p : ℕ) :
    (ByteFile.setFlags i (words 64 bits i m) d).get? p =
      if i ≤ p ∧ p < i + m then some (entryFlags bits p) else d.get? p := by
  rw [ByteFile.setFlags, zipIdx_words, List.foldl_map]
  induction m with
  | zero => exact (if_neg (by omega)).symm
  | succ m ih =>
    rw [List.range_succ, List.foldl_append, List.foldl_cons, List.foldl_nil, Dict.get?_set, ih]
    by_cases hp : i + m = p
    · subst hp
      rw [if_pos rfl, if_pos (by omega), entryFlags_eq]
    · rw [if_neg hp]
      exact if_congr (by omega) rfl rfl

/-- **One run**: the PFNs whose entry was read get their flags. -/
theorem flagsRun_answered (i n : ℕ) (d : Dict ℕ ℕ) (log : List Read) :
    ∃ d' r, (answeredFile bits answer).flagsRun (d, log) (List.range' i (n + 1)) =
        (d', log ++ [r]) ∧
      (∀ p, d'.get? p = if r.Covers p then some (entryFlags bits p) else d.get? p) ∧
      (∀ p, r.Covers p → p ∈ List.range' i (n + 1)) ∧
      (r.Complete → ∀ p ∈ List.range' i (n + 1), r.Covers p) := by
  obtain ⟨got, hgot, hread⟩ := exists_pread_answeredFile bits answer log i (n + 1)
  have hoffset : i * pagemapEntrySize = 8 * i := Nat.mul_comm i 8
  have hhead : (List.range' i (n + 1)).headD 0 = i := rfl
  have hpread : (answeredFile bits answer).pread log ((n + 1) * pagemapEntrySize) (8 * i) = _ :=
    hread
  rw [ByteFile.flagsRun, hhead, List.length_range', hoffset]
  simp only [hpread]
  rcases got with - | len
  · exact ⟨d, .ofWords i (n + 1) none, rfl, fun p ↦ (if_neg Read.not_covers_ofWords_none).symm,
      fun p ↦ Read.mem_range'_of_covers_ofWords hgot, fun h p ↦ h.covers_ofWords⟩
  · refine ⟨ByteFile.setFlags i (words 64 bits i (len / 8)) d, .ofWords i (n + 1) (some len), ?_,
      fun p ↦ ?_, fun p ↦ Read.mem_range'_of_covers_ofWords hgot, fun h p ↦ h.covers_ofWords⟩
    · rw [← ofBytesMany_read]
      simp only [Option.map_some, length_words]
      rfl
    · rw [get?_setFlags]
      exact if_congr Read.covers_ofWords.symm rfl rfl

/-- **All runs together.** -/
theorem foldl_flagsRun_answered {rs : List (List ℕ)}
    (hrs : ∀ r ∈ rs, ∃ i n, r = List.range' i (n + 1)) (d : Dict ℕ ℕ) (log : List Read) :
    ∃ d' new, rs.foldl (answeredFile bits answer).flagsRun (d, log) = (d', log ++ new) ∧
      (∀ p, d'.get? p = if Covered new p then some (entryFlags bits p) else d.get? p) ∧
      (∀ p, Covered new p → p ∈ rs.flatten) ∧
      ((∀ r ∈ new, r.Complete) → ∀ p ∈ rs.flatten, Covered new p) := by
  induction rs generalizing d log with
  | nil =>
    exact ⟨d, [], by rw [List.append_nil]; rfl, fun p ↦ (if_neg not_covered_nil).symm,
      fun p hp ↦ absurd hp not_covered_nil, fun _ p hp ↦ absurd hp List.not_mem_nil⟩
  | cons run rs ih =>
    obtain ⟨i, n, rfl⟩ := hrs _ List.mem_cons_self
    obtain ⟨d₁, r, hread, hget, hin, hcomplete⟩ :=
      @flagsRun_answered bits answer i n d log
    obtain ⟨d₂, new, hreads, hgets, hins, hcompletes⟩ :=
      ih (fun r hr ↦ hrs r (List.mem_cons_of_mem _ hr)) d₁ (log ++ [r])
    refine ⟨d₂, r :: new, ?_, fun p ↦ ?_, fun p hp ↦ ?_, fun hall p hp ↦ ?_⟩
    · rw [List.foldl_cons, hread, hreads, List.append_assoc]
      rfl
    · rw [hgets, hget]
      by_cases hnew : Covered new p
      · rw [if_pos hnew, if_pos (covered_cons.2 (.inr hnew))]
      · rw [if_neg hnew]
        exact if_congr (covered_cons.trans (or_iff_left hnew)).symm rfl rfl
    · rw [List.flatten_cons, List.mem_append]
      exact (covered_cons.1 hp).imp (hin p) (hins p)
    · rw [List.flatten_cons, List.mem_append] at hp
      obtain ⟨hr, hnew⟩ := List.forall_mem_cons.1 hall
      exact covered_cons.2 (hp.imp (hcomplete hr p) (hcompletes hnew p))

/-- **What is found, whichever reads fail or come short**: the listed PFNs whose entry was read
completely, each with the flags of this entry, and no other; and all listed PFNs where all reads
are complete. -/
theorem readKpageflagsBatch_spec (bits : ℕ → Bool)
    (answer : List Read → (count offset : ℕ) → Option ℕ) (pfns : List ℕ) :
    ∃ result reads, (answeredFile bits answer).readKpageflagsBatch [] pfns = (result, reads) ∧
      (∀ p, result.get? p =
        if p ∈ pfns ∧ Covered reads p then some (entryFlags bits p) else none) ∧
      ((∀ r ∈ reads, r.Complete) → ∀ p, result.get? p =
        if p ∈ pfns then some (entryFlags bits p) else none) ∧
      ∀ p, Covered reads p → p ∈ pfns := by
  rw [ByteFile.readKpageflagsBatch]
  split_ifs with hnil
  · refine ⟨Dict.empty, [], rfl, fun p ↦ ?_, fun _ p ↦ ?_, fun p hp ↦ absurd hp not_covered_nil⟩
    · rw [if_neg fun h ↦ not_covered_nil h.2]
      rfl
    · rw [if_neg (by simp [hnil])]
      rfl
  · obtain ⟨result, reads, hfold, hget, hin, hall⟩ :=
      @foldl_flagsRun_answered bits answer _
        (fun r hr ↦ mem_runs hr : ∀ r ∈ runs (pfns.insertionSort (· ≤ ·)), _) Dict.empty []
    rw [flatten_runs] at hall hin
    have hlisted : ∀ p, Covered reads p → p ∈ pfns := fun p hp ↦
      (List.mem_insertionSort _).1 (hin p hp)
    have hall' : (∀ r ∈ reads, r.Complete) → ∀ p ∈ pfns, Covered reads p := fun h p hp ↦
      hall h p ((List.mem_insertionSort _).2 hp)
    refine ⟨result, reads, ?_, fun p ↦ ?_, fun hcomplete p ↦ ?_, hlisted⟩
    · rw [ByteFile.flagsLoop_eq, List.drop_zero, hfold, List.nil_append]
    · rw [hget]
      exact if_congr (and_iff_right_of_imp (hlisted p)).symm rfl rfl
    · rw [hget]
      exact if_congr ⟨hlisted p, hall' hcomplete p⟩ rfl rfl

end Found

end Pages
