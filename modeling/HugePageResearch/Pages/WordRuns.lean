import HugePageResearch.Library.WordBytes
import HugePageResearch.Pages.Compound

/-!
# Marking and checking idle bits in runs of words

`data_collection/track_idle_accesses.py`: `mark_pfns_idle` and `check_pfns_accessed` sort the words
of the bitmap that they need, and write or read each run of neighbouring words with one system call.
`data_collection/page_access.py` does the same to one word at a time. Here the loops over the sorted
words are as the code has them, and the bitmap is the file of bytes that they read and write.

## The results

* `markPfnsIdle_bits`: both ways of marking set exactly the bits of the listed PFNs, and the loop
  writes each of their words once;
* `mem_checkPfnsAccessed_answered`: whichever reads fail or come short, exactly those PFNs are found
  whose bit is 0 and whose word was read completely.

The loops are reduced to the runs of `Library/BitFile.lean` (`markLoop_eq`, `checkLoop_eq`), bytes
to words by `Library/WordBytes.lean`, so that each function on the file of bytes is the one on words
that the other modules use (`markPfnsIdle_eq`, `checkPfnsAccessed_eq`, `readPageIdle_eq`,
`markIdlePfns_eq`).
-/

namespace Pages

open BitFile

/-! ### Files of bytes -/

/-- The idle bitmap as a file of bytes, with a state `κ`. -/
structure ByteFile (κ : Type*) where
  /-- `os.pread`: `none` is an `OSError`. -/
  pread : κ → (count offset : ℕ) → Option (List (BitVec 8)) × κ
  /-- `os.pwrite`: `false` is an `OSError`. -/
  pwrite : κ → List (BitVec 8) → (offset : ℕ) → Bool × κ
  /-- A read returns no more than what was asked for. -/
  length_pread : ∀ k count offset, ∀ raw ∈ (pread k count offset).1, raw.length ≤ count

namespace ByteFile

variable {κ : Type*} (F : ByteFile κ)

/-! ### The loops -/

/-- The inner loop: the index of the last word of the run that index `j` belongs to. -/
def runEnd (sortedWords : List ℕ) (j : ℕ) : ℕ :=
  if _h : j + 1 < sortedWords.length then
    if sortedWords.getD (j + 1) 0 = sortedWords.getD j 0 + 1 then runEnd sortedWords (j + 1) else j
  else j
termination_by sortedWords.length - j

/-- **What the inner loop finds**: all words up to there follow each other, and the next does
not. -/
theorem runEnd_spec (ws : List ℕ) (j : ℕ) :
    j ≤ runEnd ws j ∧ (j < ws.length → runEnd ws j < ws.length) ∧
      (∀ t, j ≤ t → t < runEnd ws j → ws.getD (t + 1) 0 = ws.getD t 0 + 1) ∧
      (runEnd ws j + 1 < ws.length →
        ws.getD (runEnd ws j + 1) 0 ≠ ws.getD (runEnd ws j) 0 + 1) := by
  fun_induction runEnd ws j with
  | case1 j hlt hnext ih =>
    obtain ⟨hle, hlen, hsucc, hend⟩ := ih
    refine ⟨by omega, fun _ ↦ hlen hlt, fun t hjt ht ↦ ?_, hend⟩
    rcases Nat.eq_or_lt_of_le hjt with rfl | hjt
    · exact hnext
    · exact hsucc t hjt ht
  | case2 j hlt hnext =>
    exact ⟨le_refl j, id, fun t hjt ht ↦ absurd ht (Nat.not_lt.2 hjt), fun _ ↦ hnext⟩
  | case3 j hlt =>
    exact ⟨le_refl j, id, fun t hjt ht ↦ absurd ht (Nat.not_lt.2 hjt), fun h ↦ absurd h hlt⟩

/-- The outer loop of `mark_pfns_idle`, from index `i` on. -/
def markLoop (wordToMask : Dict ℕ (BitVec 64)) (sortedWords : List ℕ) (i : ℕ) (fd : κ) : κ :=
  if _h : i < sortedWords.length then
    let runStart := sortedWords.getD i 0
    let j := runEnd sortedWords i
    let runLen := j - i + 1
    -- one buffer for the whole run, written with one call
    let buf := (List.range runLen).flatMap fun k ↦
      toBytes 8 8 ((wordToMask.get? (sortedWords.getD (i + k) 0)).getD 0#64)
    markLoop wordToMask sortedWords (j + 1) (F.pwrite fd buf (runStart * wordBytes)).2
  else fd
termination_by sortedWords.length - i
decreasing_by
  have hle := (runEnd_spec sortedWords i).1
  omega

/-- `mark_pfns_idle`. -/
def markPfnsIdle (pfns : List ℕ) (fd : κ) : κ :=
  if pfns = [] then fd
  else
    let wordToMask := wordToMask pfns
    F.markLoop wordToMask (wordToMask.keys.insertionSort (· ≤ ·)) 0 fd

/-- The PFNs whose bits are 0 in the words that were read from index `i` of the sorted words on. -/
def clearedFrom (wordToPfns : Dict ℕ (List ℕ)) (sortedWords : List ℕ) (i : ℕ)
    (words : List (BitVec 64)) : List ℕ :=
  words.zipIdx.flatMap fun e ↦
    ((wordToPfns.get? (sortedWords.getD (i + e.2) 0)).getD []).filter fun pfn ↦
      e.1 &&& 1#64 <<< (pfn &&& 63) = 0#64

/-- The outer loop of `check_pfns_accessed`, from index `i` on. -/
def checkLoop (wordToPfns : Dict ℕ (List ℕ)) (sortedWords : List ℕ) (i : ℕ)
    (s : List ℕ × κ) : List ℕ × κ :=
  if _h : i < sortedWords.length then
    let runStart := sortedWords.getD i 0
    let j := runEnd sortedWords i
    let runLen := j - i + 1
    match F.pread s.2 (runLen * wordBytes) (runStart * wordBytes) with
    | (none, fd) => checkLoop wordToPfns sortedWords (j + 1) (s.1, fd)
    | (some raw, fd) =>
      -- a read may come short: only whole words count
      let actual := raw.length / wordBytes
      if actual = 0 then checkLoop wordToPfns sortedWords (j + 1) (s.1, fd)
      else
        let words := ofBytesMany 64 wordBytes actual raw
        checkLoop wordToPfns sortedWords (j + 1)
          (s.1 ++ clearedFrom wordToPfns sortedWords i words, fd)
  else s
termination_by sortedWords.length - i
decreasing_by
  all_goals
    have hle := (runEnd_spec sortedWords i).1
    omega

/-- `check_pfns_accessed`: the set, as a list without repetition. -/
def checkPfnsAccessed (pfns : List ℕ) (fd : κ) : List ℕ × κ :=
  if pfns = [] then ([], fd)
  else
    let wordToPfns := groupPfnsByWord pfns
    let (accessed, fd') := F.checkLoop wordToPfns (wordToPfns.keys.insertionSort (· ≤ ·)) 0 ([], fd)
    (accessed.dedup, fd')

/-- `_read_page_idle`. -/
def readPageIdle (pfn : ℕ) (fd : κ) : Except PageError Bool × κ :=
  let (offset, mask) := idleBitmapOffsetAndMask pfn
  match F.pread fd 8 offset with
  | (none, fd') => (.error .os, fd')
  | (some raw, fd') =>
    if raw.length ≠ 8 then (.error (.shortIdleBitmap pfn), fd')
    else (.ok (decide (ofBytes 64 raw &&& mask ≠ 0#64)), fd')

/-- The loop of `_mark_idle_pfns` that writes. -/
def writeMasks : List (ℕ × BitVec 64) → κ → Except PageError Unit × κ
  | [], fd => (.ok (), fd)
  | (offset, mask) :: entries, fd =>
    match F.pwrite fd (toBytes 8 8 mask) offset with
    | (false, fd') => (.error .os, fd')
    | (true, fd') => writeMasks entries fd'

/-- `_mark_idle_pfns`. -/
def markIdlePfns (pfns : List ℕ) (fd : κ) : Except PageError Unit × κ :=
  F.writeMasks ((groupedMasks pfns).items.insertionSort fun e e' ↦ e.1 ≤ e'.1) fd

/-! ### The loops go through the runs -/

/-- The file as one of words. -/
def words : IdleFile κ where
  read fd offset count :=
    match F.pread fd (count * wordBytes) offset with
    | (none, fd') => (none, fd')
    | (some raw, fd') => (some (ofBytesMany 64 wordBytes (raw.length / wordBytes) raw), fd')
  write fd offset masks := F.pwrite fd (masks.flatMap (toBytes 8 8)) offset

/-- The run at an index, and those after it. -/
theorem runs_eq_cons {ws : List ℕ} {i : ℕ} (h : i < ws.length) :
    runs (ws.drop i) =
      (ws.drop i).take (runEnd ws i - i + 1) :: runs (ws.drop (runEnd ws i + 1)) := by
  obtain ⟨hle, hlen, hsucc, hend⟩ := runEnd_spec ws i
  exact runs_drop hle (hlen h) hsucc hend

theorem runs_eq_nil {ws : List ℕ} {i : ℕ} (h : ¬ i < ws.length) : runs (ws.drop i) = [] := by
  rw [List.drop_eq_nil_of_le (Nat.not_lt.1 h)]
  rfl

/-- The words of a run, by their indices. -/
theorem map_range_getD {ws : List ℕ} {i n : ℕ} (h : i + n ≤ ws.length) :
    (List.range n).map (fun k ↦ ws.getD (i + k) 0) = (ws.drop i).take n := by
  have hlen : ((ws.drop i).take n).length = n := by
    rw [List.length_take, List.length_drop]
    omega
  refine List.ext_getElem (by rw [List.length_map, List.length_range, hlen]) fun k hk _ ↦ ?_
  rw [List.length_map, List.length_range] at hk
  rw [List.getElem_map, List.getElem_range, List.getElem_take, List.getElem_drop,
    List.getD_eq_getElem _ _ (by omega)]

/-- The length of a run. -/
theorem add_run_le {ws : List ℕ} {i : ℕ} (h : i < ws.length) :
    i + (runEnd ws i - i + 1) ≤ ws.length := by
  obtain ⟨hle, hlen, -⟩ := runEnd_spec ws i
  have hlt := hlen h
  omega

theorem headD_run {ws : List ℕ} {i : ℕ} (n : ℕ) :
    ((ws.drop i).take (n + 1)).headD 0 = ws.getD i 0 := by
  rw [List.headD_eq_head?_getD, List.head?_take, if_neg (Nat.succ_ne_zero n), List.head?_drop,
    List.getD_eq_getElem?_getD]

/-- **Marking goes through the runs**, one write for each. -/
theorem markLoop_eq (masks : Dict ℕ (BitVec 64)) (ws : List ℕ) (i : ℕ) (fd : κ) :
    F.markLoop masks ws i fd = (runs (ws.drop i)).foldl (writeRun F.words masks) fd := by
  fun_induction markLoop with
  | case1 i fd h runStart j runLen buf ih =>
    have hbuf : buf = (((ws.drop i).take runLen).map fun wi ↦ (masks.get? wi).getD 0#64).flatMap
        (toBytes 8 8) := by
      rw [← map_range_getD (add_run_le h), List.map_map, List.flatMap_map]
      rfl
    have hrun : writeRun F.words masks fd ((ws.drop i).take runLen) =
        (F.pwrite fd buf (runStart * wordBytes)).2 := by
      rw [hbuf, writeRun, headD_run]
      rfl
    rw [runs_eq_cons h, List.foldl_cons, hrun]
    exact ih
  | case2 i fd h =>
    rw [runs_eq_nil h]
    rfl

/-- The words that were read, next to their indices. -/
theorem clearedFrom_eq (groups : Dict ℕ (List ℕ)) {ws : List ℕ} {i n : ℕ}
    {words : List (BitVec 64)} (h : i + n ≤ ws.length) (hn : words.length ≤ n) :
    clearedFrom groups ws i words = clearedPfns groups ((ws.drop i).take n) words := by
  have hzip : ((ws.drop i).take n).zip words =
      words.zipIdx.map fun e ↦ (ws.getD (i + e.2) 0, e.1) := by
    rw [← map_range_getD h]
    refine List.ext_getElem ?_ fun k hk hk' ↦ ?_
    · simpa using hn
    · simp
  rw [clearedPfns, hzip, List.flatMap_map]
  rfl

/-- The read of a run, with what it returns in bytes. -/
theorem readRun_words (groups : Dict ℕ (List ℕ)) {ws : List ℕ} {i : ℕ} (h : i < ws.length)
    (s : List ℕ × κ) :
    readRun F.words groups s ((ws.drop i).take (runEnd ws i - i + 1)) =
      match F.pread s.2 ((runEnd ws i - i + 1) * wordBytes) (ws.getD i 0 * wordBytes) with
      | (none, fd) => (s.1, fd)
      | (some raw, fd) => (s.1 ++ clearedFrom groups ws i
          (ofBytesMany 64 wordBytes (raw.length / wordBytes) raw), fd) := by
  have hlen : ((ws.drop i).take (runEnd ws i - i + 1)).length = runEnd ws i - i + 1 := by
    have hle := add_run_le h
    rw [List.length_take, List.length_drop]
    omega
  have hshort := F.length_pread s.2 ((runEnd ws i - i + 1) * wordBytes) (ws.getD i 0 * wordBytes)
  rw [readRun, hlen, headD_run]
  simp only [words]
  rcases hread : F.pread s.2 ((runEnd ws i - i + 1) * wordBytes) (ws.getD i 0 * wordBytes) with
    ⟨- | raw, fd⟩
  · rfl
  · rw [hread] at hshort
    have hwords : raw.length / wordBytes ≤ runEnd ws i - i + 1 :=
      Nat.div_le_of_le_mul ((hshort raw rfl).trans_eq (Nat.mul_comm _ _))
    have hcleared : clearedFrom groups ws i
        (ofBytesMany 64 wordBytes (raw.length / wordBytes) raw) = clearedPfns groups
          ((ws.drop i).take (runEnd ws i - i + 1))
          (ofBytesMany 64 wordBytes (raw.length / wordBytes) raw) :=
      clearedFrom_eq groups (add_run_le h) ((length_ofBytesMany _ _ _ _).trans_le hwords)
    show (s.1 ++ clearedPfns _ _ _, fd) = (s.1 ++ clearedFrom _ _ _ _, fd)
    rw [hcleared]

/-- **Checking goes through the runs**, one read for each. -/
theorem checkLoop_eq (groups : Dict ℕ (List ℕ)) (ws : List ℕ) (i : ℕ) (s : List ℕ × κ) :
    F.checkLoop groups ws i s = (runs (ws.drop i)).foldl (readRun F.words groups) s := by
  fun_induction checkLoop with
  | case1 i s h runStart j runLen fd hread ih =>
    have hrun : F.pread s.2 ((runEnd ws i - i + 1) * wordBytes) (ws.getD i 0 * wordBytes) =
        (none, fd) := hread
    rw [runs_eq_cons h, List.foldl_cons, readRun_words F groups h, hrun]
    exact ih
  | case2 i s h runStart j runLen raw fd hread actual hzero ih =>
    have hrun : F.pread s.2 ((runEnd ws i - i + 1) * wordBytes) (ws.getD i 0 * wordBytes) =
        (some raw, fd) := hread
    have hnone : clearedFrom groups ws i
        (ofBytesMany 64 wordBytes (raw.length / wordBytes) raw) = [] := by
      have hlen : raw.length / wordBytes = 0 := hzero
      rw [hlen]
      rfl
    rw [runs_eq_cons h, List.foldl_cons, readRun_words F groups h, hrun]
    show _ = (runs _).foldl _ (s.1 ++ clearedFrom _ _ _ _, fd)
    rw [hnone, List.append_nil]
    exact ih
  | case3 i s h runStart j runLen raw fd hread actual hzero words ih =>
    have hrun : F.pread s.2 ((runEnd ws i - i + 1) * wordBytes) (ws.getD i 0 * wordBytes) =
        (some raw, fd) := hread
    rw [runs_eq_cons h, List.foldl_cons, readRun_words F groups h, hrun]
    exact ih
  | case4 i s h =>
    rw [runs_eq_nil h]
    rfl

/-- `mark_pfns_idle` is that of words. -/
theorem markPfnsIdle_eq (pfns : List ℕ) (fd : κ) :
    F.markPfnsIdle pfns fd = Pages.markPfnsIdle F.words pfns fd := by
  rw [markPfnsIdle, Pages.markPfnsIdle]
  split_ifs with hnil
  · rfl
  · exact F.markLoop_eq _ _ 0 fd

/-- `check_pfns_accessed` is that of words. -/
theorem checkPfnsAccessed_eq (pfns : List ℕ) (fd : κ) :
    F.checkPfnsAccessed pfns fd = Pages.checkPfnsAccessed F.words pfns fd := by
  rw [checkPfnsAccessed, Pages.checkPfnsAccessed]
  split_ifs with hnil
  · rfl
  · simp only [checkLoop_eq]
    rfl

/-- `_read_page_idle` is that of words: a read that is too short has no word. -/
theorem readPageIdle_eq (pfn : ℕ) (fd : κ) :
    F.readPageIdle pfn fd = Pages.readPageIdle F.words pfn fd := by
  have hlength := F.length_pread fd 8 (idleBitmapOffsetAndMask pfn).1
  rw [readPageIdle, Pages.readPageIdle]
  simp only [words, wordBytes, Nat.one_mul]
  rcases hread : F.pread fd 8 (idleBitmapOffsetAndMask pfn).1 with ⟨- | raw, fd'⟩
  · rfl
  · rw [hread] at hlength
    have hle : raw.length ≤ 8 := hlength raw rfl
    by_cases h : raw.length = 8
    · have htake : raw.take 8 = raw := List.take_of_length_le hle
      have hone : ofBytesMany 64 8 (raw.length / 8) raw = [ofBytes 64 raw] := by
        rw [h, ofBytesMany]
        exact congrArg (fun bs ↦ [ofBytes 64 bs]) htake
      simp only [hone]
      exact if_neg (not_not.2 h)
    · have hnone : ofBytesMany 64 8 (raw.length / 8) raw = [] := by
        rw [Nat.div_eq_of_lt (by omega)]
        rfl
      simp only [hnone]
      exact if_pos h

theorem writeMasks_eq (entries : List (ℕ × BitVec 64)) (fd : κ) :
    F.writeMasks entries fd = Pages.writeMasks F.words entries fd := by
  induction entries generalizing fd with
  | nil => rfl
  | cons e entries ih =>
    have hwrite : F.words.write fd e.1 [e.2] = F.pwrite fd (toBytes 8 8 e.2) e.1 :=
      congrArg (fun buf ↦ F.pwrite fd buf e.1) (List.append_nil _)
    rw [writeMasks, Pages.writeMasks, hwrite]
    rcases F.pwrite fd (toBytes 8 8 e.2) e.1 with ⟨- | -, fd'⟩
    · rfl
    · exact ih fd'

/-- `_mark_idle_pfns` is that of words. -/
theorem markIdlePfns_eq (pfns : List ℕ) (fd : κ) :
    F.markIdlePfns pfns fd = Pages.markIdlePfns F.words pfns fd :=
  F.writeMasks_eq _ fd

end ByteFile

/-! ### Marking -/

section Marking

/-- The idle bitmap, with the writes made so far: their offsets and bytes. -/
structure Bitmap where
  bits : ℕ → Bool
  writes : List (ℕ × List (BitVec 8))

/-- A bitmap that every write succeeds on in full: it sets the bits that are 1 in the bytes and
leaves the others. -/
def bitmapFile : ByteFile Bitmap where
  pread b count offset := (some (BitFile.words 8 b.bits offset count), b)
  pwrite b buf offset :=
    (true, ⟨fun p ↦ b.bits p || sets offset buf p, b.writes ++ [(offset, buf)]⟩)
  length_pread b count offset raw h := by
    obtain rfl := Option.some.inj h
    exact (length_words 8 b.bits offset count).le

/-- The words that a write covers. -/
def wordsOf (e : ℕ × List (BitVec 8)) : List ℕ := List.range' (e.1 / 8) (e.2.length / 8)

/-- The write of a run, in words. -/
theorem writeRun_bitmap (masks : Dict ℕ (BitVec 64)) (b : Bitmap) (i n : ℕ) :
    ∃ e, writeRun bitmapFile.words masks b (List.range' i (n + 1)) =
        ⟨writeRun (kernelFile fun _ ↦ true) masks b.bits (List.range' i (n + 1)),
          b.writes ++ [e]⟩ ∧ wordsOf e = List.range' i (n + 1) := by
  have hhead : (List.range' i (n + 1)).headD 0 * wordBytes = 8 * i := by
    rw [List.range'_succ]
    exact Nat.mul_comm i 8
  have hdiv : 8 * i / 8 = i := Nat.mul_div_cancel_left i (by decide)
  have hsets : ∀ ms : List (BitVec 64), (fun p ↦ sets (8 * i) (ms.flatMap (toBytes 8 8)) p) =
      fun p ↦ sets i ms p := fun ms ↦
    funext fun p ↦ sets_toBytes (b := 8) (n := 8) (by decide) (by decide) rfl i ms p
  refine ⟨(8 * i, ((List.range' i (n + 1)).map fun wi ↦ (masks.get? wi).getD 0#64).flatMap
    (toBytes 8 8)), ?_, ?_⟩
  · rw [writeRun, writeRun, hhead]
    show Bitmap.mk (fun p ↦ b.bits p || (fun p ↦ sets (8 * i) _ p) p) _ =
      Bitmap.mk (fun p ↦ b.bits p || (true && sets (8 * i / 8) _ p)) _
    rw [hsets, hdiv]
    rfl
  · have hlen : (((List.range' i (n + 1)).map fun wi ↦ (masks.get? wi).getD 0#64).flatMap
        (toBytes 8 8)).length = 8 * (n + 1) := by
      rw [length_flatMap_toBytes, List.length_map, List.length_range']
    rw [wordsOf, hlen, hdiv, Nat.mul_div_cancel_left _ (by decide)]

/-- **Writing the runs** sets the bits of the masks, and writes each word of the runs once. -/
theorem foldl_writeRun_bitmap (masks : Dict ℕ (BitVec 64)) {rs : List (List ℕ)}
    (hrs : ∀ r ∈ rs, ∃ i n, r = List.range' i (n + 1)) (b : Bitmap) :
    (rs.foldl (writeRun bitmapFile.words masks) b).bits =
        rs.foldl (writeRun (kernelFile fun _ ↦ true) masks) b.bits ∧
      ∃ new, (rs.foldl (writeRun bitmapFile.words masks) b).writes = b.writes ++ new ∧
        new.flatMap wordsOf = rs.flatten := by
  induction rs generalizing b with
  | nil => exact ⟨rfl, [], (List.append_nil _).symm, rfl⟩
  | cons r rs ih =>
    obtain ⟨i, n, rfl⟩ := hrs _ List.mem_cons_self
    obtain ⟨e, hwrite, he⟩ := writeRun_bitmap masks b i n
    obtain ⟨hbits, new, hnew, hwords⟩ := ih (fun r hr ↦ hrs r (List.mem_cons_of_mem _ hr))
      (writeRun bitmapFile.words masks b (List.range' i (n + 1)))
    rw [List.foldl_cons, List.foldl_cons]
    refine ⟨?_, e :: new, ?_, ?_⟩
    · rw [hbits, hwrite]
    · rw [hnew, hwrite, List.append_assoc]
      rfl
    · rw [List.flatMap_cons, he, hwords, List.flatten_cons]

/-- Writing masks word by word. -/
theorem writeMasks_bitmap {entries : List (ℕ × BitVec 64)}
    (h : ∀ e ∈ entries, ∃ i, e.1 = i * 8) (b : Bitmap) :
    ∃ b', bitmapFile.writeMasks entries b = (.ok (), b') ∧ ∀ p, b'.bits p = true ↔
      b.bits p = true ∨ ∃ e ∈ entries, sets (e.1 / 8) [e.2] p = true := by
  induction entries generalizing b with
  | nil => exact ⟨b, rfl, fun p ↦ by simp⟩
  | cons e entries ih =>
    obtain ⟨i, hi⟩ := h e List.mem_cons_self
    have hsets : ∀ p, sets e.1 (toBytes 8 8 e.2) p = sets (e.1 / 8) [e.2] p := fun p ↦ by
      have hone := sets_toBytes (b := 8) (n := 8) (by decide) (by decide) rfl i [e.2] p
      rw [List.flatMap_singleton, Nat.mul_comm] at hone
      rw [hi, Nat.mul_div_cancel _ (by decide), hone]
    obtain ⟨b', hwrite, hbits⟩ := ih (fun e' he' ↦ h e' (List.mem_cons_of_mem _ he'))
      ⟨fun p ↦ b.bits p || sets e.1 (toBytes 8 8 e.2) p, b.writes ++ [(e.1, toBytes 8 8 e.2)]⟩
    refine ⟨b', hwrite, fun p ↦ (hbits p).trans ?_⟩
    show ((b.bits p || sets e.1 (toBytes 8 8 e.2) p) = true ∨ _) ↔ _
    rw [hsets, Bool.or_eq_true, List.exists_mem_cons_iff, or_assoc]

/-- **Both ways of marking set exactly the bits of the listed PFNs**, in addition to those already
set; and the loop over the runs writes the words of the PFNs in ascending order, each once. -/
theorem markPfnsIdle_bits (pfns : List ℕ) (b : Bitmap) :
    (∀ p, (bitmapFile.markPfnsIdle pfns b).bits p = true ↔ b.bits p = true ∨ p ∈ pfns) ∧
    (∃ b', bitmapFile.markIdlePfns pfns b = (.ok (), b') ∧
      ∀ p, b'.bits p = true ↔ b.bits p = true ∨ p ∈ pfns) ∧
    ∃ new, (bitmapFile.markPfnsIdle pfns b).writes = b.writes ++ new ∧
      (new.flatMap wordsOf).Pairwise (· < ·) ∧
      ∀ wi, wi ∈ new.flatMap wordsOf ↔ ∃ p ∈ pfns, p / 64 = wi := by
  refine ⟨fun p ↦ ?_, ?_, ?_⟩
  · have hkernel := markPfnsIdle_kernel (fun _ ↦ true) pfns b.bits p
    rw [eq_self_iff_true, true_and] at hkernel
    rw [← hkernel, ByteFile.markPfnsIdle_eq, Pages.markPfnsIdle, Pages.markPfnsIdle]
    split_ifs with hnil
    · rfl
    · rw [(foldl_writeRun_bitmap (wordToMask pfns) (fun r hr ↦ mem_runs hr) b).1]
  · have halign : ∀ e ∈ (groupedMasks pfns).items.insertionSort fun e e' ↦ e.1 ≤ e'.1,
        ∃ i, e.1 = i * 8 := fun e he ↦
      exists_word_of_mem_groupedMasks ((List.mem_insertionSort _).1 he)
    obtain ⟨b', hwrite, hbits⟩ := writeMasks_bitmap halign b
    refine ⟨b', hwrite, fun p ↦ (hbits p).trans ?_⟩
    simp only [List.mem_insertionSort]
    rw [exists_groupedMasks]
  · rw [ByteFile.markPfnsIdle_eq, Pages.markPfnsIdle]
    split_ifs with hnil
    · exact ⟨[], (List.append_nil _).symm, List.Pairwise.nil, fun wi ↦ by simp [hnil]⟩
    · have hruns : ∀ r ∈ runs ((wordToMask pfns).keys.insertionSort (· ≤ ·)),
          ∃ i n, r = List.range' i (n + 1) := fun r hr ↦ mem_runs hr
      obtain ⟨-, new, hnew, hwords⟩ := foldl_writeRun_bitmap (wordToMask pfns) hruns b
      rw [flatten_runs] at hwords
      refine ⟨new, hnew, ?_, fun wi ↦ ?_⟩
      · have hnd : ((wordToMask pfns).keys.insertionSort (· ≤ ·)).Nodup :=
          (List.perm_insertionSort _ _).nodup_iff.2 (wordToMask pfns).nodupKeys
        rw [hwords]
        exact ((List.pairwise_insertionSort _ _).and hnd).imp fun h ↦
          Nat.lt_of_le_of_ne h.1 h.2
      · rw [hwords, List.mem_insertionSort, wordToMask_eq, mem_keys_groupMasks]
        rfl

end Marking

/-! ### Checking -/

section Checking

/-- A read that was made: how many bytes it asked for, from which offset on, and how many it got. -/
structure Read where
  offset : ℕ
  count : ℕ
  got : Option ℕ

/-- The read is complete. -/
def Read.Complete (r : Read) : Prop := r.got = some r.count

/-- All bytes of a word were read. -/
def Read.Covers (r : Read) (wi : ℕ) : Prop :=
  ∃ n, r.got = some n ∧ r.offset ≤ 8 * wi ∧ 8 * wi + 8 ≤ r.offset + n

theorem Read.covers_iff {offset count n wi : ℕ} :
    Read.Covers ⟨offset, count, some n⟩ wi ↔ offset ≤ 8 * wi ∧ 8 * wi + 8 ≤ offset + n := by
  simp [Read.Covers]

/-- A bitmap whose reads fail or come short in any way, which may depend on the reads before. The
state is the list of the reads made so far. -/
def answeredFile (bits : ℕ → Bool) (answer : List Read → (count offset : ℕ) → Option ℕ) :
    ByteFile (List Read) where
  pread log count offset :=
    let got := (answer log count offset).map (min · count)
    (got.map fun n ↦ BitFile.words 8 bits offset n, log ++ [⟨offset, count, got⟩])
  pwrite log _ _ := (false, log)
  length_pread log count offset raw h := by
    obtain ⟨n, hn, rfl⟩ := Option.map_eq_some_iff.1 h
    obtain ⟨m, -, rfl⟩ := Option.map_eq_some_iff.1 hn
    exact (length_words 8 bits offset _).trans_le (Nat.min_le_right m count)

/-- A read of `n` words, from word `i` on. -/
def Read.ofWords (i n : ℕ) (got : Option ℕ) : Read := ⟨8 * i, n * wordBytes, got⟩

section OfWords

variable {i n len wi : ℕ} {got : Option ℕ}

theorem Read.not_covers_ofWords_none : ¬ (Read.ofWords i n none).Covers wi := by
  rintro ⟨m, hm, -⟩
  exact absurd hm.symm (Option.some_ne_none m)

/-- The words that were read completely are the first ones. -/
theorem Read.covers_ofWords :
    (Read.ofWords i n (some len)).Covers wi ↔ i ≤ wi ∧ wi < i + len / 8 := by
  rw [Read.ofWords, Read.covers_iff]
  omega

theorem Read.Complete.covers_ofWords (h : (Read.ofWords i n got).Complete)
    (hwi : wi ∈ List.range' i n) : (Read.ofWords i n got).Covers wi := by
  obtain rfl : got = some (n * 8) := h
  obtain ⟨hfrom, hto⟩ := List.mem_range'_1.1 hwi
  exact Read.covers_ofWords.2 ⟨hfrom, by omega⟩

theorem Read.mem_range'_of_covers_ofWords (hgot : ∀ len ∈ got, len ≤ n * 8)
    (h : (Read.ofWords i n got).Covers wi) : wi ∈ List.range' i n := by
  rcases got with - | len
  · exact absurd h Read.not_covers_ofWords_none
  · have hle := hgot len rfl
    obtain ⟨hfrom, hto⟩ := Read.covers_ofWords.1 h
    exact List.mem_range'_1.2 ⟨hfrom, by omega⟩

/-- **What a read of words gets**: nothing, or no more bytes than it asked for. -/
theorem exists_pread_answeredFile (bits : ℕ → Bool)
    (answer : List Read → (count offset : ℕ) → Option ℕ) (log : List Read) (i n : ℕ) :
    ∃ got, (∀ len ∈ got, len ≤ n * 8) ∧
      (answeredFile bits answer).pread log (n * wordBytes) (8 * i) =
        (got.map fun len ↦ BitFile.words 8 bits (8 * i) len, log ++ [Read.ofWords i n got]) := by
  refine ⟨_, fun len hlen ↦ ?_, rfl⟩
  obtain ⟨m, -, rfl⟩ := Option.map_eq_some_iff.1 hlen
  exact Nat.min_le_right m _

/-- The words of the bytes that were read. -/
theorem ofBytesMany_read (bits : ℕ → Bool) (i len : ℕ) :
    ofBytesMany 64 wordBytes (len / wordBytes) (BitFile.words 8 bits (8 * i) len) =
      BitFile.words 64 bits i (len / 8) :=
  ofBytesMany_words (by decide) rfl bits i (Nat.mul_div_le len 8)

end OfWords

/-- A bitmap whose reads are complete. -/
def completeFile (bits : ℕ → Bool) : ByteFile (List Read) :=
  answeredFile bits fun _ count _ ↦ some count

/-- What a single read of a PFN tells. -/
theorem readPageIdle_complete (bits : ℕ → Bool) (p : ℕ) (log : List Read) :
    ((completeFile bits).readPageIdle p log).1 = .ok (bits p) := by
  have hread : (completeFile bits).pread log 8 (p / 64 * 8) =
      (some (words 8 bits (8 * (p / 64)) 8), log ++ [⟨p / 64 * 8, 8, some 8⟩]) := by
    rw [Nat.mul_comm 8]
    rfl
  have hbit :
      decide (ofBytes 64 (words 8 bits (8 * (p / 64)) 8) &&& mask 64 p ≠ 0#64) = bits p := by
    rw [ofBytes_words (n := 8) (by decide) rfl]
    exact Bool.eq_iff_iff.2 (decide_eq_true_iff.trans (and_mask_word (by decide) bits p))
  rw [ByteFile.readPageIdle]
  simp only [idleBitmapOffsetAndMask, hread]
  rw [if_neg (not_not.2 (length_words 8 bits _ 8))]
  exact congrArg Except.ok hbit

variable {bits : ℕ → Bool} {answer : List Read → (count offset : ℕ) → Option ℕ} (pfns : List ℕ)

/-- What a read that may be short adds. -/
theorem mem_clearedPfns_short {i n m : ℕ} (hm : m ≤ n) (p : ℕ) :
    p ∈ clearedPfns (groupPfnsByWord pfns) (List.range' i n) (words 64 bits i m) ↔
      p / 64 ∈ List.range' i m ∧ p ∈ pfns ∧ bits p = false := by
  have hsplit : List.range' i n = List.range' i m ++ List.range' (i + m) (n - m) := by
    rw [List.range'_append_1, Nat.add_sub_cancel' hm]
  have hzip : (List.range' i n).zip (words 64 bits i m) =
      (List.range' i m).zip (words 64 bits i m) := by
    rw [hsplit, ← List.append_nil (words 64 bits i m), List.zip_append (by simp),
      List.zip_nil_right, List.append_nil]
    simp
  rw [← mem_clearedPfns, clearedPfns, clearedPfns, hzip]

/-- **One read** adds the PFNs of the words that it covers whose bit is 0. -/
theorem readRun_answered (accessed : List ℕ) (log : List Read) (i n : ℕ) :
    ∃ accessed' r, readRun (answeredFile bits answer).words (groupPfnsByWord pfns) (accessed, log)
        (List.range' i (n + 1)) = (accessed', log ++ [r]) ∧
      (∀ p, p ∈ accessed' ↔ p ∈ accessed ∨ p ∈ pfns ∧ bits p = false ∧ r.Covers (p / 64)) ∧
      (r.Complete → ∀ wi ∈ List.range' i (n + 1), r.Covers wi) := by
  have hhead : (List.range' i (n + 1)).headD 0 * wordBytes = 8 * i := by
    rw [List.range'_succ]
    exact Nat.mul_comm i 8
  obtain ⟨got, hgot, hread⟩ := exists_pread_answeredFile bits answer log i (n + 1)
  rcases got with - | len
  · refine ⟨accessed, .ofWords i (n + 1) none, ?_, fun p ↦ ?_, fun h _ hwi ↦ h.covers_ofWords hwi⟩
    · rw [readRun, hhead, List.length_range']
      simp only [ByteFile.words, hread]
      rfl
    · exact (or_iff_left fun h ↦ Read.not_covers_ofWords_none h.2.2).symm
  · have hle : len / 8 ≤ n + 1 := Nat.div_le_of_le_mul (by rw [Nat.mul_comm]; exact hgot len rfl)
    refine ⟨accessed ++ clearedPfns (groupPfnsByWord pfns) (List.range' i (n + 1))
      (words 64 bits i (len / 8)), .ofWords i (n + 1) (some len), ?_, fun p ↦ ?_,
      fun h _ hwi ↦ h.covers_ofWords hwi⟩
    · rw [readRun, hhead, List.length_range']
      simp only [ByteFile.words, hread, Option.map_some, length_words, ofBytesMany_read]
    · rw [List.mem_append, mem_clearedPfns_short pfns hle, List.mem_range'_1,
        Read.covers_ofWords, and_comm, and_assoc]

/-- **All reads together.** -/
theorem foldl_readRun_answered {rs : List (List ℕ)}
    (hrs : ∀ r ∈ rs, ∃ i n, r = List.range' i (n + 1)) (accessed : List ℕ) (log : List Read) :
    ∃ accessed' new, rs.foldl (readRun (answeredFile bits answer).words (groupPfnsByWord pfns))
        (accessed, log) = (accessed', log ++ new) ∧
      (∀ p, p ∈ accessed' ↔ p ∈ accessed ∨
        p ∈ pfns ∧ bits p = false ∧ ∃ r ∈ new, r.Covers (p / 64)) ∧
      ((∀ r ∈ new, r.Complete) → ∀ wi ∈ rs.flatten, ∃ r ∈ new, r.Covers wi) := by
  induction rs generalizing accessed log with
  | nil => exact ⟨accessed, [], by simp, by simp, by simp⟩
  | cons run rs ih =>
    obtain ⟨i, n, rfl⟩ := hrs _ List.mem_cons_self
    obtain ⟨accessed₁, r, hread, hmem, hcomplete⟩ :=
      @readRun_answered bits answer pfns accessed log i n
    obtain ⟨accessed₂, new, hreads, hmems, hcompletes⟩ :=
      ih (fun r hr ↦ hrs r (List.mem_cons_of_mem _ hr)) accessed₁ (log ++ [r])
    refine ⟨accessed₂, r :: new, ?_, fun p ↦ (hmems p).trans ?_, fun hall wi hwi ↦ ?_⟩
    · rw [List.foldl_cons, hread, hreads, List.append_assoc]
      rfl
    · rw [hmem, or_assoc, ← and_or_left, ← and_or_left, List.exists_mem_cons_iff]
    · rw [List.flatten_cons, List.mem_append] at hwi
      rcases hwi with hwi | hwi
      · exact ⟨r, List.mem_cons_self, hcomplete (hall r List.mem_cons_self) wi hwi⟩
      · obtain ⟨r', hr', hcovers⟩ :=
          hcompletes (fun r' hr' ↦ hall r' (List.mem_cons_of_mem _ hr')) wi hwi
        exact ⟨r', List.mem_cons_of_mem _ hr', hcovers⟩

/-- **What is found, whichever reads fail or come short**: the PFNs that a complete read of their
own finds not idle, as far as their word was read completely; and all of them where all reads are
complete. A PFN whose bit is 1, or that is not in the list, is never found. -/
theorem mem_checkPfnsAccessed_answered (bits : ℕ → Bool)
    (answer : List Read → (count offset : ℕ) → Option ℕ) (pfns : List ℕ) :
    ∃ accessed reads, (answeredFile bits answer).checkPfnsAccessed pfns [] = (accessed, reads) ∧
      (∀ p, p ∈ accessed ↔ p ∈ pfns ∧ ((completeFile bits).readPageIdle p []).1 = .ok false ∧
        ∃ r ∈ reads, r.Covers (p / 64)) ∧
      ((∀ r ∈ reads, r.Complete) → ∀ p, p ∈ accessed ↔
        p ∈ pfns ∧ ((completeFile bits).readPageIdle p []).1 = .ok false) ∧
      ∀ p ∈ accessed, p ∈ pfns ∧ bits p = false := by
  have hread : ∀ p, ((completeFile bits).readPageIdle p []).1 = .ok false ↔ bits p = false :=
    fun p ↦ by rw [readPageIdle_complete, Except.ok.injEq]
  simp only [hread]
  rw [ByteFile.checkPfnsAccessed_eq, Pages.checkPfnsAccessed]
  split_ifs with hnil
  · exact ⟨[], [], rfl, by simp [hnil], by simp [hnil], by simp⟩
  · have hruns : ∀ r ∈ runs ((groupPfnsByWord pfns).keys.insertionSort (· ≤ ·)),
        ∃ i n, r = List.range' i (n + 1) := fun r hr ↦ mem_runs hr
    obtain ⟨accessed, reads, hfold, hmem, hcomplete⟩ :=
      @foldl_readRun_answered bits answer pfns _ hruns [] []
    have hfound : ∀ p, p ∈ accessed.dedup ↔
        p ∈ pfns ∧ bits p = false ∧ ∃ r ∈ reads, r.Covers (p / 64) := fun p ↦ by
      rw [List.mem_dedup, hmem]
      exact or_iff_right List.not_mem_nil
    refine ⟨accessed.dedup, reads, ?_, hfound, fun hall p ↦ ?_, fun p hp ↦ ?_⟩
    · simp only [hfold]
      rfl
    · rw [hfound]
      refine and_congr_right fun hp ↦ and_iff_left (hcomplete hall _ ?_)
      rw [flatten_runs, List.mem_insertionSort, mem_keys_groupPfnsByWord]
      exact ⟨p, hp, rfl⟩
    · obtain ⟨hp, hz, -⟩ := (hfound p).1 hp
      exact ⟨hp, hz⟩

end Checking

end Pages
