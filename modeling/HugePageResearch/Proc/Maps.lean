import HugePageResearch.Library.Lists
import HugePageResearch.Thp.ProcSmaps
import Mathlib.Data.List.ReduceOption

/-!
# Rows of `/proc/<pid>/maps`

`proc_maps_hook.py` keeps one row per mapping of the process; `get_vma_ranges` of
`track_idle_accesses.py` reads the same text for the ranges and names of the regions to walk.

## The result

A path is printed as it is, and the last one of the line. `poll_mapsText_iff`: the hook appends
exactly the rows of the mappings, and raises nothing, where every path is free of what
`str.splitlines` breaks at and has no white space at its ends. For one direction, what the hook
appends never has another path (`plain_of_pollLines`). On such a text `get_vma_ranges` finds the
same regions, of a path its last word (`getVmaRanges_mapsText`), so that the names agree where no
path has two words (`getVmaRanges_eq_rows_iff`).
-/

namespace Proc

open Lists Thp

/-! ### The code -/

/-- `ProcMapsData`. -/
structure ProcMapsData where
  pid : ℤ
  tgid : ℤ
  tsUptimeUs : ℤ
  startAddr : ℤ
  endAddr : ℤ
  sizeKb : ℤ
  perms : PyStr
  offset : ℤ
  dev : PyStr
  inode : ℤ
  pathname : PyStr
  deriving DecidableEq

/-- The hook: `pid_regex` is what its search finds. -/
structure ProcMapsHook where
  targetPid : Option ℤ
  pidRegex : PyStr → Bool
  samples : List ProcMapsData

/-- The row of the parts of a line. -/
def mapsRow (pid tsUptimeUs : ℤ) (h : SmapsHeader) : ProcMapsData where
  pid := pid
  tgid := pid
  tsUptimeUs := tsUptimeUs
  startAddr := h.startAddr
  endAddr := h.endAddr
  sizeKb := (h.endAddr - h.startAddr) / 1024
  perms := h.perms
  offset := h.offset
  dev := h.dev
  inode := h.inode
  pathname := h.pathname

section Code

variable [Python]

/-- `_find_target_pid`, which looks as the other hook does. -/
def ProcMapsHook.findTargetPid (hook : ProcMapsHook) (proc : List (PyStr × Option PyStr)) :
    Except ParseError (Option ℤ) :=
  ProcSmapsHook.findTargetPid ⟨hook.targetPid, hook.pidRegex, []⟩ proc

/-- `_parse_maps_line`: the parts of a line are those of a region's header. -/
def parseMapsLine (pid tsUptimeUs : ℤ) (line : PyStr) : Except ParseError (Option ProcMapsData) :=
  (parseHeader line).map fun h ↦ h.map (mapsRow pid tsUptimeUs)

/-- `for line in raw.splitlines()`: the samples, and what a line raises. -/
def pollLines (pid tsUptimeUs : ℤ) :
    List ProcMapsData → List PyStr → List ProcMapsData × Option ParseError
  | samples, [] => (samples, none)
  | samples, line :: lines =>
    match parseMapsLine pid tsUptimeUs line with
    | .error e => (samples, some e)
    | .ok none => pollLines pid tsUptimeUs samples lines
    | .ok (some entry) => pollLines pid tsUptimeUs (samples ++ [entry]) lines

/-- The process to read, which is looked for once. -/
def ProcMapsHook.target (hook : ProcMapsHook) (proc : List (PyStr × Option PyStr)) :
    Except ParseError (Option ℤ) :=
  match hook.targetPid with
  | some pid => .ok (some pid)
  | none => hook.findTargetPid proc

/-- `poll`: the hook after it, and what it raised. There is no text where the file cannot be
read. -/
def ProcMapsHook.poll (hook : ProcMapsHook) (proc : List (PyStr × Option PyStr))
    (raw : Option PyStr) (tsUptimeUs : ℤ) : ProcMapsHook × Option PollError :=
  match hook.target proc with
  | .error e => (hook, some (.parseError e))
  | .ok none => (hook, some .runtimeError)
  | .ok (some pid) =>
    match raw with
    | none => ({ hook with targetPid := some pid }, none)
    | some raw =>
      let read := pollLines pid tsUptimeUs hook.samples (PyStr.splitlines raw)
      ({ hook with targetPid := some pid, samples := read.1 }, read.2.map .parseError)

/-- One line of `get_vma_ranges`: the region, unless the line has none or it is skipped. -/
def vmaRange (line : PyStr) : Except ParseError (Option (ℤ × ℤ × PyStr)) :=
  match PyStr.split line with
  | [] => .ok none
  | addrRange :: rest =>
    let name := if rest.length + 1 ≥ 6 then rest.getLastD [] else []
    if "[vsyscall]".toList <:+: name then .ok none
    else
      match addrRange.splitOn '-' with
      | [startHex, endHex] => do
        let start ← parseInt 16 startHex
        let stop ← parseInt 16 endHex
        return some (start, stop, name)
      | _ => .error .valueError

/-- `get_vma_ranges`, of the text of the file. -/
def getVmaRanges (raw : PyStr) : Except ParseError (List (ℤ × ℤ × PyStr)) :=
  ((PyStr.splitlines raw).mapM vmaRange).map List.reduceOption

end Code

/-! ### What the kernel prints -/

/-- **A mapping** as the kernel prints it; a path can hold any characters. -/
structure Mapping where
  start : ℕ
  stop : ℕ
  start_lt_stop : start < stop
  perms : PyStr
  isWord_perms : IsWord perms
  offset : ℕ
  dev : PyStr
  isWord_dev : IsWord dev
  inode : ℕ
  /-- The blanks after the inode. -/
  pad : ℕ
  pathname : PyStr
  pad_pos : pathname ≠ [] → 0 < pad

/-- A path on one line, without white space at its ends. -/
structure Plain (pathname : PyStr) : Prop where
  oneLine : ∀ c ∈ pathname, PyStr.isLineBreak c = false
  stripped : PyStr.strip pathname = pathname

namespace Mapping

variable (m : Mapping)

/-- `start-end perms offset dev inode [pathname]`. -/
def line : PyStr :=
  (hexEight m.start ++ '-' :: hexEight m.stop) ++ ' ' :: (m.perms ++ ' ' :: (hexEight m.offset ++
    ' ' :: (m.dev ++ ' ' :: (Nat.toDigits 10 m.inode ++
      (List.replicate m.pad ' ' ++ m.pathname)))))

/-- The row of a mapping. -/
def row (pid tsUptimeUs : ℤ) : ProcMapsData where
  pid := pid
  tgid := pid
  tsUptimeUs := tsUptimeUs
  startAddr := m.start
  endAddr := m.stop
  sizeKb := ((m.stop - m.start) / 1024 : ℕ)
  perms := m.perms
  offset := m.offset
  dev := m.dev
  inode := m.inode
  pathname := m.pathname

/-- The last word of the path. -/
def lastWord : PyStr := (PyStr.split m.pathname).getLastD []

/-- The region of a mapping, with the last word of its path. -/
def range : ℤ × ℤ × PyStr := (m.start, m.stop, m.lastWord)

/-- The mapping as a region without counters. -/
def toVma (h : Plain m.pathname) : Vma :=
  { m with oneLine := h.oneLine, stripped := h.stripped, lines := [], distinct := List.nodup_nil }

end Mapping

/-- The text of `/proc/<pid>/maps`. -/
def mapsText (ms : List Mapping) : PyStr := (ms.map Mapping.line).flatMap (· ++ ['\n'])

/-! ### The rows of the hook -/

section Rows

variable [Python] {pid tsUptimeUs : ℤ} {samples : List ProcMapsData}

/-- **A line is read back**, where its path is plain. -/
theorem parseMapsLine_line (m : Mapping) (h : Plain m.pathname) :
    parseMapsLine pid tsUptimeUs m.line = .ok (some (m.row pid tsUptimeUs)) := by
  have hheader : parseHeader m.line = .ok (some (m.toVma h).smapsHeader) :=
    (m.toVma h).parseHeader_header
  have hsize : ((m.stop : ℤ) - m.start) / 1024 = ((m.stop - m.start) / 1024 : ℕ) := by
    have hlt := m.start_lt_stop
    omega
  rw [parseMapsLine, hheader]
  show Except.ok (some (ProcMapsData.mk _ _ _ _ _ (((m.stop : ℤ) - m.start) / 1024) _ _ _ _ _)) = _
  rw [hsize]
  rfl

theorem pollLines_cons_of_some {line : PyStr} {lines : List PyStr} {entry : ProcMapsData}
    (h : parseMapsLine pid tsUptimeUs line = .ok (some entry)) :
    pollLines pid tsUptimeUs samples (line :: lines) =
      pollLines pid tsUptimeUs (samples ++ [entry]) lines := by
  rw [pollLines, h]

/-- **The lines of plain mappings** are read back. -/
theorem pollLines_map_line {ms : List Mapping} (h : ∀ m ∈ ms, Plain m.pathname) :
    pollLines pid tsUptimeUs samples (ms.map Mapping.line) =
      (samples ++ ms.map (Mapping.row · pid tsUptimeUs), none) := by
  induction ms generalizing samples with
  | nil => rw [List.map_nil, List.map_nil, List.append_nil, pollLines]
  | cons m ms ih =>
    obtain ⟨hm, hms⟩ := List.forall_mem_cons.1 h
    rw [List.map_cons, pollLines_cons_of_some (parseMapsLine_line m hm), ih hms, List.append_assoc]
    rfl

omit [Python] in
theorem plain_nil : Plain [] := ⟨fun _ hc ↦ absurd hc List.not_mem_nil, rfl⟩

omit [Python] in
/-- What is stripped of a part of a line is plain. -/
theorem plain_strip {line part : PyStr} (hline : ∀ c ∈ line, PyStr.isLineBreak c = false)
    (hpart : part ∈ PyStr.splitMax 5 line) : Plain (PyStr.strip part) :=
  ⟨fun c hc ↦ hline c (PyStr.mem_of_mem_splitMax hpart (PyStr.mem_of_mem_strip hc)),
    PyStr.strip_strip part⟩

/-- The path of a header is stripped of a part of the line. -/
theorem plain_of_parseHeader {line : PyStr} {header : SmapsHeader}
    (hline : ∀ c ∈ line, PyStr.isLineBreak c = false)
    (h : parseHeader line = .ok (some header)) : Plain header.pathname := by
  rw [parseHeader] at h
  rcases hparts : PyStr.splitMax 5 line with - | ⟨addrRange, - | ⟨perms, - | ⟨offset, - |
    ⟨dev, - | ⟨inode, rest⟩⟩⟩⟩⟩
  all_goals rw [hparts] at h
  all_goals try cases h
  rcases haddr : addrRange.splitOn '-' with - | ⟨startRaw, - | ⟨endRaw, - | ⟨extra, more⟩⟩⟩
  all_goals dsimp only at h
  all_goals rw [haddr] at h
  all_goals try cases h
  obtain ⟨start, -, h⟩ := exists_of_bind_eq_ok h
  obtain ⟨stop, -, h⟩ := exists_of_bind_eq_ok h
  obtain ⟨off, -, h⟩ := exists_of_bind_eq_ok h
  obtain ⟨ino, -, h⟩ := exists_of_bind_eq_ok h
  obtain rfl := Option.some.inj (Except.ok.inj h)
  cases rest with
  | nil => exact plain_nil
  | cons part rest =>
    refine plain_strip hline (hparts ▸ ?_)
    simp only [List.mem_cons, true_or, or_true]

/-- What a line without line breaks gives has a plain path. -/
theorem plain_of_parseMapsLine {line : PyStr} {entry : ProcMapsData}
    (hline : ∀ c ∈ line, PyStr.isLineBreak c = false)
    (h : parseMapsLine pid tsUptimeUs line = .ok (some entry)) : Plain entry.pathname := by
  rw [parseMapsLine] at h
  rcases hheader : parseHeader line with e | - | header
  all_goals rw [hheader] at h
  · cases h
  · cases h
  · obtain rfl := Option.some.inj (Except.ok.inj h)
    exact plain_of_parseHeader hline hheader

/-- **What the hook appends has plain paths.** -/
theorem plain_of_pollLines {lines : List PyStr}
    (h : ∀ line ∈ lines, ∀ c ∈ line, PyStr.isLineBreak c = false) :
    ∃ new, (pollLines pid tsUptimeUs samples lines).1 = samples ++ new ∧
      ∀ entry ∈ new, Plain entry.pathname := by
  induction lines generalizing samples with
  | nil => exact ⟨[], (List.append_nil _).symm, fun _ h ↦ absurd h List.not_mem_nil⟩
  | cons line lines ih =>
    obtain ⟨hline, hlines⟩ := List.forall_mem_cons.1 h
    rw [pollLines]
    rcases hparse : parseMapsLine pid tsUptimeUs line with e | - | entry
    · exact ⟨[], (List.append_nil _).symm, fun _ h ↦ absurd h List.not_mem_nil⟩
    · exact ih hlines
    · obtain ⟨new, hnew, hplain⟩ := @ih (samples ++ [entry]) hlines
      have hentry : Plain entry.pathname := plain_of_parseMapsLine hline hparse
      refine ⟨entry :: new, ?_, List.forall_mem_cons.2 ⟨hentry, hplain⟩⟩
      show (pollLines pid tsUptimeUs (samples ++ [entry]) lines).1 = _
      rw [hnew, List.append_assoc]
      rfl

omit [Python] in
/-- A mapping whose path has no line break has one line. -/
theorem isLineBreak_line (m : Mapping) (h : ∀ c ∈ m.pathname, PyStr.isLineBreak c = false) :
    ∀ c ∈ m.line, PyStr.isLineBreak c = false := by
  -- the rest of the line is that of a mapping without a path
  let bare : Mapping := { m with pathname := [], pad_pos := fun hne ↦ absurd rfl hne }
  have hline : m.line = bare.line ++ m.pathname := by
    simp only [bare, Mapping.line, List.append_nil, List.append_assoc, List.cons_append]
  rw [hline]
  exact List.forall_mem_append.2 ⟨(bare.toVma plain_nil).isLineBreak_header, h⟩

omit [Python] in
/-- The lines of a table. -/
theorem splitlines_mapsText {ms : List Mapping}
    (h : ∀ m ∈ ms, ∀ c ∈ m.pathname, PyStr.isLineBreak c = false) :
    PyStr.splitlines (mapsText ms) = ms.map Mapping.line :=
  PyStr.splitlines_flatMap (List.forall_mem_map.2 fun m hm ↦ isLineBreak_line m (h m hm))

/-- **A table of plain paths** is recorded. -/
theorem poll_of_plain {hook : ProcMapsHook} {proc : List (PyStr × Option PyStr)}
    (htarget : hook.target proc = .ok (some pid)) {ms : List Mapping}
    (h : ∀ m ∈ ms, Plain m.pathname) :
    hook.poll proc (some (mapsText ms)) tsUptimeUs =
      ({ hook with
          targetPid := some pid
          samples := hook.samples ++ ms.map (Mapping.row · pid tsUptimeUs) }, none) := by
  rw [ProcMapsHook.poll, htarget]
  show ({ hook with targetPid := some pid, samples := (pollLines _ _ _ _).1 },
    (pollLines _ _ _ _).2.map PollError.parseError) = _
  rw [splitlines_mapsText fun m hm ↦ (h m hm).oneLine, pollLines_map_line h]
  rfl

/-- **The hook records the mappings**, all and as they are, exactly where every path is plain. -/
theorem poll_mapsText_iff {hook : ProcMapsHook} {proc : List (PyStr × Option PyStr)}
    (htarget : hook.target proc = .ok (some pid)) (ms : List Mapping) :
    hook.poll proc (some (mapsText ms)) tsUptimeUs =
        ({ hook with
            targetPid := some pid
            samples := hook.samples ++ ms.map (Mapping.row · pid tsUptimeUs) }, none) ↔
      ∀ m ∈ ms, Plain m.pathname := by
  constructor
  · intro hpoll m hm
    obtain ⟨new, hnew, hplain⟩ : ∃ new, (pollLines pid tsUptimeUs hook.samples
        (PyStr.splitlines (mapsText ms))).1 = hook.samples ++ new ∧
          ∀ entry ∈ new, Plain entry.pathname :=
      plain_of_pollLines fun _ hline ↦ PyStr.isLineBreak_of_mem_splitlines hline
    rw [ProcMapsHook.poll, htarget] at hpoll
    have hsamples : (pollLines pid tsUptimeUs hook.samples (PyStr.splitlines (mapsText ms))).1 =
        hook.samples ++ ms.map (Mapping.row · pid tsUptimeUs) :=
      congrArg (fun r : ProcMapsHook × Option PollError ↦ r.1.samples) hpoll
    obtain rfl := List.append_cancel_left (hnew.symm.trans hsamples)
    exact hplain _ (List.mem_map_of_mem (f := (Mapping.row · pid tsUptimeUs)) hm)
  · exact poll_of_plain htarget

/-- The mapping of a region. -/
def Mapping.ofVma (v : Vma) : Mapping := { v with }

/-- A heap, and a file whose name ends with a blank. -/
def heapAndFile : List Mapping :=
  [.ofVma heapRegion,
    { Mapping.ofVma fileRegion with
      pathname := "/tmp/a ".toList
      pad_pos := fun _ ↦ Nat.one_pos }]

omit [Python] in
theorem poll_mapsText_iff_heapAndFile :
    @ProcMapsHook.poll Python.ascii ⟨some 7, fun _ ↦ false, []⟩ [] (some (mapsText heapAndFile)) 5 =
        (⟨some 7, fun _ ↦ false, [] ++ heapAndFile.map (Mapping.row · 7 5)⟩, none) ↔
      ∀ m ∈ heapAndFile, Plain m.pathname :=
  @poll_mapsText_iff Python.ascii 7 5 ⟨some 7, fun _ ↦ false, []⟩ [] rfl heapAndFile

end Rows

/-! ### The regions of the other reader -/

section Ranges

/-- A reader of the ranges skips the mapping. -/
def Mapping.Skipped (m : Mapping) : Prop := "[vsyscall]".toList <:+: m.lastWord

instance (m : Mapping) : Decidable m.Skipped := inferInstanceAs (Decidable (_ <:+: _))

/-- A path without white space is its only word. -/
theorem lastWord_eq (m : Mapping) (h : ∀ c ∈ m.pathname, PyStr.isSpace c = false) :
    m.lastWord = m.pathname := by
  rw [Mapping.lastWord]
  rcases eq_or_ne m.pathname [] with hpath | hpath
  · rw [hpath]
    rfl
  · rw [PyStr.split_word hpath h]
    rfl

/-- **The last word stands in the path**, and has no white space. -/
theorem word_lastWord (m : Mapping) :
    m.lastWord <:+: m.pathname ∧ ∀ c ∈ m.lastWord, PyStr.isSpace c = false := by
  rw [Mapping.lastWord, List.getLastD_eq_getLast?]
  rcases hlast : (PyStr.split m.pathname).getLast? with - | w
  · exact ⟨List.nil_infix, fun _ hc ↦ absurd hc List.not_mem_nil⟩
  · exact PyStr.word_of_mem_split (List.mem_of_getLast? hlast)

/-- The words of a line. -/
theorem split_line (m : Mapping) : PyStr.split m.line =
    (hexEight m.start ++ '-' :: hexEight m.stop) :: m.perms :: hexEight m.offset :: m.dev ::
      Nat.toDigits 10 m.inode :: PyStr.split m.pathname := by
  have hblank : PyStr.isSpace ' ' = true := rfl
  have hword {s : PyStr} (hs : IsWord s) (t : PyStr) :
      PyStr.split (s ++ ' ' :: t) = s :: PyStr.split t :=
    PyStr.split_word_append hs.ne_nil hs.isSpace hblank t
  have haddr : IsWord (hexEight m.start ++ '-' :: hexEight m.stop) := by
    refine ⟨List.append_ne_nil_of_right_ne_nil _ (List.cons_ne_nil _ _), ?_⟩
    exact List.forall_mem_append.2 ⟨(isWord_hexEight _).isSpace,
      List.forall_mem_cons.2 ⟨by decide, (isWord_hexEight _).isSpace⟩⟩
  have hinode : PyStr.split (Nat.toDigits 10 m.inode ++ (List.replicate m.pad ' ' ++ m.pathname)) =
      Nat.toDigits 10 m.inode :: PyStr.split m.pathname := by
    rcases hpad : m.pad with - | k
    · have hpath : m.pathname = [] := by
        by_contra hne
        exact absurd (m.pad_pos hne) (by omega)
      rw [hpath, List.replicate_zero, List.append_nil, List.append_nil,
        PyStr.split_word (isWord_toDigits _).ne_nil (isWord_toDigits _).isSpace]
      rfl
    · rw [List.replicate_succ, List.cons_append, hword (isWord_toDigits _),
        PyStr.split_space_append (PyStr.isSpace_replicate k)]
  rw [Mapping.line, hword haddr, hword m.isWord_perms, hword (isWord_hexEight _),
    hword m.isWord_dev, hinode]

variable [Python]

/-- **The region of a line.** -/
theorem vmaRange_line (m : Mapping) :
    vmaRange m.line = .ok (if m.Skipped then none else some m.range) := by
  have hname : (if (PyStr.split m.pathname).length + 5 ≥ 6 then
      (m.perms :: hexEight m.offset :: m.dev :: Nat.toDigits 10 m.inode ::
        PyStr.split m.pathname).getLastD [] else []) = m.lastWord := by
    rw [Mapping.lastWord]
    rcases PyStr.split m.pathname with - | ⟨w, ws⟩
    · rfl
    · rw [if_pos (by rw [List.length_cons]; omega)]
      rfl
  have haddr : (hexEight m.start ++ '-' :: hexEight m.stop).splitOn '-' =
      [hexEight m.start, hexEight m.stop] := by
    rw [List.splitOn_append_cons_self_of_not_mem (no_hyphen_hexEight _),
      List.splitOn_eq_singleton (no_hyphen_hexEight _)]
  rw [vmaRange, split_line]
  simp only [List.length_cons]
  rw [hname]
  by_cases hskip : m.Skipped
  · rw [if_pos hskip]
    exact if_pos hskip
  · rw [if_neg hskip]
    refine (if_neg hskip).trans ?_
    rw [haddr]
    simp only [parseInt_hexEight]
    rfl

omit [Python] in
theorem reduceOption_map_ite (ms : List Mapping) :
    (ms.map fun m ↦ if m.Skipped then none else some m.range).reduceOption =
      (ms.filter fun m ↦ ¬ m.Skipped).map Mapping.range := by
  induction ms with
  | nil => rfl
  | cons m ms ih =>
    rw [List.map_cons]
    by_cases hskip : m.Skipped
    · rw [if_pos hskip, List.reduceOption_cons_of_none, ih,
        List.filter_cons_of_neg (by simpa using hskip)]
    · rw [if_neg hskip, List.reduceOption_cons_of_some, ih,
        List.filter_cons_of_pos (by simpa using hskip), List.map_cons]

theorem mapM_vmaRange (ms : List Mapping) : (ms.map Mapping.line).mapM vmaRange =
    .ok (ms.map fun m ↦ if m.Skipped then none else some m.range) := by
  induction ms with
  | nil => rfl
  | cons m ms ih =>
    rw [List.map_cons, List.mapM_cons, vmaRange_line, ih]
    rfl

/-- **The regions of a table** whose paths have no line break: of each mapping that is not skipped,
the range and the last word of the path. -/
theorem getVmaRanges_mapsText {ms : List Mapping}
    (h : ∀ m ∈ ms, ∀ c ∈ m.pathname, PyStr.isLineBreak c = false) :
    getVmaRanges (mapsText ms) = .ok ((ms.filter fun m ↦ ¬ m.Skipped).map Mapping.range) := by
  rw [getVmaRanges, splitlines_mapsText h, mapM_vmaRange]
  exact congrArg Except.ok (reduceOption_map_ite ms)

/-- The ranges and paths of rows, without those of `[vsyscall]`. -/
def rangesOf (rows : List ProcMapsData) : List (ℤ × ℤ × PyStr) :=
  (rows.filter fun r ↦ ¬ "[vsyscall]".toList <:+: r.pathname).map fun r ↦
    (r.startAddr, r.endAddr, r.pathname)

/-- The regions are those of the mappings' rows exactly where each path that `get_vma_ranges` does
not skip is one word or empty. -/
theorem getVmaRanges_rangesOf_iff {ms : List Mapping} (pid tsUptimeUs : ℤ)
    (hdistinct : (ms.map Mapping.start).Nodup) (h : ∀ m ∈ ms, Plain m.pathname) :
    getVmaRanges (mapsText ms) = .ok (rangesOf (ms.map (Mapping.row · pid tsUptimeUs))) ↔
      ∀ m ∈ ms, m.Skipped ∨ ∀ c ∈ m.pathname, PyStr.isSpace c = false := by
  rw [rangesOf]
  rw [getVmaRanges_mapsText fun m hm ↦ (h m hm).oneLine, List.filter_map, List.map_map]
  constructor
  · intro heq m hm
    by_contra hnot
    obtain ⟨hskip, hspace⟩ := not_or.1 hnot
    have hmem : m.range ∈ (ms.filter fun m ↦ ¬ m.Skipped).map Mapping.range :=
      List.mem_map_of_mem (List.mem_filter.2 ⟨hm, decide_eq_true hskip⟩)
    rw [Except.ok.inj heq] at hmem
    obtain ⟨m', hm', hrange⟩ := List.mem_map.1 hmem
    obtain ⟨hstart, -, hname⟩ : (m'.start : ℤ) = m.start ∧ (m'.stop : ℤ) = m.stop ∧
        m'.pathname = m.lastWord :=
      ⟨congrArg Prod.fst hrange, congrArg (fun r ↦ r.2.1) hrange, congrArg (fun r ↦ r.2.2) hrange⟩
    obtain rfl : m' = m := List.inj_on_of_nodup_map hdistinct (List.mem_filter.1 hm').1 hm
      (Int.ofNat.inj hstart)
    exact hspace (hname ▸ (word_lastWord m').2)
  · intro hwords
    have hskipped : ∀ m ∈ ms, m.Skipped ↔ "[vsyscall]".toList <:+: m.pathname := by
      intro m hm
      refine ⟨fun hskip ↦ hskip.trans (word_lastWord m).1, fun hpath ↦ ?_⟩
      rcases hwords m hm with hskip | hspace
      · exact hskip
      · rwa [Mapping.Skipped, lastWord_eq m hspace]
    have hfilter : ms.filter (fun m ↦ decide ¬ m.Skipped) =
        ms.filter ((fun r ↦ decide ¬ "[vsyscall]".toList <:+: r.pathname) ∘
          (Mapping.row · pid tsUptimeUs)) :=
      List.filter_congr fun m hm ↦ decide_eq_decide.2 (not_congr (hskipped m hm))
    rw [← hfilter]
    refine congrArg Except.ok (List.map_congr_left fun m hm ↦ ?_)
    obtain ⟨hm, hskip⟩ := List.mem_filter.1 hm
    have hspace := (hwords m hm).resolve_left (of_decide_eq_true hskip)
    show ((m.start : ℤ), (m.stop : ℤ), m.lastWord) = _
    rw [lastWord_eq m hspace]
    rfl

/-- **Both readers find the same regions** in a text: the hook appends rows, and they have the
regions of `get_vma_ranges` exactly where each path that this does not skip is one word or empty. -/
theorem getVmaRanges_eq_rows_iff {hook : ProcMapsHook} {proc : List (PyStr × Option PyStr)}
    {pid : ℤ} (htarget : hook.target proc = .ok (some pid)) (tsUptimeUs : ℤ) {ms : List Mapping}
    (hdistinct : (ms.map Mapping.start).Nodup) (h : ∀ m ∈ ms, Plain m.pathname) :
    ∃ rows, hook.poll proc (some (mapsText ms)) tsUptimeUs =
        ({ hook with targetPid := some pid, samples := hook.samples ++ rows }, none) ∧
      (getVmaRanges (mapsText ms) = .ok (rangesOf rows) ↔
        ∀ m ∈ ms, m.Skipped ∨ ∀ c ∈ m.pathname, PyStr.isSpace c = false) :=
  ⟨_, poll_of_plain htarget h, getVmaRanges_rangesOf_iff pid tsUptimeUs hdistinct h⟩

/-- The page of the old system calls. -/
def vsyscallPage : Mapping :=
  { Mapping.ofVma heapRegion with
    start := 0xffffffffff600000
    stop := 0xffffffffff601000
    start_lt_stop := by decide
    pathname := "[vsyscall]".toList
    pad_pos := fun _ ↦ by decide }

/-- A heap, a file whose name has blanks, and the page of the old system calls. -/
def threeMappings : List Mapping := [.ofVma heapRegion, .ofVma fileRegion, vsyscallPage]

omit [Python] in
theorem plain_threeMappings : ∀ m ∈ threeMappings, Plain m.pathname := by
  have hplain : ∀ m ∈ threeMappings, (m.pathname.all fun c ↦ PyStr.isLineBreak c = false) = true ∧
      PyStr.strip m.pathname = m.pathname := by
    decide
  exact fun m hm ↦ ⟨fun c hc ↦ of_decide_eq_true (List.all_eq_true.1 (hplain m hm).1 c hc),
    (hplain m hm).2⟩

omit [Python] in
theorem getVmaRanges_eq_rows_iff_threeMappings : ∃ rows,
    @ProcMapsHook.poll Python.ascii ⟨some 7, fun _ ↦ false, []⟩ [] (some (mapsText threeMappings))
        5 = (⟨some 7, fun _ ↦ false, [] ++ rows⟩, none) ∧
      (@getVmaRanges Python.ascii (mapsText threeMappings) = .ok (rangesOf rows) ↔
        ∀ m ∈ threeMappings, m.Skipped ∨ ∀ c ∈ m.pathname, PyStr.isSpace c = false) :=
  @getVmaRanges_eq_rows_iff Python.ascii ⟨some 7, fun _ ↦ false, []⟩ [] 7 rfl 5 threeMappings
    (by decide) plain_threeMappings

end Ranges

end Proc
