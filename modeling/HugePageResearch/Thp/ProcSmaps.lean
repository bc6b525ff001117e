import HugePageResearch.Python.Dict
import HugePageResearch.Python.Lines
import HugePageResearch.Python.Numbers
import HugePageResearch.Thp.Smaps

/-!
# Rows of `/proc/<pid>/smaps`

`proc_smaps_hook.py`: one row per region of the process, with the header of the region and all its
counters. Like `_parse_smaps`, the parser keeps what the lines of a region say until the next header
or the end.

## The result

`poll_smapsText`: of the text that the kernel prints for a list of regions, the hook appends one row
for each, `_parse_smaps` returns those that hold or may hold huge pages, and the two agree on every
field that both have.
-/

namespace Thp

/-! ### The code -/

/-- `ProcSmapsVMARegionData`. -/
structure ProcSmapsVMARegionData where
  pid : ℤ
  tgid : ℤ
  tsUptimeUs : ℤ
  startAddr : ℤ
  endAddr : ℤ
  sizeKb : ℤ
  perms : PyStr
  offset : ℤ
  dev : PyStr
  inode : ℤ
  pathname : PyStr
  kernelPageSizeKb : ℤ
  mmuPageSizeKb : ℤ
  rssKb : ℤ
  pssKb : ℤ
  pssDirtyKb : ℤ
  sharedCleanKb : ℤ
  sharedDirtyKb : ℤ
  privateCleanKb : ℤ
  privateDirtyKb : ℤ
  referencedKb : ℤ
  anonymousKb : ℤ
  ksmKb : ℤ
  lazyFreeKb : ℤ
  anonHugepagesKb : ℤ
  shmemPmdMappedKb : ℤ
  filePmdMappedKb : ℤ
  sharedHugetlbKb : ℤ
  privateHugetlbKb : ℤ
  swapKb : ℤ
  swapPssKb : ℤ
  lockedKb : ℤ
  thpEligible : ℤ
  protectionKey : ℤ
  vmFlags : PyStr
  deriving DecidableEq

/-- The fields of a row that are read from `Key: value` lines. -/
inductive SmapsField where
  | sizeKb
  | kernelPageSizeKb
  | mmuPageSizeKb
  | rssKb
  | pssKb
  | pssDirtyKb
  | sharedCleanKb
  | sharedDirtyKb
  | privateCleanKb
  | privateDirtyKb
  | referencedKb
  | anonymousKb
  | ksmKb
  | lazyFreeKb
  | anonHugepagesKb
  | shmemPmdMappedKb
  | filePmdMappedKb
  | sharedHugetlbKb
  | privateHugetlbKb
  | swapKb
  | swapPssKb
  | lockedKb
  | thpEligible
  | protectionKey
  deriving DecidableEq

/-- `_SMAPS_KEY_MAP`. -/
def smapsKeyMap : List (PyStr × SmapsField) :=
  [("Size:".toList, .sizeKb), ("KernelPageSize:".toList, .kernelPageSizeKb),
    ("MMUPageSize:".toList, .mmuPageSizeKb), ("Rss:".toList, .rssKb), ("Pss:".toList, .pssKb),
    ("Pss_Dirty:".toList, .pssDirtyKb), ("Shared_Clean:".toList, .sharedCleanKb),
    ("Shared_Dirty:".toList, .sharedDirtyKb), ("Private_Clean:".toList, .privateCleanKb),
    ("Private_Dirty:".toList, .privateDirtyKb), ("Referenced:".toList, .referencedKb),
    ("Anonymous:".toList, .anonymousKb), ("KSM:".toList, .ksmKb),
    ("LazyFree:".toList, .lazyFreeKb), ("AnonHugePages:".toList, .anonHugepagesKb),
    ("ShmemPmdMapped:".toList, .shmemPmdMappedKb), ("FilePmdMapped:".toList, .filePmdMappedKb),
    ("Shared_Hugetlb:".toList, .sharedHugetlbKb), ("Private_Hugetlb:".toList, .privateHugetlbKb),
    ("Swap:".toList, .swapKb), ("SwapPss:".toList, .swapPssKb), ("Locked:".toList, .lockedKb),
    ("THPeligible:".toList, .thpEligible), ("ProtectionKey:".toList, .protectionKey)]

/-- The hook: `pid_regex` is what its search finds. -/
structure ProcSmapsHook where
  targetPid : Option ℤ
  pidRegex : PyStr → Bool
  samples : List ProcSmapsVMARegionData

/-- What `poll` raises. -/
inductive PollError where
  /-- A `RuntimeError`: there is no process. -/
  | runtimeError
  | parseError (e : ParseError)
  deriving DecidableEq

/-- `header`. -/
structure SmapsHeader where
  startAddr : ℤ
  endAddr : ℤ
  perms : PyStr
  offset : ℤ
  dev : PyStr
  inode : ℤ
  pathname : PyStr

/-- The local variables of `poll` and the hook's samples; `fields` is kept apart from its entry
`"vm_flags"`, which alone is a text. -/
structure SmapsParse where
  samples : List ProcSmapsVMARegionData
  header : Option SmapsHeader
  fields : Dict SmapsField ℤ
  vmFlags : Option PyStr

/-- The row of a header and of the fields that were read. -/
def smapsRow (pid tsUptimeUs : ℤ) (header : SmapsHeader) (fields : SmapsField → Option ℤ)
    (vmFlags : Option PyStr) : ProcSmapsVMARegionData where
  pid := pid
  tgid := pid
  tsUptimeUs := tsUptimeUs
  startAddr := header.startAddr
  endAddr := header.endAddr
  sizeKb := (fields .sizeKb).getD ((header.endAddr - header.startAddr) / 1024)
  perms := header.perms
  offset := header.offset
  dev := header.dev
  inode := header.inode
  pathname := header.pathname
  kernelPageSizeKb := (fields .kernelPageSizeKb).getD 0
  mmuPageSizeKb := (fields .mmuPageSizeKb).getD 0
  rssKb := (fields .rssKb).getD 0
  pssKb := (fields .pssKb).getD 0
  pssDirtyKb := (fields .pssDirtyKb).getD 0
  sharedCleanKb := (fields .sharedCleanKb).getD 0
  sharedDirtyKb := (fields .sharedDirtyKb).getD 0
  privateCleanKb := (fields .privateCleanKb).getD 0
  privateDirtyKb := (fields .privateDirtyKb).getD 0
  referencedKb := (fields .referencedKb).getD 0
  anonymousKb := (fields .anonymousKb).getD 0
  ksmKb := (fields .ksmKb).getD 0
  lazyFreeKb := (fields .lazyFreeKb).getD 0
  anonHugepagesKb := (fields .anonHugepagesKb).getD 0
  shmemPmdMappedKb := (fields .shmemPmdMappedKb).getD 0
  filePmdMappedKb := (fields .filePmdMappedKb).getD 0
  sharedHugetlbKb := (fields .sharedHugetlbKb).getD 0
  privateHugetlbKb := (fields .privateHugetlbKb).getD 0
  swapKb := (fields .swapKb).getD 0
  swapPssKb := (fields .swapPssKb).getD 0
  lockedKb := (fields .lockedKb).getD 0
  thpEligible := (fields .thpEligible).getD 0
  protectionKey := (fields .protectionKey).getD 0
  vmFlags := vmFlags.getD []

/-- `emit()`. -/
def SmapsParse.emit (pid tsUptimeUs : ℤ) (s : SmapsParse) : SmapsParse :=
  match s.header with
  | none => s
  | some header =>
    { s with samples := s.samples ++ [smapsRow pid tsUptimeUs header s.fields.get? s.vmFlags] }

section Poll

variable [Python]

/-- `_find_target_pid`, of the directories of `/proc` with the text of their `comm`, where it can be
read. -/
def ProcSmapsHook.findTargetPid (hook : ProcSmapsHook) (proc : List (PyStr × Option PyStr)) :
    Except ParseError (Option ℤ) :=
  let candidates := proc.filter fun e ↦
    PyStr.isdigit e.1 && e.2.any fun comm ↦ hook.pidRegex (PyStr.strip comm)
  (candidates.mapM fun e ↦ parseInt 10 e.1).map List.max?

/-- `"-" in line and len(line) > 1 and line[0].isalnum() and line[1].isalnum()`. -/
def isHeaderLine (line : PyStr) : Bool :=
  match line with
  | c :: d :: _ => decide ('-' ∈ line) && Python.isAlnum c && Python.isAlnum d
  | _ => false

/-- The new `header`; `none` is a line with too few parts. -/
def parseHeader (line : PyStr) : Except ParseError (Option SmapsHeader) :=
  match PyStr.splitMax 5 line with
  | addrRange :: perms :: offset :: dev :: inode :: rest =>
    match addrRange.splitOn '-' with
    | [startRaw, endRaw] => do
      let startAddr ← parseInt 16 startRaw
      let endAddr ← parseInt 16 endRaw
      let offset ← parseInt 16 offset
      let inode ← parseInt 10 inode
      return some ⟨startAddr, endAddr, perms, offset, dev, inode,
        match rest with
        | [] => []
        | pathname :: _ => PyStr.strip pathname⟩
    | _ => .ok none
  | _ => .ok none

/-- One line of the loop; an error carries the samples that were appended before. -/
def pollLine (pid tsUptimeUs : ℤ) (s : SmapsParse) (line : PyStr) :
    Except (List ProcSmapsVMARegionData × ParseError) SmapsParse :=
  if line = [] then .ok s
  else if isHeaderLine line = true then
    match parseHeader line with
    | .error e => .error ((s.emit pid tsUptimeUs).samples, e)
    -- what was read of the region before is emitted, but `fields` is not emptied
    | .ok none => .ok { s.emit pid tsUptimeUs with header := none }
    | .ok (some header) => .ok ⟨(s.emit pid tsUptimeUs).samples, some header, .empty, none⟩
  else if PyStr.startswith line "VmFlags:".toList = true then
    .ok { s with vmFlags := some (PyStr.strip (PyStr.removeAll "VmFlags:".toList 0 line)) }
  else
    match smapsKeyMap.find? fun entry ↦ PyStr.startswith line entry.1 with
    | none => .ok s
    | some (_, field) =>
      match (PyStr.split line)[1]? with
      | none => .ok s
      | some raw =>
        match parseInt 10 raw with
        | .error e => .error (s.samples, e)
        | .ok n => .ok { s with fields := s.fields.set field n }

/-- `for line in lines`. -/
def pollLines (pid tsUptimeUs : ℤ) :
    SmapsParse → List PyStr → Except (List ProcSmapsVMARegionData × ParseError) SmapsParse
  | s, [] => .ok s
  | s, line :: lines =>
    (pollLine pid tsUptimeUs s line).bind fun s ↦ pollLines pid tsUptimeUs s lines

/-- The process to read, which is looked for once. -/
def ProcSmapsHook.target (hook : ProcSmapsHook) (proc : List (PyStr × Option PyStr)) :
    Except ParseError (Option ℤ) :=
  match hook.targetPid with
  | some pid => .ok (some pid)
  | none => hook.findTargetPid proc

/-- `poll`: the hook after it, and what it raised. There is no text where the file cannot be
read. -/
def ProcSmapsHook.poll (hook : ProcSmapsHook) (proc : List (PyStr × Option PyStr))
    (raw : Option PyStr) (tsUptimeUs : ℤ) : ProcSmapsHook × Option PollError :=
  match hook.target proc with
  | .error e => (hook, some (.parseError e))
  | .ok none => (hook, some .runtimeError)
  | .ok (some pid) =>
    match raw with
    | none => ({ hook with targetPid := some pid }, none)
    | some raw =>
      match pollLines pid tsUptimeUs ⟨hook.samples, none, .empty, none⟩ (PyStr.splitlines raw) with
      | .error (samples, e) =>
        ({ hook with targetPid := some pid, samples := samples }, some (.parseError e))
      | .ok s => ({ hook with
          targetPid := some pid, samples := (s.emit pid tsUptimeUs).samples }, none)

end Poll

/-! ### What the kernel prints -/

/-- A text without white space. -/
structure IsWord (s : PyStr) : Prop where
  ne_nil : s ≠ []
  isSpace : ∀ c ∈ s, PyStr.isSpace c = false

/-- A line `Key: value`, of a count of kilobytes or of a bare number. -/
structure ValueLine where
  key : PyStr
  plain : ∀ c ∈ key, c.isAlphanum = true ∨ c = '_'
  ne_vmFlags : key ≠ "VmFlags".toList
  /-- The blanks before the number, less one. -/
  pad : ℕ
  value : ℕ
  kB : Bool

/-- A line of flags. -/
structure FlagsLine where
  flags : PyStr
  oneLine : ∀ c ∈ flags, PyStr.isLineBreak c = false
  no_hyphen : '-' ∉ flags
  no_colon : ':' ∉ flags
  stripped : PyStr.strip flags = flags
  /-- The blanks after the last flag. -/
  pad : ℕ

/-- A line after a header. -/
inductive SmapsLine where
  | value (l : ValueLine)
  | vmFlags (l : FlagsLine)

/-- What stands before the colon. -/
def SmapsLine.key : SmapsLine → PyStr
  | .value l => l.key
  | .vmFlags _ => "VmFlags".toList

theorem key_value (l : ValueLine) : (SmapsLine.value l).key = l.key := rfl

/-- **A region** as the kernel prints it. -/
structure Vma where
  start : ℕ
  stop : ℕ
  start_lt_stop : start < stop
  perms : PyStr
  isWord_perms : IsWord perms
  offset : ℕ
  dev : PyStr
  isWord_dev : IsWord dev
  inode : ℕ
  /-- The blanks after the inode. -/
  pad : ℕ
  pathname : PyStr
  oneLine : ∀ c ∈ pathname, PyStr.isLineBreak c = false
  stripped : PyStr.strip pathname = pathname
  pad_pos : pathname ≠ [] → 0 < pad
  lines : List SmapsLine
  /-- No key is printed twice. -/
  distinct : (lines.map SmapsLine.key).Nodup

/-- `%08x`. -/
def hexEight (n : ℕ) : PyStr := PyStr.zeroFilled 16 (8 - (Nat.toDigits 16 n).length) n

/-- What follows the number of a line. -/
def ValueLine.unit (l : ValueLine) : PyStr := if l.kB then " kB".toList else []

/-- The text of a line after a header. -/
def SmapsLine.text : SmapsLine → PyStr
  | .value l =>
    l.key ++ ':' :: ' ' :: (List.replicate l.pad ' ' ++ (Nat.toDigits 10 l.value ++ l.unit))
  | .vmFlags l => "VmFlags:".toList ++ ' ' :: (l.flags ++ List.replicate l.pad ' ')

theorem text_value (l : ValueLine) : (SmapsLine.value l).text =
    l.key ++ ':' :: ' ' :: (List.replicate l.pad ' ' ++ (Nat.toDigits 10 l.value ++ l.unit)) :=
  rfl

theorem text_vmFlags (l : FlagsLine) : (SmapsLine.vmFlags l).text =
    "VmFlags:".toList ++ ' ' :: (l.flags ++ List.replicate l.pad ' ') :=
  rfl

namespace Vma

variable (v : Vma)

/-- `start-end`. -/
def addrRange : PyStr := hexEight v.start ++ '-' :: hexEight v.stop

/-- `start-end perms offset dev inode [pathname]`. -/
def header : PyStr :=
  v.addrRange ++ ' ' :: (v.perms ++ ' ' :: (hexEight v.offset ++ ' ' :: (v.dev ++ ' ' ::
    (Nat.toDigits 10 v.inode ++ (List.replicate v.pad ' ' ++ v.pathname)))))

/-- The lines of a region. -/
def text : List PyStr := v.header :: v.lines.map SmapsLine.text

end Vma

/-- The text of `/proc/<pid>/smaps`. -/
def smapsText (vmas : List Vma) : PyStr := (vmas.flatMap Vma.text).flatMap (· ++ ['\n'])

/-! ### What a region says -/

/-- The number of the line with the key, if there is one. -/
def valueOf (ls : List SmapsLine) (key : PyStr) : Option ℤ :=
  ls.findSome? fun
    | .value l => if l.key = key then some (l.value : ℤ) else none
    | .vmFlags _ => none

/-- The flags, if they are printed. -/
def flagsOf (ls : List SmapsLine) : Option PyStr :=
  ls.findSome? fun
    | .value _ => none
    | .vmFlags l => some l.flags

/-- The kernel's name for a field. -/
def SmapsField.key : SmapsField → PyStr
  | sizeKb => "Size".toList
  | kernelPageSizeKb => "KernelPageSize".toList
  | mmuPageSizeKb => "MMUPageSize".toList
  | rssKb => "Rss".toList
  | pssKb => "Pss".toList
  | pssDirtyKb => "Pss_Dirty".toList
  | sharedCleanKb => "Shared_Clean".toList
  | sharedDirtyKb => "Shared_Dirty".toList
  | privateCleanKb => "Private_Clean".toList
  | privateDirtyKb => "Private_Dirty".toList
  | referencedKb => "Referenced".toList
  | anonymousKb => "Anonymous".toList
  | ksmKb => "KSM".toList
  | lazyFreeKb => "LazyFree".toList
  | anonHugepagesKb => "AnonHugePages".toList
  | shmemPmdMappedKb => "ShmemPmdMapped".toList
  | filePmdMappedKb => "FilePmdMapped".toList
  | sharedHugetlbKb => "Shared_Hugetlb".toList
  | privateHugetlbKb => "Private_Hugetlb".toList
  | swapKb => "Swap".toList
  | swapPssKb => "SwapPss".toList
  | lockedKb => "Locked".toList
  | thpEligible => "THPeligible".toList
  | protectionKey => "ProtectionKey".toList

namespace Vma

variable (v : Vma)

/-- The numbers and texts of the header. -/
def smapsHeader : SmapsHeader := ⟨v.start, v.stop, v.perms, v.offset, v.dev, v.inode, v.pathname⟩

/-- The number that a line of the region says, and zero where the line is absent. -/
def number (key : PyStr) : ℤ := (valueOf v.lines key).getD 0

/-- **The row of a region**, of its own header and lines. -/
def row (pid tsUptimeUs : ℤ) : ProcSmapsVMARegionData where
  pid := pid
  tgid := pid
  tsUptimeUs := tsUptimeUs
  startAddr := v.start
  endAddr := v.stop
  -- computed where the line is absent
  sizeKb := (valueOf v.lines "Size".toList).getD (((v.stop : ℤ) - v.start) / 1024)
  perms := v.perms
  offset := v.offset
  dev := v.dev
  inode := v.inode
  pathname := v.pathname
  kernelPageSizeKb := v.number "KernelPageSize".toList
  mmuPageSizeKb := v.number "MMUPageSize".toList
  rssKb := v.number "Rss".toList
  pssKb := v.number "Pss".toList
  pssDirtyKb := v.number "Pss_Dirty".toList
  sharedCleanKb := v.number "Shared_Clean".toList
  sharedDirtyKb := v.number "Shared_Dirty".toList
  privateCleanKb := v.number "Private_Clean".toList
  privateDirtyKb := v.number "Private_Dirty".toList
  referencedKb := v.number "Referenced".toList
  anonymousKb := v.number "Anonymous".toList
  ksmKb := v.number "KSM".toList
  lazyFreeKb := v.number "LazyFree".toList
  anonHugepagesKb := v.number "AnonHugePages".toList
  shmemPmdMappedKb := v.number "ShmemPmdMapped".toList
  filePmdMappedKb := v.number "FilePmdMapped".toList
  sharedHugetlbKb := v.number "Shared_Hugetlb".toList
  privateHugetlbKb := v.number "Private_Hugetlb".toList
  swapKb := v.number "Swap".toList
  swapPssKb := v.number "SwapPss".toList
  lockedKb := v.number "Locked".toList
  thpEligible := v.number "THPeligible".toList
  protectionKey := v.number "ProtectionKey".toList
  vmFlags := (flagsOf v.lines).getD []

/-- The sample of a region, of its own header and lines. -/
def sample (pid nowNs : ℤ) : SmapsVMARegionSample where
  pid := pid
  tgid := pid
  tsNs := nowNs
  startAddr := v.start
  endAddr := v.stop
  rssKb := (valueOf v.lines "Rss".toList).getD 0
  anonymousKb := (valueOf v.lines "Anonymous".toList).getD 0
  referencedKb := (valueOf v.lines "Referenced".toList).getD 0
  anonHugepagesKb := (valueOf v.lines "AnonHugePages".toList).getD 0
  thpEligible := (valueOf v.lines "THPeligible".toList).getD 0
  raPagesKb := (valueOf v.lines "Ra_pages".toList).getD 0
  raState := (valueOf v.lines "Ra_state".toList).getD 0
  vmFlags := (flagsOf v.lines).getD []

/-- The region holds huge pages or may hold them. -/
def Huge : Prop :=
  0 < (valueOf v.lines "AnonHugePages".toList).getD 0 ∨
    (valueOf v.lines "THPeligible".toList).getD 0 ≠ 0

instance : Decidable v.Huge := inferInstanceAs (Decidable (_ ∨ _))

end Vma

/-- The fields that both parsers read. -/
structure SharedFields where
  pid : ℤ
  tgid : ℤ
  startAddr : ℤ
  endAddr : ℤ
  rssKb : ℤ
  anonymousKb : ℤ
  referencedKb : ℤ
  anonHugepagesKb : ℤ
  thpEligible : ℤ
  vmFlags : PyStr

/-- The fields of a row that a sample has, too. -/
def ProcSmapsVMARegionData.shared (r : ProcSmapsVMARegionData) : SharedFields :=
  ⟨r.pid, r.tgid, r.startAddr, r.endAddr, r.rssKb, r.anonymousKb, r.referencedKb,
    r.anonHugepagesKb, r.thpEligible, r.vmFlags⟩

/-- The fields of a sample that a row has, too. -/
def SmapsVMARegionSample.shared (r : SmapsVMARegionSample) : SharedFields :=
  ⟨r.pid, r.tgid, r.startAddr, r.endAddr, r.rssKb, r.anonymousKb, r.referencedKb,
    r.anonHugepagesKb, r.thpEligible, r.vmFlags⟩

/-! ### The texts -/

theorem isWord_of_isAlphanum {s : PyStr} (hne : s ≠ []) (hs : ∀ c ∈ s, c.isAlphanum = true) :
    IsWord s :=
  ⟨hne, fun c hc ↦ PyStr.isSpace_of_isAlphanum (hs c hc)⟩

/-- A decimal number is a word. -/
theorem isWord_toDigits (n : ℕ) : IsWord (Nat.toDigits 10 n) :=
  isWord_of_isAlphanum Nat.toDigits_ne_nil fun _ hc ↦
    PyStr.isAlphanum_of_mem_toDigits (by decide) (by decide) hc

theorem isAlphanum_hexEight (n : ℕ) : ∀ c ∈ hexEight n, c.isAlphanum = true := fun _ hc ↦
  PyStr.isAlphanum_of_mem_zeroFilled (by decide) (by decide) hc

theorem isWord_hexEight (n : ℕ) : IsWord (hexEight n) :=
  isWord_of_isAlphanum (PyStr.zeroFilled_ne_nil _ n) (isAlphanum_hexEight n)

theorem no_hyphen_hexEight (n : ℕ) : '-' ∉ hexEight n := fun h ↦
  absurd (isAlphanum_hexEight n _ h) (by decide)

theorem parseInt_hexEight [Python] (n : ℕ) : parseInt 16 (hexEight n) = .ok (n : ℤ) := by
  rw [parseInt, hexEight, PyStr.int_hexadecimal]

/-- A number of eight digits starts with two. -/
theorem exists_hexEight (n : ℕ) : ∃ c d t, hexEight n = c :: d :: t ∧ c.isAlphanum = true ∧
    d.isAlphanum = true := by
  have hlen : 2 ≤ (hexEight n).length := by
    rw [hexEight, PyStr.zeroFilled, List.length_append, List.length_replicate]
    omega
  have halnum := isAlphanum_hexEight n
  rcases hhex : hexEight n with - | ⟨c, - | ⟨d, t⟩⟩
  · rw [hhex] at hlen
    exact absurd hlen (by simp)
  · rw [hhex] at hlen
    exact absurd hlen (by simp)
  · rw [hhex] at halnum
    exact ⟨c, d, t, rfl, halnum c List.mem_cons_self,
      halnum d (List.mem_cons_of_mem _ List.mem_cons_self)⟩

namespace Vma

variable (v : Vma)

/-- The addresses are one word. -/
theorem isWord_addrRange : IsWord v.addrRange := by
  refine ⟨List.append_ne_nil_of_right_ne_nil _ (List.cons_ne_nil _ _), fun c hc ↦ ?_⟩
  rcases List.mem_append.1 hc with hc | hc
  · exact (isWord_hexEight _).isSpace c hc
  · rcases List.mem_cons.1 hc with rfl | hc
    · decide
    · exact (isWord_hexEight _).isSpace c hc

/-- The two addresses. -/
theorem splitOn_addrRange :
    v.addrRange.splitOn '-' = [hexEight v.start, hexEight v.stop] := by
  rw [addrRange, List.splitOn_append_cons_self_of_not_mem (no_hyphen_hexEight _),
    List.splitOn_eq_singleton (no_hyphen_hexEight _)]

/-- What is left after the inode. -/
theorem splitMax_pathname : PyStr.splitMax 0 (List.replicate v.pad ' ' ++ v.pathname) =
    if v.pathname = [] then [] else [v.pathname] := by
  rw [PyStr.splitMax_space_append (PyStr.isSpace_replicate _)]
  have hstripped := v.stripped
  cases hpath : v.pathname with
  | nil => rfl
  | cons c t =>
    rw [hpath] at hstripped
    rw [if_neg (List.cons_ne_nil c t),
      PyStr.splitMax_zero (PyStr.isSpace_of_strip_cons hstripped)]

/-- **The parts of a header.** -/
theorem splitMax_header : PyStr.splitMax 5 v.header =
    v.addrRange :: v.perms :: hexEight v.offset :: v.dev :: Nat.toDigits 10 v.inode ::
      if v.pathname = [] then [] else [v.pathname] := by
  have hblank : PyStr.isSpace ' ' = true := rfl
  have hrest : ∀ c, (List.replicate v.pad ' ' ++ v.pathname).head? = some c →
      PyStr.isSpace c = true := fun c hc ↦ by
    rcases hpad : v.pad with - | k
    · have hpath : v.pathname = [] := by
        by_contra hne
        exact absurd (v.pad_pos hne) (by omega)
      rw [hpad, hpath] at hc
      exact absurd hc (by simp)
    · rw [hpad, List.replicate_succ] at hc
      obtain rfl := Option.some.inj hc
      rfl
  have hword {s : PyStr} (hs : IsWord s) (n : ℕ) (t : PyStr) :
      PyStr.splitMax (n + 1) (s ++ ' ' :: t) = s :: PyStr.splitMax n t :=
    PyStr.splitMax_word_append hs.ne_nil hs.isSpace hblank n t
  rw [header, hword v.isWord_addrRange 4, hword v.isWord_perms 3, hword (isWord_hexEight _) 2,
    hword v.isWord_dev 1,
    PyStr.splitMax_succ (isWord_toDigits _).ne_nil (isWord_toDigits _).isSpace hrest,
    splitMax_pathname]

variable [Python]

/-- **A header is read back.** -/
theorem parseHeader_header : parseHeader v.header = .ok (some v.smapsHeader) := by
  have hinode : parseInt 10 (Nat.toDigits 10 v.inode) = .ok (v.inode : ℤ) := by
    rw [parseInt]
    show (match PyStr.int 10 (PyStr.zeroFilled 10 0 v.inode) with
      | some n => _
      | none => _) = _
    rw [PyStr.int_decimal]
  rw [parseHeader, splitMax_header]
  simp only [splitOn_addrRange, parseInt_hexEight, hinode]
  by_cases hpath : v.pathname = []
  · rw [if_pos hpath, smapsHeader, hpath]
    rfl
  · rw [if_neg hpath, smapsHeader]
    show Except.ok (some (SmapsHeader.mk _ _ _ _ _ _ (PyStr.strip v.pathname))) = _
    rw [v.stripped]

/-- A header starts with two digits and has a hyphen. -/
theorem exists_header : ∃ c d t, v.header = c :: d :: t ∧ '-' ∈ v.header ∧
    Python.isAlnum c = true ∧ Python.isAlnum d = true := by
  obtain ⟨c, d, t, hhex, hc, hd⟩ := exists_hexEight v.start
  have halnum : ∀ {c : Char}, c.isAlphanum = true → Python.isAlnum c = true := fun {c} h ↦ by
    have hrange := PyStr.isAlphanum_iff.1 h
    rw [Python.isAlnum_ascii c (by omega), h]
  have hmem : '-' ∈ v.header :=
    List.mem_append_left _ (List.mem_append_right _ List.mem_cons_self)
  rw [header, addrRange, hhex] at hmem ⊢
  exact ⟨c, d, _, rfl, hmem, halnum hc, halnum hd⟩

theorem isHeaderLine_header : isHeaderLine v.header = true := by
  obtain ⟨c, d, t, hline, hmem, hc, hd⟩ := v.exists_header
  rw [hline] at hmem ⊢
  rw [isHeaderLine, decide_eq_true hmem, hc, hd]
  rfl

theorem isHeader_header : isHeader v.header = .ok true := by
  obtain ⟨c, d, t, hline, hmem, hc, hd⟩ := v.exists_header
  rw [hline] at hmem ⊢
  rw [isHeader, if_pos ⟨hmem, hc⟩]
  show Except.ok (Python.isAlnum d) = _
  rw [hd]

theorem header_ne_nil : v.header ≠ [] := by
  obtain ⟨c, d, t, hline, -⟩ := v.exists_header
  rw [hline]
  exact List.cons_ne_nil _ _

/-- The addresses of a header, for the other parser. -/
theorem headerBounds_header : headerBounds v.header = .ok ((v.start : ℤ), (v.stop : ℤ)) := by
  have hblank : PyStr.isSpace ' ' = true := rfl
  rw [headerBounds, header,
    PyStr.split_word_append v.isWord_addrRange.ne_nil v.isWord_addrRange.isSpace hblank,
    List.head?_cons]
  show (match v.addrRange.splitOn '-' with
    | [startRaw, endRaw] => _
    | _ => _) = _
  rw [splitOn_addrRange]
  show (parseInt 16 (hexEight v.start)).bind _ = _
  rw [parseInt_hexEight, parseInt_hexEight]
  rfl

end Vma

namespace SmapsLine

variable (l : SmapsLine)

/-- A line has no hyphen. -/
theorem no_hyphen : '-' ∉ l.text := by
  cases l with
  | value l =>
    have hkey : '-' ∉ l.key := fun h ↦ by
      rcases l.plain _ h with h | h
      · exact absurd h (by decide)
      · exact absurd h (by decide)
    have hvalue : '-' ∉ Nat.toDigits 10 l.value := fun h ↦
      absurd (PyStr.isAlphanum_of_mem_toDigits (by decide) (by decide) h) (by decide)
    have hunit : '-' ∉ l.unit := by
      rw [ValueLine.unit]
      split_ifs
      · decide
      · exact List.not_mem_nil
    have hpad : '-' ∉ List.replicate l.pad ' ' := fun h ↦
      absurd (List.eq_of_mem_replicate h) (by decide)
    rw [text_value]
    exact List.not_mem_append hkey (List.not_mem_cons_of_ne_of_not_mem (by decide)
      (List.not_mem_cons_of_ne_of_not_mem (by decide)
        (List.not_mem_append hpad (List.not_mem_append hvalue hunit))))
  | vmFlags l =>
    have hpad : '-' ∉ List.replicate l.pad ' ' := fun h ↦
      absurd (List.eq_of_mem_replicate h) (by decide)
    rw [text_vmFlags]
    exact List.not_mem_append (by decide) (List.not_mem_cons_of_ne_of_not_mem (by decide)
      (List.not_mem_append l.no_hyphen hpad))

/-- A line is its key, a colon and more. -/
theorem exists_text : ∃ t, l.text = l.key ++ ':' :: t := by
  cases l with
  | value l => exact ⟨_, rfl⟩
  | vmFlags l => exact ⟨_, rfl⟩

theorem text_ne_nil : l.text ≠ [] := by
  obtain ⟨t, ht⟩ := l.exists_text
  rw [ht]
  exact List.append_ne_nil_of_right_ne_nil _ (List.cons_ne_nil _ _)

theorem no_colon_key : ':' ∉ l.key := by
  cases l with
  | value l =>
    intro h
    rcases l.plain _ h with h | h
    · exact absurd h (by decide)
    · exact absurd h (by decide)
  | vmFlags l =>
    show ':' ∉ "VmFlags".toList
    decide

/-- **A line has one key**: no other is a prefix of it. -/
theorem startswith_text (key : PyStr) (hkey : ':' ∉ key) :
    PyStr.startswith l.text (key ++ [':']) = true ↔ l.key = key := by
  obtain ⟨t, ht⟩ := l.exists_text
  rw [ht]
  exact PyStr.startswith_append l.no_colon_key hkey

variable [Python]

theorem isHeaderLine_text : isHeaderLine l.text = false := by
  have hmem := l.no_hyphen
  rcases htext : l.text with - | ⟨c, - | ⟨d, t⟩⟩
  · rfl
  · rfl
  · rw [htext] at hmem
    rw [isHeaderLine, decide_eq_false hmem, Bool.false_and, Bool.false_and]

theorem isHeader_text : isHeader l.text = .ok false := by
  have hmem := l.no_hyphen
  obtain ⟨c, t, htext⟩ := List.exists_cons_of_ne_nil l.text_ne_nil
  rw [htext] at hmem ⊢
  exact if_neg fun h ↦ hmem h.1

end SmapsLine

/-- **The number of a line is read back.** -/
theorem split_value (l : ValueLine) :
    ∃ raw rest, PyStr.split (SmapsLine.value l).text = raw :: Nat.toDigits 10 l.value :: rest := by
  have hblank : PyStr.isSpace ' ' = true := rfl
  have hkey : IsWord (l.key ++ [':']) := by
    refine ⟨List.append_ne_nil_of_right_ne_nil _ (List.cons_ne_nil _ _), fun c hc ↦ ?_⟩
    rcases List.mem_append.1 hc with hc | hc
    · rcases l.plain c hc with hc | rfl
      · exact PyStr.isSpace_of_isAlphanum hc
      · rfl
    · rw [List.mem_singleton.1 hc]
      rfl
  have htext : (SmapsLine.value l).text = (l.key ++ [':']) ++ ' ' ::
      (List.replicate l.pad ' ' ++ (Nat.toDigits 10 l.value ++ l.unit)) := by
    rw [text_value, List.append_assoc, List.singleton_append]
  have hvalue := isWord_toDigits l.value
  rw [htext, PyStr.split_word_append hkey.ne_nil hkey.isSpace hblank,
    PyStr.split_space_append (PyStr.isSpace_replicate _), ValueLine.unit]
  split_ifs
  · exact ⟨_, _, congrArg _ (PyStr.split_word_append hvalue.ne_nil hvalue.isSpace hblank _)⟩
  · exact ⟨_, _, by rw [List.append_nil, PyStr.split_word hvalue.ne_nil hvalue.isSpace]⟩

/-- **The flags are read back.** -/
theorem strip_flags (l : FlagsLine) :
    PyStr.strip (PyStr.removeAll "VmFlags:".toList 0 (SmapsLine.vmFlags l).text) = l.flags := by
  have hcolon : ':' ∉ ' ' :: (l.flags ++ List.replicate l.pad ' ') :=
    List.not_mem_cons_of_ne_of_not_mem (by decide) (List.not_mem_append l.no_colon fun h ↦
      absurd (List.eq_of_mem_replicate h) (by decide))
  rw [text_vmFlags, PyStr.removeAll_pattern_append (c := ':') (by decide) hcolon]
  show PyStr.strip ([' '] ++ (l.flags ++ List.replicate l.pad ' ')) = _
  rw [PyStr.strip_space_append PyStr.isSpace_blank,
    PyStr.strip_append_space (PyStr.isSpace_replicate _), l.stripped]

/-! ### Numbers and flags of lines -/

section Lines

variable {ls : List SmapsLine} {key : PyStr}

theorem valueOf_cons_value (l : ValueLine) (ls : List SmapsLine) (key : PyStr) :
    valueOf (.value l :: ls) key = if l.key = key then some (l.value : ℤ) else valueOf ls key := by
  rw [valueOf, List.findSome?_cons]
  split_ifs with hkey
  · simp only [if_pos hkey]
  · simp only [if_neg hkey]
    rfl

theorem valueOf_nil (key : PyStr) : valueOf [] key = none := rfl

theorem flagsOf_nil : flagsOf [] = none := rfl

theorem valueOf_cons_vmFlags (l : FlagsLine) (ls : List SmapsLine) (key : PyStr) :
    valueOf (.vmFlags l :: ls) key = valueOf ls key := rfl

theorem flagsOf_cons_value (l : ValueLine) (ls : List SmapsLine) :
    flagsOf (.value l :: ls) = flagsOf ls := rfl

theorem valueOf_eq_none (hkey : key ∉ ls.map SmapsLine.key) : valueOf ls key = none := by
  induction ls with
  | nil => rfl
  | cons l ls ih =>
    obtain ⟨hne, hls⟩ := List.ne_and_not_mem_of_not_mem_cons hkey
    cases l with
    | value l => rw [valueOf_cons_value, if_neg fun h ↦ hne h.symm, ih hls]
    | vmFlags l => rw [valueOf_cons_vmFlags, ih hls]

theorem flagsOf_eq_none (hkey : "VmFlags".toList ∉ ls.map SmapsLine.key) : flagsOf ls = none := by
  induction ls with
  | nil => rfl
  | cons l ls ih =>
    obtain ⟨hne, hls⟩ := List.ne_and_not_mem_of_not_mem_cons hkey
    cases l with
    | value l => rw [flagsOf_cons_value, ih hls]
    | vmFlags l => exact absurd rfl hne

end Lines

/-! ### The hook reads a region -/

/-- The field that a key is stored in. -/
def fieldOf (key : PyStr) : Option SmapsField :=
  (smapsKeyMap.find? fun entry ↦ decide (entry.1 = key ++ [':'])).map Prod.snd

theorem fieldOf_key (field : SmapsField) : fieldOf field.key = some field := by
  cases field <;> rfl

/-- Each prefix is the key of its field and a colon. -/
theorem smapsKeyMap_keys : ∀ entry ∈ smapsKeyMap, entry.1 = entry.2.key ++ [':'] ∧
    ':' ∉ entry.2.key := by
  decide

/-- **A key is stored in the field that it names**, and in no other. -/
theorem fieldOf_eq_some {key : PyStr} {field : SmapsField} :
    fieldOf key = some field ↔ key = field.key := by
  constructor
  · intro h
    obtain ⟨entry, hentry, rfl⟩ := Option.map_eq_some_iff.1 h
    have hkey : entry.1 = key ++ [':'] := of_decide_eq_true (List.find?_some
      (p := fun entry : PyStr × SmapsField ↦ decide (entry.1 = key ++ [':'])) hentry)
    rw [(smapsKeyMap_keys entry (List.mem_of_find?_eq_some hentry)).1] at hkey
    exact (List.append_cancel_right hkey).symm
  · rintro rfl
    exact fieldOf_key field

/-- The prefixes are told apart by the whole key. -/
theorem find?_text (l : SmapsLine) :
    (smapsKeyMap.find? fun entry ↦ PyStr.startswith l.text entry.1).map Prod.snd =
      fieldOf l.key := by
  have hcongr : ∀ entry ∈ smapsKeyMap, PyStr.startswith l.text entry.1 =
      decide (entry.1 = l.key ++ [':']) := fun entry hentry ↦ by
    obtain ⟨hpre, hcolon⟩ := smapsKeyMap_keys entry hentry
    rw [Bool.eq_iff_iff, decide_eq_true_iff, hpre, l.startswith_text _ hcolon,
      List.append_cancel_right_eq, eq_comm]
  rw [fieldOf, ← List.head?_filter, ← List.head?_filter, List.filter_congr hcongr]

section Poll

variable [Python] (pid tsUptimeUs : ℤ)

/-- **A header** ends the region before it and starts another without fields. -/
theorem pollLine_header (s : SmapsParse) (v : Vma) : pollLine pid tsUptimeUs s v.header =
    .ok ⟨(s.emit pid tsUptimeUs).samples, some v.smapsHeader, .empty, none⟩ := by
  rw [pollLine, if_neg v.header_ne_nil, if_pos v.isHeaderLine_header, v.parseHeader_header]

/-- **A line `Key: value`** sets the field of its key. -/
theorem pollLine_value (s : SmapsParse) (l : ValueLine) : ∃ fields : Dict SmapsField ℤ,
    pollLine pid tsUptimeUs s (SmapsLine.value l).text = .ok { s with fields := fields } ∧
      ∀ field : SmapsField, fields.get? field =
        if l.key = field.key then some (l.value : ℤ) else s.fields.get? field := by
  have hflags : ¬ PyStr.startswith (SmapsLine.value l).text "VmFlags:".toList = true := fun h ↦
    l.ne_vmFlags (((SmapsLine.value l).startswith_text "VmFlags".toList (by decide)).1 h)
  have hfind := find?_text (.value l)
  rw [pollLine, if_neg (SmapsLine.value l).text_ne_nil,
    if_neg (by rw [SmapsLine.isHeaderLine_text]; exact Bool.false_ne_true), if_neg hflags]
  rcases hentry : smapsKeyMap.find? fun entry ↦
    PyStr.startswith (SmapsLine.value l).text entry.1 with - | ⟨key, field⟩
  · rw [hentry] at hfind
    refine ⟨s.fields, by simp only [hentry], fun field ↦ (if_neg fun hkey ↦ ?_).symm⟩
    rw [show (SmapsLine.value l).key = field.key from hkey, fieldOf_key] at hfind
    exact absurd hfind (Option.some_ne_none field).symm
  · rw [hentry] at hfind
    have hkey : l.key = field.key := fieldOf_eq_some.1 hfind.symm
    obtain ⟨raw, rest, hsplit⟩ := split_value l
    have hint : parseInt 10 (Nat.toDigits 10 l.value) = .ok (l.value : ℤ) := by
      have hvalue : PyStr.int 10 (Nat.toDigits 10 l.value) = some (l.value : ℤ) :=
        PyStr.int_decimal 0 l.value
      rw [parseInt, hvalue]
    refine ⟨s.fields.set field l.value, ?_, fun field' ↦ ?_⟩
    · simp only [hentry, hsplit, List.getElem?_cons_succ, List.getElem?_cons_zero, hint]
    · have hiff : field = field' ↔ l.key = field'.key := by
        rw [← fieldOf_eq_some, hkey, fieldOf_key, Option.some.injEq]
      rw [Dict.get?_set]
      exact if_congr hiff rfl rfl

/-- **The line of flags** sets the flags. -/
theorem pollLine_vmFlags (s : SmapsParse) (l : FlagsLine) :
    pollLine pid tsUptimeUs s (SmapsLine.vmFlags l).text =
      .ok { s with vmFlags := some l.flags } := by
  have hflags : PyStr.startswith (SmapsLine.vmFlags l).text "VmFlags:".toList = true :=
    ((SmapsLine.vmFlags l).startswith_text "VmFlags".toList (by decide)).2 rfl
  rw [pollLine, if_neg (SmapsLine.vmFlags l).text_ne_nil,
    if_neg (by rw [SmapsLine.isHeaderLine_text]; exact Bool.false_ne_true), if_pos hflags,
    strip_flags]

/-- **The lines of a region** set its fields and its flags, and nothing else. -/
theorem pollLines_lines (s : SmapsParse) (ls : List SmapsLine)
    (hnd : (ls.map SmapsLine.key).Nodup) (rest : List PyStr) :
    ∃ fields : Dict SmapsField ℤ, pollLines pid tsUptimeUs s (ls.map SmapsLine.text ++ rest) =
        pollLines pid tsUptimeUs
          { s with fields := fields, vmFlags := (flagsOf ls).or s.vmFlags } rest ∧
      ∀ field : SmapsField,
        fields.get? field = (valueOf ls field.key).or (s.fields.get? field) := by
  induction ls generalizing s with
  | nil => exact ⟨s.fields, rfl, fun _ ↦ rfl⟩
  | cons l ls ih =>
    rw [List.map_cons, List.nodup_cons] at hnd
    obtain ⟨hkey, hnd⟩ := hnd
    cases l with
    | value l =>
      obtain ⟨fields, hline, hget⟩ := pollLine_value pid tsUptimeUs s l
      obtain ⟨fields', hlines, hget'⟩ := ih { s with fields := fields } hnd
      refine ⟨fields', ?_, fun field ↦ ?_⟩
      · rw [List.map_cons, List.cons_append, pollLines, hline]
        exact hlines
      · rw [hget' field, hget field, valueOf_cons_value]
        -- the key is not printed again, so that its number stays
        split_ifs with heq
        · rw [valueOf_eq_none (heq ▸ hkey), Option.none_or, Option.some_or]
        · rfl
    | vmFlags l =>
      obtain ⟨fields', hlines, hget'⟩ := ih { s with vmFlags := some l.flags } hnd
      refine ⟨fields', ?_, hget'⟩
      rw [List.map_cons, List.cons_append, pollLines, pollLine_vmFlags]
      rw [flagsOf_eq_none hkey] at hlines
      exact hlines

/-- **The regions are appended in order**; what is read of the last one waits for the end. -/
theorem pollLines_vmas (s : SmapsParse) (vmas : List Vma) :
    ∃ s', pollLines pid tsUptimeUs s (vmas.flatMap Vma.text) = .ok s' ∧
      (s'.emit pid tsUptimeUs).samples =
        (s.emit pid tsUptimeUs).samples ++ vmas.map fun v ↦ v.row pid tsUptimeUs := by
  induction vmas generalizing s with
  | nil => exact ⟨s, rfl, (List.append_nil _).symm⟩
  | cons v vmas ih =>
    obtain ⟨fields, hlines, hget⟩ := pollLines_lines pid tsUptimeUs
      ⟨(s.emit pid tsUptimeUs).samples, some v.smapsHeader, .empty, none⟩ v.lines v.distinct
      (vmas.flatMap Vma.text)
    obtain ⟨s', hs', hsamples⟩ := ih ⟨(s.emit pid tsUptimeUs).samples, some v.smapsHeader, fields,
      (flagsOf v.lines).or none⟩
    have hrow : smapsRow pid tsUptimeUs v.smapsHeader fields.get? ((flagsOf v.lines).or none) =
        v.row pid tsUptimeUs := by
      have hfields : fields.get? = fun field ↦ valueOf v.lines field.key := funext fun field ↦ by
        rw [hget field, Dict.get?_empty, Option.or_none]
      rw [hfields, Option.or_none]
      rfl
    refine ⟨s', ?_, ?_⟩
    -- the header emits the region before it, and the next header emits this one
    · rw [List.flatMap_cons, Vma.text, List.cons_append, pollLines, pollLine_header]
      exact hlines.trans hs'
    · rw [hsamples, List.map_cons, ← hrow]
      exact List.append_assoc _ [_] _

end Poll

/-! ### The other parser reads a region -/

namespace Scan

/-- What is known after some lines of a region. -/
def after (s : Scan) (ls : List SmapsLine) : Scan where
  samples := s.samples
  currentStart := s.currentStart
  currentEnd := s.currentEnd
  rssKb := (valueOf ls "Rss".toList).getD s.rssKb
  anonymousKb := (valueOf ls "Anonymous".toList).getD s.anonymousKb
  referencedKb := (valueOf ls "Referenced".toList).getD s.referencedKb
  anonHugepagesKb := (valueOf ls "AnonHugePages".toList).getD s.anonHugepagesKb
  thpEligible := (valueOf ls "THPeligible".toList).getD s.thpEligible
  raPagesKb := (valueOf ls "Ra_pages".toList).getD s.raPagesKb
  raState := (valueOf ls "Ra_state".toList).getD s.raState
  vmFlags := (flagsOf ls).getD s.vmFlags

/-- A number of the first line is the number of all. -/
theorem getD_valueOf_cons {l : SmapsLine} {ls : List SmapsLine}
    (hkey : l.key ∉ ls.map SmapsLine.key) (key : PyStr) (n : ℤ) :
    (valueOf ls key).getD ((valueOf [l] key).getD n) = (valueOf (l :: ls) key).getD n := by
  cases l with
  | value l =>
    rw [valueOf_cons_value, valueOf_cons_value]
    split_ifs with heq
    · rw [valueOf_eq_none (heq ▸ hkey)]
      rfl
    · rfl
  | vmFlags l => rfl

/-- **The lines of a region are read one by one.** -/
theorem after_after (s : Scan) {l : SmapsLine} {ls : List SmapsLine}
    (hkey : l.key ∉ ls.map SmapsLine.key) : (s.after [l]).after ls = s.after (l :: ls) := by
  have hflags : (flagsOf ls).getD ((flagsOf [l]).getD s.vmFlags) =
      (flagsOf (l :: ls)).getD s.vmFlags := by
    cases l with
    | value l => rfl
    | vmFlags l =>
      rw [flagsOf_eq_none hkey]
      rfl
  simp only [after, getD_valueOf_cons hkey, hflags]

end Scan

section Scanning

variable [Python] (pid nowNs : ℤ)

/-- `int(line.split()[1])`. -/
theorem fieldValue_value (l : ValueLine) :
    fieldValue (SmapsLine.value l).text = .ok (l.value : ℤ) := by
  obtain ⟨raw, rest, hsplit⟩ := split_value l
  have hvalue : PyStr.int 10 (Nat.toDigits 10 l.value) = some (l.value : ℤ) :=
    PyStr.int_decimal 0 l.value
  simp only [fieldValue, hsplit, List.getElem?_cons_succ, List.getElem?_cons_zero, parseInt,
    hvalue]

/-- A header, for the other parser. -/
theorem scanLine_header (s : Scan) (v : Vma) : scanLine pid nowNs s v.header =
    .ok ⟨(s.maybeEmit pid nowNs).samples, v.start, v.stop, 0, 0, 0, 0, 0, 0, 0, []⟩ := by
  rw [scanLine, if_neg v.header_ne_nil, v.isHeader_header]
  show (headerBounds v.header).map _ = _
  rw [v.headerBounds_header]
  rfl

/-- The keys that the other parser reads. -/
def scanKeys : List PyStr :=
  ["Rss".toList, "Anonymous".toList, "Referenced".toList, "AnonHugePages".toList,
    "Ra_pages".toList, "Ra_state".toList, "THPeligible".toList]

/-- **One line of a region**, for the other parser. -/
theorem scanLine_text (s : Scan) (l : SmapsLine) :
    scanLine pid nowNs s l.text = .ok (s.after [l]) := by
  -- every test of a prefix is a test of the key
  have hstart (key : PyStr) (hkey : ':' ∉ key) :
      PyStr.startswith l.text (key ++ [':']) = true ↔ l.key = key := l.startswith_text key hkey
  have hrss : PyStr.startswith l.text "Rss:".toList = true ↔ l.key = "Rss".toList :=
    hstart "Rss".toList (by decide)
  have hanon : PyStr.startswith l.text "Anonymous:".toList = true ↔ l.key = "Anonymous".toList :=
    hstart "Anonymous".toList (by decide)
  have href : PyStr.startswith l.text "Referenced:".toList = true ↔ l.key = "Referenced".toList :=
    hstart "Referenced".toList (by decide)
  have hhuge : PyStr.startswith l.text "AnonHugePages:".toList = true ↔
      l.key = "AnonHugePages".toList :=
    hstart "AnonHugePages".toList (by decide)
  have hpages : PyStr.startswith l.text "Ra_pages:".toList = true ↔ l.key = "Ra_pages".toList :=
    hstart "Ra_pages".toList (by decide)
  have hstate : PyStr.startswith l.text "Ra_state:".toList = true ↔ l.key = "Ra_state".toList :=
    hstart "Ra_state".toList (by decide)
  have hthp : PyStr.startswith l.text "THPeligible:".toList = true ↔ l.key = "THPeligible".toList :=
    hstart "THPeligible".toList (by decide)
  have hflags : PyStr.startswith l.text "VmFlags:".toList = true ↔ l.key = "VmFlags".toList :=
    hstart "VmFlags".toList (by decide)
  rw [scanLine, if_neg l.text_ne_nil, l.isHeader_text]
  simp only [Except.bind, Bool.false_eq_true, if_false, hrss, hanon, href, hhuge, hpages, hstate,
    hthp, hflags]
  cases l with
  | value l =>
    simp only [key_value, fieldValue_value, Except.map, Scan.after, valueOf_cons_value,
      flagsOf_cons_value]
    by_cases hread : l.key ∈ scanKeys
    · simp only [scanKeys, List.mem_cons, List.not_mem_nil, or_false] at hread
      rcases hread with hkey | hkey | hkey | hkey | hkey | hkey | hkey <;>
        simp only [hkey, String.toList_inj, String.reduceEq, if_true, if_false, valueOf_nil,
          flagsOf_nil, Option.getD_some, Option.getD_none]
    · simp only [scanKeys, List.mem_cons, List.not_mem_nil, or_false, not_or] at hread
      obtain ⟨hne₁, hne₂, hne₃, hne₄, hne₅, hne₆, hne₇⟩ := hread
      have hne₈ : ¬ l.key = "VmFlags".toList := l.ne_vmFlags
      simp only [hne₁, hne₂, hne₃, hne₄, hne₅, hne₆, hne₇, hne₈, if_false]
      rfl
  | vmFlags l =>
    simp only [strip_flags]
    rfl

/-- The lines of a region, for the other parser. -/
theorem scanLines_lines (s : Scan) (ls : List SmapsLine) (hnd : (ls.map SmapsLine.key).Nodup)
    (rest : List PyStr) : scanLines pid nowNs s (ls.map SmapsLine.text ++ rest) =
      scanLines pid nowNs (s.after ls) rest := by
  induction ls generalizing s with
  | nil => rfl
  | cons l ls ih =>
    rw [List.map_cons, List.nodup_cons] at hnd
    rw [List.map_cons, List.cons_append, scanLines, scanLine_text, ← s.after_after hnd.1]
    exact ih (s.after [l]) hnd.2

omit [Python] in
/-- What the other parser emits of a region. -/
theorem maybeEmit_after (samples : List SmapsVMARegionSample) (v : Vma) :
    ((Scan.after ⟨samples, v.start, v.stop, 0, 0, 0, 0, 0, 0, 0, []⟩ v.lines).maybeEmit
      pid nowNs).samples = samples ++ if v.Huge then [v.sample pid nowNs] else [] := by
  have hstop : ¬ ((v.start : ℤ) = 0 ∧ (v.stop : ℤ) = 0) := fun h ↦ by
    have hlt := v.start_lt_stop
    omega
  have hhuge : v.Huge ↔ ¬ ((valueOf v.lines "AnonHugePages".toList).getD 0 ≤ 0 ∧
      (valueOf v.lines "THPeligible".toList).getD 0 = 0) := by
    rw [Vma.Huge, not_and_or, Int.not_le]
  rw [Scan.maybeEmit]
  refine (congrArg Scan.samples (if_neg hstop)).trans ?_
  by_cases hv : v.Huge
  · rw [if_pos hv]
    exact congrArg Scan.samples (if_neg (hhuge.1 hv))
  · rw [if_neg hv, List.append_nil]
    exact congrArg Scan.samples (if_pos (not_not.1 (mt hhuge.2 hv)))

/-- **The regions that hold huge pages or may hold them** are returned in order. -/
theorem scanLines_vmas (s : Scan) (vmas : List Vma) :
    ∃ s', scanLines pid nowNs s (vmas.flatMap Vma.text) = .ok s' ∧
      (s'.maybeEmit pid nowNs).samples = (s.maybeEmit pid nowNs).samples ++
        (vmas.filter fun v ↦ v.Huge).map fun v ↦ v.sample pid nowNs := by
  induction vmas generalizing s with
  | nil => exact ⟨s, rfl, (List.append_nil _).symm⟩
  | cons v vmas ih =>
    obtain ⟨s', hs', hsamples⟩ := ih (Scan.after
      ⟨(s.maybeEmit pid nowNs).samples, v.start, v.stop, 0, 0, 0, 0, 0, 0, 0, []⟩ v.lines)
    refine ⟨s', ?_, ?_⟩
    · rw [List.flatMap_cons, Vma.text, List.cons_append, scanLines, scanLine_header]
      exact (scanLines_lines pid nowNs _ v.lines v.distinct _).trans hs'
    · rw [hsamples, maybeEmit_after, List.append_assoc, List.filter_cons]
      by_cases hv : v.Huge
      · rw [if_pos hv, if_pos (decide_eq_true hv), List.map_cons]
        rfl
      · rw [if_neg hv, if_neg (by simpa using hv)]
        rfl

end Scanning

/-! ### The result -/

/-- A word has no line break. -/
theorem IsWord.isLineBreak {s : PyStr} (hs : IsWord s) : ∀ c ∈ s, PyStr.isLineBreak c = false :=
  fun c hc ↦ PyStr.isLineBreak_of_isSpace (hs.isSpace c hc)

theorem isLineBreak_replicate (k : ℕ) :
    ∀ c ∈ List.replicate k ' ', PyStr.isLineBreak c = false :=
  fun _ hc ↦ List.eq_of_mem_replicate hc ▸ rfl

theorem Vma.isLineBreak_header (v : Vma) : ∀ c ∈ v.header, PyStr.isLineBreak c = false := by
  have hblank : PyStr.isLineBreak ' ' = false := rfl
  rw [header]
  refine List.forall_mem_append.2 ⟨v.isWord_addrRange.isLineBreak, ?_⟩
  refine List.forall_mem_cons.2 ⟨hblank, List.forall_mem_append.2 ⟨v.isWord_perms.isLineBreak, ?_⟩⟩
  refine List.forall_mem_cons.2 ⟨hblank, List.forall_mem_append.2
    ⟨(isWord_hexEight _).isLineBreak, ?_⟩⟩
  refine List.forall_mem_cons.2 ⟨hblank, List.forall_mem_append.2 ⟨v.isWord_dev.isLineBreak, ?_⟩⟩
  refine List.forall_mem_cons.2 ⟨hblank, List.forall_mem_append.2
    ⟨(isWord_toDigits _).isLineBreak, ?_⟩⟩
  exact List.forall_mem_append.2 ⟨isLineBreak_replicate _, v.oneLine⟩

theorem SmapsLine.isLineBreak_text (l : SmapsLine) :
    ∀ c ∈ l.text, PyStr.isLineBreak c = false := by
  have hblank : PyStr.isLineBreak ' ' = false := rfl
  cases l with
  | value l =>
    have hkey : ∀ c ∈ l.key, PyStr.isLineBreak c = false := fun c hc ↦ by
      rcases l.plain c hc with hc | rfl
      · exact PyStr.isLineBreak_of_isSpace (PyStr.isSpace_of_isAlphanum hc)
      · rfl
    have hunit : ∀ c ∈ l.unit, PyStr.isLineBreak c = false := by
      rw [ValueLine.unit]
      split_ifs
      · exact List.all_iff_forall_prop.1 (by decide)
      · exact fun _ hc ↦ absurd hc List.not_mem_nil
    rw [text_value]
    refine List.forall_mem_append.2 ⟨hkey, List.forall_mem_cons.2 ⟨rfl, List.forall_mem_cons.2
      ⟨hblank, List.forall_mem_append.2 ⟨isLineBreak_replicate _, ?_⟩⟩⟩⟩
    exact List.forall_mem_append.2 ⟨(isWord_toDigits _).isLineBreak, hunit⟩
  | vmFlags l =>
    rw [text_vmFlags]
    exact List.forall_mem_append.2 ⟨List.all_iff_forall_prop.1 (by decide),
      List.forall_mem_cons.2 ⟨hblank, List.forall_mem_append.2
        ⟨l.oneLine, isLineBreak_replicate _⟩⟩⟩

/-- The text of the regions is read back line by line. -/
theorem splitlines_smapsText (vmas : List Vma) :
    PyStr.splitlines (smapsText vmas) = vmas.flatMap Vma.text := by
  refine PyStr.splitlines_flatMap fun line hline ↦ ?_
  obtain ⟨v, -, hline⟩ := List.mem_flatMap.1 hline
  rcases List.mem_cons.1 hline with rfl | hline
  · exact v.isLineBreak_header
  · obtain ⟨l, -, rfl⟩ := List.mem_map.1 hline
    exact l.isLineBreak_text

/-- A sample says of a region what its row says. -/
theorem Vma.shared_sample (v : Vma) (pid tsUptimeUs nowNs : ℤ) :
    (v.sample pid nowNs).shared = (v.row pid tsUptimeUs).shared := rfl

/-- **One row for each region**, and the same regions for the other parser: of the text that the
kernel prints, the hook appends the rows of all regions in order; the other parser returns those
that hold huge pages or may hold them, which are its rows that say so, with the same values. -/
theorem poll_smapsText [Python] {hook : ProcSmapsHook} {proc : List (PyStr × Option PyStr)}
    {pid : ℤ} (htarget : hook.target proc = .ok (some pid)) (vmas : List Vma)
    (tsUptimeUs nowNs : ℤ) :
    ∃ rows samples,
      hook.poll proc (some (smapsText vmas)) tsUptimeUs =
        ({ hook with targetPid := some pid, samples := hook.samples ++ rows }, none) ∧
      rows = vmas.map (fun v ↦ v.row pid tsUptimeUs) ∧
      parseSmaps pid nowNs (some (smapsText vmas)) = .ok samples ∧
      samples = (vmas.filter fun v ↦ v.Huge).map (fun v ↦ v.sample pid nowNs) ∧
      samples.map SmapsVMARegionSample.shared =
        (rows.filter fun r ↦ 0 < r.anonHugepagesKb ∨ r.thpEligible ≠ 0).map
          ProcSmapsVMARegionData.shared := by
  obtain ⟨s, hpoll, hrows⟩ := pollLines_vmas pid tsUptimeUs
    ⟨hook.samples, none, .empty, none⟩ vmas
  obtain ⟨t, hscan, hsamples⟩ := scanLines_vmas pid nowNs .init vmas
  refine ⟨_, _, ?_, rfl, ?_, rfl, ?_⟩
  -- what is read of the last region is emitted at the end
  · rw [ProcSmapsHook.poll, htarget]
    simp only [splitlines_smapsText, hpoll, hrows]
    rfl
  · rw [parseSmaps]
    simp only [splitlines_smapsText, hscan, Except.map, hsamples]
    rfl
  · rw [List.filter_map, List.map_map, List.map_map]
    exact List.map_congr_left fun v _ ↦ v.shared_sample pid tsUptimeUs nowNs

/-- A heap with huge pages. -/
def heapRegion : Vma where
  start := 0x55d0c8000000
  stop := 0x55d0c8200000
  start_lt_stop := by decide
  perms := "rw-p".toList
  isWord_perms := ⟨by decide, List.all_iff_forall_prop.1 (by decide)⟩
  offset := 0
  dev := "00:00".toList
  isWord_dev := ⟨by decide, List.all_iff_forall_prop.1 (by decide)⟩
  inode := 0
  pad := 26
  pathname := "[heap]".toList
  oneLine := List.all_iff_forall_prop.1 (by decide)
  stripped := by decide
  pad_pos _ := by decide
  lines := [
    .value ⟨"Rss".toList, List.all_iff_forall_prop.1 (by decide), by decide, 16, 2048, true⟩,
    .value ⟨"AnonHugePages".toList, List.all_iff_forall_prop.1 (by decide), by decide, 6, 2048,
      true⟩,
    .value ⟨"THPeligible".toList, List.all_iff_forall_prop.1 (by decide), by decide, 11, 1, false⟩,
    .vmFlags ⟨"rd wr mr mw me ac".toList, List.all_iff_forall_prop.1 (by decide), by decide,
      by decide, by decide, 1⟩]
  distinct := by decide

/-- A file whose name looks like a field. -/
def fileRegion : Vma where
  start := 0x7f2a10000000
  stop := 0x7f2a10001000
  start_lt_stop := by decide
  perms := "r--p".toList
  isWord_perms := ⟨by decide, List.all_iff_forall_prop.1 (by decide)⟩
  offset := 0x1000
  dev := "fd:01".toList
  isWord_dev := ⟨by decide, List.all_iff_forall_prop.1 (by decide)⟩
  inode := 42
  pad := 1
  pathname := "/tmp/Rss: 7 kB".toList
  oneLine := List.all_iff_forall_prop.1 (by decide)
  stripped := by decide
  pad_pos _ := by decide
  lines := [
    .value ⟨"Pss_Dirty".toList, List.all_iff_forall_prop.1 (by decide), by decide, 9, 4, true⟩]
  distinct := by decide

/-- Two regions, of a process that was found before. -/
theorem poll_smapsText_twoRegions :
    @ProcSmapsHook.target Python.ascii ⟨some 7, fun _ ↦ false, []⟩ [] = .ok (some 7) ∧
    ∃ rows samples,
      @ProcSmapsHook.poll Python.ascii ⟨some 7, fun _ ↦ false, []⟩ []
          (some (smapsText [heapRegion, fileRegion])) 5 =
        (⟨some 7, fun _ ↦ false, [] ++ rows⟩, none) ∧
      rows = [heapRegion, fileRegion].map (fun v ↦ v.row 7 5) ∧
      @parseSmaps Python.ascii 7 9000 (some (smapsText [heapRegion, fileRegion])) = .ok samples ∧
      samples = ([heapRegion, fileRegion].filter fun v ↦ v.Huge).map (fun v ↦ v.sample 7 9000) ∧
      samples.map SmapsVMARegionSample.shared =
        (rows.filter fun r ↦ 0 < r.anonHugepagesKb ∨ r.thpEligible ≠ 0).map
          ProcSmapsVMARegionData.shared :=
  ⟨rfl, @poll_smapsText Python.ascii ⟨some 7, fun _ ↦ false, []⟩ [] 7 rfl
    [heapRegion, fileRegion] 5 9000⟩

end Thp
