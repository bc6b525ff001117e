import HugePageResearch.Python.Text

/-!
# Samples of `/proc/<pid>/smaps`

`_parse_smaps` of `thp_intervention_hook.py`: the regions of a process that hold huge pages or may
hold them, with their counters. A line that looks like the header of a region starts the next one;
what stands in a region's lines is kept until then.
-/

namespace Thp

/-- What parsing raises. -/
inductive ParseError where
  /-- An `IndexError`. -/
  | indexError
  /-- A `ValueError`. -/
  | valueError
  deriving DecidableEq

/-- `SmapsVMARegionSample`. -/
structure SmapsVMARegionSample where
  pid : ℤ
  tgid : ℤ
  tsNs : ℤ
  startAddr : ℤ
  endAddr : ℤ
  rssKb : ℤ
  anonymousKb : ℤ
  referencedKb : ℤ
  anonHugepagesKb : ℤ
  thpEligible : ℤ
  raPagesKb : ℤ
  raState : ℤ
  vmFlags : PyStr
  deriving DecidableEq

/-- `(start_addr, end_addr)`. -/
def SmapsVMARegionSample.key (r : SmapsVMARegionSample) : ℤ × ℤ := (r.startAddr, r.endAddr)

/-- The local variables of `_parse_smaps`. -/
structure Scan where
  samples : List SmapsVMARegionSample
  currentStart : ℤ
  currentEnd : ℤ
  rssKb : ℤ
  anonymousKb : ℤ
  referencedKb : ℤ
  anonHugepagesKb : ℤ
  thpEligible : ℤ
  raPagesKb : ℤ
  raState : ℤ
  vmFlags : PyStr

namespace Scan

/-- The variables before the first line. -/
def init : Scan := ⟨[], 0, 0, 0, 0, 0, 0, 0, 0, 0, []⟩

/-- `maybe_emit()`. -/
def maybeEmit (pid nowNs : ℤ) (s : Scan) : Scan :=
  if s.currentStart = 0 ∧ s.currentEnd = 0 then s
  else if s.anonHugepagesKb ≤ 0 ∧ s.thpEligible = 0 then s
  else { s with
    samples := s.samples ++ [⟨pid, pid, nowNs, s.currentStart, s.currentEnd, s.rssKb,
      s.anonymousKb, s.referencedKb, s.anonHugepagesKb, s.thpEligible, s.raPagesKb, s.raState,
      s.vmFlags⟩] }

end Scan

variable [Python]

/-- `int(s, base)`. -/
def parseInt (base : ℕ) (s : PyStr) : Except ParseError ℤ :=
  match PyStr.int base s with
  | some n => .ok n
  | none => .error .valueError

/-- `int(line.split()[1])`. -/
def fieldValue (line : PyStr) : Except ParseError ℤ :=
  match (PyStr.split line)[1]? with
  | some raw => parseInt 10 raw
  | none => .error .indexError

/-- `"-" in line and line[0].isalnum() and line[1].isalnum()`, for a line that is not empty. -/
def isHeader (line : PyStr) : Except ParseError Bool :=
  match line with
  | [] => .error .indexError
  | c :: rest =>
    if '-' ∈ line ∧ Python.isAlnum c = true then
      match rest with
      | [] => .error .indexError
      | d :: _ => .ok (Python.isAlnum d)
    else .ok false

/-- `head = line.split(maxsplit=1)[0]` and the two numbers of `head.split("-")`. -/
def headerBounds (line : PyStr) : Except ParseError (ℤ × ℤ) :=
  match (PyStr.split line).head? with
  | none => .error .indexError
  | some head =>
    match head.splitOn '-' with
    | [startRaw, endRaw] =>
      (parseInt 16 startRaw).bind fun start ↦ (parseInt 16 endRaw).map fun stop ↦ (start, stop)
    | _ => .error .valueError

/-- One line of the loop. -/
def scanLine (pid nowNs : ℤ) (s : Scan) (line : PyStr) : Except ParseError Scan :=
  if line = [] then .ok s
  else (isHeader line).bind fun header ↦
    if header then
      (headerBounds line).map fun bounds ↦
        ⟨(s.maybeEmit pid nowNs).samples, bounds.1, bounds.2, 0, 0, 0, 0, 0, 0, 0, []⟩
    else if PyStr.startswith line "Rss:".toList then
      (fieldValue line).map fun v ↦ { s with rssKb := v }
    else if PyStr.startswith line "Anonymous:".toList then
      (fieldValue line).map fun v ↦ { s with anonymousKb := v }
    else if PyStr.startswith line "Referenced:".toList then
      (fieldValue line).map fun v ↦ { s with referencedKb := v }
    else if PyStr.startswith line "AnonHugePages:".toList then
      (fieldValue line).map fun v ↦ { s with anonHugepagesKb := v }
    else if PyStr.startswith line "Ra_pages:".toList then
      (fieldValue line).map fun v ↦ { s with raPagesKb := v }
    else if PyStr.startswith line "Ra_state:".toList then
      (fieldValue line).map fun v ↦ { s with raState := v }
    else if PyStr.startswith line "THPeligible:".toList then
      (fieldValue line).map fun v ↦ { s with thpEligible := v }
    else if PyStr.startswith line "VmFlags:".toList then
      .ok { s with vmFlags := PyStr.strip (PyStr.removeAll "VmFlags:".toList 0 line) }
    else .ok s

/-- `for line in lines`. -/
def scanLines (pid nowNs : ℤ) : Scan → List PyStr → Except ParseError Scan
  | s, [] => .ok s
  | s, line :: lines => (scanLine pid nowNs s line).bind fun s ↦ scanLines pid nowNs s lines

/-- `_parse_smaps`; there is no text where the file cannot be read. -/
def parseSmaps (pid nowNs : ℤ) (text : Option PyStr) :
    Except ParseError (List SmapsVMARegionSample) :=
  match text with
  | none => .ok []
  | some raw =>
    (scanLines pid nowNs .init (PyStr.splitlines raw)).map fun s ↦ (s.maybeEmit pid nowNs).samples

end Thp
