import HugePageResearch.Library.Probes
import HugePageResearch.ProcessTrace.ResidentSet
import HugePageResearch.ProcessTrace.TaskIds

/-!
# The trace of the resident set

`bpf/mm_trace_rss_stat.bpf.c` and `bpf_instrumentation/mm_rss_stat.py`. A change of a counter of an
address space passes a raw tracepoint, which sees the owner of the address space, and a tracepoint,
which sees the counter and its size; a hash under the thread id of the task that runs carries the
one to the other. Each report becomes a row of the table. The reports of different processors are
read in any order.

`rows_perm_iff` is about every interleaving of the changes: the table has one row for each change,
with the owner of the changed address space, exactly if no change starts while another one of its
thread is going on, and the hash has room at each. Under this condition, `clean_rss_pid` makes of
the table what the changes of the process say (`cleanRssPid_of_run`).
-/

namespace ProcessTrace

/-! ### Tables in another order -/

section Order

variable {df df' : List RssRow} {pid : ℤ}

theorem perm_eventsOf (h : df.Perm df') : (eventsOf df pid).Perm (eventsOf df' pid) :=
  h.filter _

/-- The order of the rows has no part in their times. -/
theorem WellTimed.perm (hdf : WellTimed df pid) (h : df.Perm df') : WellTimed df' pid where
  distinct := ((perm_eventsOf h).map _).nodup_iff.1 hdf.distinct
  nonneg r hr := hdf.nonneg r ((perm_eventsOf h).mem_iff.2 hr)

theorem MemberValue.perm {member : PyStr} {t n : ℤ} (hn : MemberValue df pid member t n)
    (h : df.Perm df') : MemberValue df' pid member t n := by
  obtain ⟨v, hv, rfl⟩ := hn
  refine ⟨v, hv.congr fun s x ↦ ?_, rfl⟩
  constructor
  · rintro ⟨r, hr, hx⟩
    exact ⟨r, h.mem_iff.1 hr, hx⟩
  · rintro ⟨r, hr, hx⟩
    exact ⟨r, h.mem_iff.2 hr, hx⟩

/-- **The order of the rows has no part in the resident set.** -/
theorem Timeline.perm {counts : List RssCount} (hcounts : Timeline df pid counts)
    (h : df.Perm df') : Timeline df' pid counts where
  tgid := hcounts.tgid
  increasing := hcounts.increasing
  events := hcounts.events.trans ((perm_eventsOf h).map _)
  count r hr := by
    obtain ⟨file, anon, swap, hcount, hfile, hanon, hswap⟩ := hcounts.count r hr
    exact ⟨file, anon, swap, hcount, hfile.perm h, hanon.perm h, hswap.perm h⟩

end Order

namespace RssStat

/-! ### The probes -/

/-- `struct rss_stat_output`. -/
structure Output where
  pid : BitVec 32
  tgid : BitVec 32
  ts : BitVec 64
  member : BitVec 32
  counterValue : BitVec 64
  deriving DecidableEq

/-- The hash, and what was submitted. -/
structure Maps where
  rssStatHash : Dict (BitVec 32) Output
  rssStatOutput : List Output

/-- The entries of `rss_stat_hash`. -/
def hashSize : ℕ := 32768

/-- `PAGE_SZ`. -/
def pageSz : ℕ := 12

/-- The data of an owner, with zeros for the rest. -/
def stackData (owner : Task) : Output := ⟨owner.pid, owner.tgid, 0, 0, 0⟩

/-- `RAW_TRACEPOINT_PROBE(rss_stat)`, on a change of an address space of `owner`. -/
def rawRssStat (current owner : Task) (m : Maps) : Maps :=
  { m with
    rssStatHash :=
      Hash.insert hashSize m.rssStatHash (current.pidTgid.setWidth 32) (stackData owner) }

/-- The data with a member and its size. -/
def Output.fill (data : Output) (member : BitVec 32) (size ts : BitVec 64) : Output :=
  { data with member, counterValue := size.sshiftRight pageSz, ts }

/-- `TRACEPOINT_PROBE(kmem, rss_stat)`. -/
def kmemRssStat (current : Task) (member : BitVec 32) (size ts : BitVec 64) (m : Maps) : Maps :=
  match m.rssStatHash.get? (current.pidTgid.setWidth 32) with
  | none => m
  | some data =>
    { rssStatHash := m.rssStatHash.erase (current.pidTgid.setWidth 32)
      rssStatOutput := m.rssStatOutput ++ [data.fill member size ts] }

/-! ### The table -/

/-- `MEMBER_ASSIGN_ARR`. -/
def memberAssignArr : List PyStr :=
  ["MM_FILEPAGES".toList, "MM_ANONPAGES".toList, "MM_SWAPENTS".toList, "MM_SHMEMPAGES".toList]

/-- `MEMBER_ASSIGN_ARR[member]`, unless it raises; a negative index counts from the end. -/
def memberName (member : BitVec 32) : Option PyStr :=
  if 0 ≤ member.toInt then memberAssignArr[member.toInt.toNat]?
  else if 0 ≤ member.toInt + memberAssignArr.length then
    memberAssignArr[(member.toInt + memberAssignArr.length).toNat]?
  else none

/-- `_mm_trace_rss_stat_eh`, and the row with the collection's id. A callback that raises adds no
row. -/
def rssStatEh (collectionId : PyStr) (event : Output) : Option RssRow :=
  (memberName event.member).map fun member ↦
    { tgid := event.tgid.toNat, tsNs := event.ts.toNat, member, count := event.counterValue.toNat,
      pid := event.pid.toNat, collectionId }

/-- The rows, where the reports are read in this order. -/
def rows (collectionId : PyStr) (reports : List Output) : List RssRow :=
  reports.filterMap (rssStatEh collectionId)

/-! ### What changes -/

/-- The counters of an address space, in the order of their numbers. -/
inductive Member where
  | filePages
  | anonPages
  | swapEnts
  | shmemPages
  deriving DecidableEq

namespace Member

/-- The number of a counter. -/
def code : Member → BitVec 32
  | filePages => 0
  | anonPages => 1
  | swapEnts => 2
  | shmemPages => 3

/-- The name of a counter. -/
def name : Member → PyStr
  | filePages => "MM_FILEPAGES".toList
  | anonPages => "MM_ANONPAGES".toList
  | swapEnts => "MM_SWAPENTS".toList
  | shmemPages => "MM_SHMEMPAGES".toList

end Member

/-- A change of a counter: the process that owns the address space, and the counter's size in bytes,
which is not negative. -/
structure Change where
  owner : Task
  member : Member
  size : BitVec 64
  nonneg : size.msb = false
  ts : BitVec 64

/-- The row that a change should have: the counter's size in pages of 4096 bytes. -/
def Change.row (collectionId : PyStr) (c : Change) : RssRow where
  tgid := c.owner.tgid.toNat
  tsNs := c.ts.toNat
  member := c.member.name
  count := (c.size.toNat / 4096 : ℕ)
  pid := c.owner.pid.toNat
  collectionId := collectionId

/-- The program and what happens around it. -/
structure World where
  maps : Maps
  /-- The changes between the two probes, by the thread ids of the tasks that make them. -/
  ongoing : List (BitVec 32 × Task)
  /-- The changes that are done. -/
  changes : List Change

/-- Nothing has happened. -/
def World.init : World := ⟨⟨.empty, []⟩, [], []⟩

/-- A task that changes a counter passes a probe. -/
inductive Label where
  | rawRssStat (current owner : Task)
  | kmemRssStat (current : Task) (change : Change)

/-- A probe is passed; only a change that has passed the first one reaches the second one. -/
def step (w : World) : Label → Option World
  | .rawRssStat current owner =>
    some { w with
      maps := rawRssStat current owner w.maps
      ongoing := (current.pid, owner) :: w.ongoing }
  | .kmemRssStat current c =>
    if (current.pid, c.owner) ∈ w.ongoing then
      some { maps := kmemRssStat current c.member.code c.size c.ts w.maps
             ongoing := w.ongoing.erase (current.pid, c.owner)
             changes := w.changes ++ [c] }
    else none

/-- **What is needed**: no other change of the thread is going on, and the hash has room. -/
def Alone (w : World) : Label → Prop
  | .rawRssStat current _ =>
    current.pid ∉ w.ongoing.map Prod.fst ∧ w.maps.rssStatHash.items.length < hashSize
  | .kmemRssStat _ _ => True

instance (w : World) (l : Label) : Decidable (Alone w l) :=
  match l with
  | .rawRssStat _ _ => inferInstanceAs (Decidable (_ ∧ _))
  | .kmemRssStat _ _ => inferInstanceAs (Decidable True)

/-! ### The row of a report -/

section Row

variable {c : Change} {collectionId : PyStr} {cs : List Change}

/-- The report of a change. -/
def Change.report (c : Change) : Output :=
  (stackData c.owner).fill c.member.code c.size c.ts

/-- **The names stand where the numbers say.** -/
theorem memberName_code (m : Member) : memberName m.code = some m.name := by
  cases m with
  | filePages => rfl
  | anonPages => rfl
  | swapEnts => rfl
  | shmemPages => rfl

/-- A size that is not negative, in pages. -/
theorem toNat_sshiftRight_pageSz {size : BitVec 64} (h : size.msb = false) :
    (size.sshiftRight pageSz).toNat = size.toNat / 4096 := by
  rw [BitVec.sshiftRight_eq_of_msb_false h, BitVec.toNat_ushiftRight, Nat.shiftRight_eq_div_pow,
    pageSz]

theorem rssStatEh_report : rssStatEh collectionId c.report = some (c.row collectionId) := by
  have hcount := toNat_sshiftRight_pageSz c.nonneg
  show (memberName c.member.code).map _ = _
  rw [memberName_code]
  show some (RssRow.mk _ _ _) = some (RssRow.mk _ _ _)
  rw [← hcount]
  rfl

/-- **The rows of the changes**, where each is reported. -/
theorem rows_map_report :
    rows collectionId (cs.map Change.report) = cs.map (Change.row collectionId) := by
  rw [rows, List.filterMap_map, ← List.filterMap_eq_map]
  exact congrArg (List.filterMap · cs) (funext fun c ↦ rssStatEh_report)

end Row

/-! ### Runs -/

section Run

variable {w w' t : World} {l : Label} {ls : List Label}

/-- What the second probe sees. -/
abbrev Seen : Type := BitVec 32 × BitVec 64 × BitVec 64

/-- The data with what the second probe sees. -/
def report (data : Output) (seen : Seen) : Output := data.fill seen.1 seen.2.1 seen.2.2

/-- The probes and the changes, as probes with a hash between them. -/
def World.probes (w : World) : Probes.World (BitVec 32) Output Output where
  hash := w.maps.rssStatHash
  reports := w.maps.rssStatOutput
  opened := w.ongoing.map (Prod.map id stackData)
  expected := w.changes.map Change.report

/-- A probe, as one of the two. -/
def Label.probe : Label → Probes.Label (BitVec 32) Output Seen
  | .rawRssStat current owner => .enter current.pid (stackData owner)
  | .kmemRssStat current c =>
    .leave current.pid (stackData c.owner) (c.member.code, c.size, c.ts)

theorem stackData_injective : Function.Injective stackData := by
  rintro ⟨pid, tgid⟩ ⟨pid', tgid'⟩ h
  obtain ⟨hpid, htgid⟩ : pid = pid' ∧ tgid = tgid' :=
    ⟨congrArg Output.pid h, congrArg Output.tgid h⟩
  rw [hpid, htgid]

theorem injective_probes : Function.Injective (Prod.map (id : BitVec 32 → BitVec 32) stackData) :=
  Function.injective_id.prodMap stackData_injective

theorem kmemRssStat_eq (current : Task) (c : Change) (m : Maps) :
    let leave := Probes.leave report current.pid (c.member.code, c.size, c.ts) m.rssStatHash
      m.rssStatOutput
    kmemRssStat current c.member.code c.size c.ts m = ⟨leave.1, leave.2⟩ := by
  intro leave
  show _ = Maps.mk (Probes.leave _ _ _ _ _).1 (Probes.leave _ _ _ _ _).2
  rw [kmemRssStat, Probes.leave, pidTgid_lower]
  cases m.rssStatHash.get? current.pid with
  | none => rfl
  | some data => rfl

/-- **The program is two probes with a hash between them.** -/
theorem step_probes (h : step w l = some w') :
    Probes.step hashSize report w.probes l.probe = some w'.probes := by
  cases l with
  | rawRssStat current owner =>
    obtain rfl := Option.some.inj h
    show some _ = some _
    congr 1
    show Probes.World.mk _ _ _ _ = Probes.World.mk _ _ _ _
    rw [rawRssStat, pidTgid_lower]
    rfl
  | kmemRssStat current c =>
    rw [step] at h
    split_ifs at h with hmem
    obtain rfl := Option.some.inj h
    have hopen : (current.pid, stackData c.owner) ∈ w.probes.opened :=
      List.mem_map_of_mem (f := Prod.map id stackData) hmem
    have hopened : (w.ongoing.erase (current.pid, c.owner)).map (Prod.map id stackData) =
        w.probes.opened.erase (current.pid, stackData c.owner) :=
      List.map_erase injective_probes _
    have hexpected : (w.changes ++ [c]).map Change.report =
        w.probes.expected ++ [c.report] := List.map_append
    show (if (current.pid, stackData c.owner) ∈ w.probes.opened then _ else none) = _
    rw [if_pos hopen]
    show some (Probes.World.mk _ _ (w.probes.opened.erase (current.pid, stackData c.owner))
      (w.probes.expected ++ [c.report])) = _
    rw [← hopened, ← hexpected, kmemRssStat_eq]
    rfl

theorem alone_probes : Probes.Alone hashSize w.probes l.probe ↔ Alone w l := by
  cases l with
  | rawRssStat current owner =>
    show current.pid ∉ (w.ongoing.map (Prod.map id stackData)).map Prod.fst ∧ _ ↔
      current.pid ∉ w.ongoing.map Prod.fst ∧ _
    rw [List.map_map]
    exact Iff.rfl
  | kmemRssStat current c => exact Iff.rfl

/-- The run of the probes. -/
theorem exec_probes (h : Run.exec step .init ls = some t) :
    Run.exec (Probes.step hashSize report) .init (ls.map Label.probe) = some t.probes :=
  Run.exec_map (f := World.probes) (g := Label.probe) (fun _ _ _ ↦ step_probes) h

theorem always_probes (h : Run.exec step .init ls = some t) :
    Run.Always (Probes.step hashSize report) (Probes.Alone hashSize) .init (ls.map Label.probe) ↔
      Run.Always step Alone .init ls := by
  have hprobes := Run.always_map (f := World.probes) (g := Label.probe)
    (Q := Probes.Alone hashSize) (fun _ _ _ ↦ step_probes) h
  exact hprobes.trans (Run.always_congr_of_exec (fun _ _ _ _ ↦ alone_probes) h)

end Run

/-! ### A run with an overlap of two tasks -/

/-- A change of a counter of the process 7. -/
def change (member : Member) (size ts : BitVec 64) (nonneg : size.msb = false) : Change :=
  ⟨⟨7, 7⟩, member, size, nonneg, ts⟩

/-- The process faults a page in while the task 50 swaps three of its pages out. -/
def swappedOut : List Label :=
  [.rawRssStat ⟨7, 7⟩ ⟨7, 7⟩, .rawRssStat ⟨50, 50⟩ ⟨7, 7⟩,
    .kmemRssStat ⟨50, 50⟩ (change .swapEnts 12288 20 (by decide)),
    .kmemRssStat ⟨7, 7⟩ (change .anonPages 8192 10 (by decide))]

/-- The state after it. -/
def swappedOutEnd : World where
  maps := ⟨.empty, [⟨7, 7, 20, 2, 3⟩, ⟨7, 7, 10, 1, 2⟩]⟩
  ongoing := []
  changes := [change .swapEnts 12288 20 (by decide), change .anonPages 8192 10 (by decide)]

/-! ### The table of a run -/

section Table

variable {t : World} {ls : List Label} {collectionId : PyStr} {read : List Output}

/-- Without overlap, each change is reported. -/
theorem output_eq (h : Run.exec step .init ls = some t) (halone : Run.Always step Alone .init ls) :
    t.maps.rssStatOutput = t.changes.map Change.report :=
  Probes.reports_eq_expected (exec_probes h) ((always_probes h).2 halone)

/-- Without overlap, the rows are those of the changes. -/
theorem rows_perm (h : Run.exec step .init ls = some t) (halone : Run.Always step Alone .init ls)
    (hread : read.Perm t.maps.rssStatOutput) :
    (rows collectionId read).Perm (t.changes.map (Change.row collectionId)) := by
  rw [output_eq h halone] at hread
  rw [← rows_map_report]
  exact hread.filterMap _

/-- **The table has a row for each change** of a finished run, with the owner of the changed address
space, exactly if no two changes of a thread overlap and the hash has room at each. -/
theorem rows_perm_iff (h : Run.exec step .init ls = some t) (hfin : t.ongoing = [])
    (hread : read.Perm t.maps.rssStatOutput) :
    (rows collectionId read).Perm (t.changes.map (Change.row collectionId)) ↔
      Run.Always step Alone .init ls := by
  constructor
  · intro hrows
    by_contra halone
    have hopened : t.probes.opened = [] := by
      show t.ongoing.map _ = []
      rw [hfin]
      rfl
    have hshort : t.maps.rssStatOutput.length < (t.changes.map Change.report).length :=
      Probes.length_reports_lt (exec_probes h) hopened fun hprobes ↦
        halone ((always_probes h).1 hprobes)
    have hle : (rows collectionId read).length ≤ read.length := List.length_filterMap_le _ _
    have hlen := hrows.length_eq
    rw [hread.length_eq] at hle
    rw [List.length_map] at hlen hshort
    omega
  · exact fun halone ↦ rows_perm h halone hread

theorem rows_perm_iff_swappedOut :
    (rows [] swappedOutEnd.maps.rssStatOutput.reverse).Perm
        (swappedOutEnd.changes.map (Change.row [])) ↔
      Run.Always step Alone .init swappedOut :=
  rows_perm_iff (rfl : Run.exec step .init swappedOut = some swappedOutEnd) rfl
    (List.reverse_perm _)

/-- **The resident set of a process**, computed from the table of a run whose changes do not
overlap, is that of the changes. -/
theorem cleanRssPid_of_run {pid : ℤ} (S : RssSorts) (h : Run.exec step .init ls = some t)
    (halone : Run.Always step Alone .init ls) (hread : read.Perm t.maps.rssStatOutput)
    (htimed : WellTimed (t.changes.map (Change.row collectionId)) pid) :
    Timeline (t.changes.map (Change.row collectionId)) pid
      (cleanRssPid S (rows collectionId read) pid) := by
  have hperm : (rows collectionId read).Perm (t.changes.map (Change.row collectionId)) :=
    rows_perm h halone hread
  exact ((htimed.perm hperm.symm).timeline S).perm hperm

theorem cleanRssPid_of_swappedOut :
    Timeline (swappedOutEnd.changes.map (Change.row [])) 7
      (cleanRssPid stableSorts (rows [] swappedOutEnd.maps.rssStatOutput.reverse) 7) :=
  cleanRssPid_of_run stableSorts (rfl : Run.exec step .init swappedOut = some swappedOutEnd)
    (by decide) (List.reverse_perm _) ⟨by decide +kernel, by decide +kernel⟩

end Table

end RssStat

end ProcessTrace
