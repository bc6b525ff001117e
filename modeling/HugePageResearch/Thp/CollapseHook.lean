import HugePageResearch.Library.Run
import HugePageResearch.Library.Sorts
import HugePageResearch.Python.Text
import Mathlib.Data.List.Sort

/-!
# The hook for collapsed huge pages

`bpf_instrumentation/collapse_huge_page.py` and `data_schema/huge_pages.py`: three outputs of one
program are buffered, the start and the end of each collapse and each scan of a `pmd`. A pop merges
the first two into one table and gives the third as another, and empties all three buffers.

`Engine` is what Polars supplies: which events a frame can be made of, and a sort that need not be
stable. The type of a column is not part of a row.

## The result

`keepsAll_iff`: over a run that ends with a pop, every scan is a row of exactly one popped table and
no pop discards an event (`KeepsAll`), exactly where each pop finds all three buffers empty, or none
of them empty and no trace event that started before every collapse. Where one buffer is empty,
`data` gives nothing and `clear` empties the others; where a trace event is first, it is the first
collapse that is dropped.
-/

namespace Thp.Collapse

open Sorts

/-! ### Events and their handlers -/

/-- `trace_mm_khugepaged_scan_pmd_t`. -/
structure TraceMmKhugepagedScanPmdStruct where
  pid : ℕ
  tgid : ℕ
  startTsNs : ℕ
  endTsNs : ℕ
  mm : ℕ
  page : ℕ
  writeable : ℕ
  referenced : ℕ
  noneOrZero : ℕ
  status : ℕ
  unmapped : ℕ

/-- `collapse_huge_page_t`. -/
structure CollapseHugePageStruct where
  pid : ℕ
  tgid : ℕ
  startTsNs : ℕ
  endTsNs : ℕ
  mm : ℕ
  address : ℕ
  referenced : ℕ
  unmapped : ℕ
  cc : ℕ

/-- `trace_mm_collapse_huge_page_t`. -/
structure TraceMmCollapseHugePageStruct where
  pid : ℕ
  tgid : ℕ
  startTsNs : ℕ
  endTsNs : ℕ
  mm : ℕ
  isolated : ℕ
  status : ℕ

structure TraceMMKhugepagedScanPMDRuntimeData where
  pid : ℤ
  tgid : ℤ
  startTsNs : ℤ
  endTsNs : ℤ
  mm : PyStr
  page : PyStr
  writeable : ℤ
  referenced : ℤ
  noneOrZero : ℤ
  status : ℤ
  unmapped : ℤ
  deriving DecidableEq

structure CollapseHugePageRuntimeData where
  pid : ℤ
  tgid : ℤ
  startTsNs : ℤ
  endTsNs : ℤ
  mm : PyStr
  referenced : ℤ
  address : PyStr
  unmapped : ℤ
  cc : PyStr

structure TraceMMCollapseHugePageRuntimeData where
  pid : ℤ
  tgid : ℤ
  startTsNs : ℤ
  endTsNs : ℤ
  mm : PyStr
  isolated : ℤ
  status : ℤ

/-- The three buffers. -/
structure CollapseHugePageBPFHook where
  collapseHugePages : List CollapseHugePageRuntimeData
  traceMmCollapseHugePages : List TraceMMCollapseHugePageRuntimeData
  traceMmKhugepagedScanPmds : List TraceMMKhugepagedScanPMDRuntimeData

/-- What `_trace_khugepaged_scan_eh` stores. -/
def scanData (event : TraceMmKhugepagedScanPmdStruct) : TraceMMKhugepagedScanPMDRuntimeData where
  pid := event.pid
  tgid := event.tgid
  startTsNs := event.startTsNs
  endTsNs := event.endTsNs
  mm := PyStr.hex event.mm
  page := PyStr.hex event.page
  writeable := event.writeable
  referenced := event.referenced
  noneOrZero := event.noneOrZero
  status := event.status
  unmapped := event.unmapped

/-- What `_collapse_huge_pages_eh` stores. -/
def collapseData (event : CollapseHugePageStruct) : CollapseHugePageRuntimeData where
  pid := event.pid
  tgid := event.tgid
  startTsNs := event.startTsNs
  endTsNs := event.endTsNs
  mm := PyStr.hex event.mm
  address := PyStr.hex event.address
  referenced := event.referenced
  unmapped := event.unmapped
  cc := PyStr.hex event.cc

/-- What `_trace_huge_pages_eh` stores. -/
def traceData (event : TraceMmCollapseHugePageStruct) : TraceMMCollapseHugePageRuntimeData where
  pid := event.pid
  tgid := event.tgid
  startTsNs := event.startTsNs
  endTsNs := event.endTsNs
  mm := PyStr.hex event.mm
  isolated := event.isolated
  status := event.status

namespace CollapseHugePageBPFHook

def new : CollapseHugePageBPFHook := ⟨[], [], []⟩

/-- `_collapse_huge_pages_eh`. -/
def collapseHugePagesEh (h : CollapseHugePageBPFHook) (event : CollapseHugePageStruct) :
    CollapseHugePageBPFHook :=
  { h with collapseHugePages := h.collapseHugePages ++ [collapseData event] }

/-- `_trace_huge_pages_eh`. -/
def traceHugePagesEh (h : CollapseHugePageBPFHook) (event : TraceMmCollapseHugePageStruct) :
    CollapseHugePageBPFHook :=
  { h with traceMmCollapseHugePages := h.traceMmCollapseHugePages ++ [traceData event] }

/-- `_trace_khugepaged_scan_eh`. -/
def traceKhugepagedScanEh (h : CollapseHugePageBPFHook) (event : TraceMmKhugepagedScanPmdStruct) :
    CollapseHugePageBPFHook :=
  { h with traceMmKhugepagedScanPmds := h.traceMmKhugepagedScanPmds ++ [scanData event] }

def clear (_ : CollapseHugePageBPFHook) : CollapseHugePageBPFHook := new

end CollapseHugePageBPFHook

/-! ### What Polars supplies -/

/-- **What Polars supplies.** -/
structure Engine where
  /-- `pl.DataFrame(events)` does not raise. -/
  acceptsCollapse : List CollapseHugePageRuntimeData → Bool
  acceptsTrace : List TraceMMCollapseHugePageRuntimeData → Bool
  acceptsScan : List TraceMMKhugepagedScanPMDRuntimeData → Bool
  /-- `sort("start_ts_ns")`. -/
  sortCollapse : SortBy CollapseHugePageRuntimeData.startTsNs
  sortTrace : SortBy TraceMMCollapseHugePageRuntimeData.startTsNs

/-! ### Tables -/

/-- The columns that `from_tables` keeps of a collapse. -/
structure CollapseColumns where
  pid : ℤ
  tgid : ℤ
  startTsNs : ℤ
  mm : PyStr
  referenced : ℤ
  address : PyStr
  unmapped : ℤ
  cc : PyStr
  collectionId : PyStr

/-- The columns that `from_tables` keeps of a trace event. -/
structure TraceColumns where
  isolated : ℤ
  status : ℤ

/-- `collapse_df.drop(["end_ts_ns"])`, of one row. -/
def collapseColumns (collectionId : PyStr) (c : CollapseHugePageRuntimeData) : CollapseColumns :=
  ⟨c.pid, c.tgid, c.startTsNs, c.mm, c.referenced, c.address, c.unmapped, c.cc, collectionId⟩

/-- `trace_mm_df.drop([...])`, of one row. -/
def traceColumns (t : TraceMMCollapseHugePageRuntimeData) : TraceColumns := ⟨t.isolated, t.status⟩

/-- What `pop_data` gives. -/
inductive Table where
  | collapseHugepage (rows : List (CollapseColumns × TraceColumns))
  | traceMmKhugepagedScanPmd (rows : List (TraceMMKhugepagedScanPMDRuntimeData × PyStr))

variable (E : Engine) (collectionId : PyStr)

/-- `CollapseHugePageDataTable.from_tables`, if it does not raise. -/
def fromTables (collapses : List CollapseHugePageRuntimeData)
    (traces : List TraceMMCollapseHugePageRuntimeData) :
    Option (List (CollapseColumns × TraceColumns)) :=
  match E.sortCollapse.sort collapses, E.sortTrace.sort traces with
  | c :: cs, t :: ts =>
    let collapseDf := if t.startTsNs < c.startTsNs then cs else c :: cs
    if collapseDf.length = (t :: ts).length then
      some ((collapseDf.map (collapseColumns collectionId)).zip ((t :: ts).map traceColumns))
    else none
  -- there is no `row(0)`
  | _, _ => none

namespace CollapseHugePageBPFHook

/-- `data`, if it does not raise. -/
def data (h : CollapseHugePageBPFHook) : Option (List Table) :=
  if h.collapseHugePages.isEmpty ∨ h.traceMmCollapseHugePages.isEmpty ∨
      h.traceMmKhugepagedScanPmds.isEmpty then
    some []
  else if E.acceptsCollapse h.collapseHugePages ∧ E.acceptsTrace h.traceMmCollapseHugePages ∧
      E.acceptsScan h.traceMmKhugepagedScanPmds then
    (fromTables E collectionId h.collapseHugePages h.traceMmCollapseHugePages).map fun rows ↦
      [.collapseHugepage rows,
        .traceMmKhugepagedScanPmd (h.traceMmKhugepagedScanPmds.map (·, collectionId))]
  else none

end CollapseHugePageBPFHook

/-! ### Runs -/

/-- What is delivered to the hook, and a call of `pop_data`. -/
inductive Event where
  | collapse (event : CollapseHugePageStruct)
  | trace (event : TraceMmCollapseHugePageStruct)
  | scan (event : TraceMmKhugepagedScanPmdStruct)
  | pop

/-- The hook, and the tables that were popped. -/
structure State where
  hook : CollapseHugePageBPFHook
  popped : List Table

/-- One event. A pop that raises is not a step. -/
def step (s : State) : Event → Option State
  | .collapse event => some { s with hook := s.hook.collapseHugePagesEh event }
  | .trace event => some { s with hook := s.hook.traceHugePagesEh event }
  | .scan event => some { s with hook := s.hook.traceKhugepagedScanEh event }
  | .pop => (s.hook.data E collectionId).map fun tables ↦ ⟨s.hook.clear, s.popped ++ tables⟩

def init : State := ⟨.new, []⟩

/-! ### What is expected -/

/-- The scans among the rows of a table. -/
def Table.scans : Table → List TraceMMKhugepagedScanPMDRuntimeData
  | .collapseHugepage _ => []
  | .traceMmKhugepagedScanPmd rows => rows.map Prod.fst

/-- The rows of the merged table. -/
def Table.merged : Table → List (CollapseColumns × TraceColumns)
  | .collapseHugepage rows => rows
  | .traceMmKhugepagedScanPmd _ => []

/-- The scan that an event delivers. -/
def Event.scanned : Event → Option TraceMMKhugepagedScanPMDRuntimeData
  | .scan event => some (scanData event)
  | _ => none

/-- The scans that a run delivers. -/
def delivered (es : List Event) : List TraceMMKhugepagedScanPMDRuntimeData :=
  es.filterMap Event.scanned

/-- **The tables hold every event of the buffers**: each scan is a row, and each collapse and each
trace event is part of one. -/
structure Holds (h : CollapseHugePageBPFHook) (tables : List Table) : Prop where
  scans : tables.flatMap Table.scans = h.traceMmKhugepagedScanPmds
  collapses : ((tables.flatMap Table.merged).map Prod.fst).Perm
    (h.collapseHugePages.map (collapseColumns collectionId))
  traces : ((tables.flatMap Table.merged).map Prod.snd).Perm
    (h.traceMmCollapseHugePages.map traceColumns)

/-- A pop gives back what it clears. -/
def DiscardsNothing (s : State) : Event → Prop
  | .pop => ∀ tables, s.hook.data E collectionId = some tables → Holds collectionId s.hook tables
  | _ => True

/-- **What is expected of a run** that ends in the given state: the scans of the popped tables are
those that were delivered, each in one row of one table, and no pop discards an event. -/
structure KeepsAll (es : List Event) (t : State) : Prop where
  scans : t.popped.flatMap Table.scans = delivered es
  discards : Run.Always (step E collectionId) (DiscardsNothing E collectionId) init es

/-- A trace event that started before every collapse. -/
def TraceFirst (h : CollapseHugePageBPFHook) : Prop :=
  ∃ t ∈ h.traceMmCollapseHugePages, ∀ c ∈ h.collapseHugePages, t.startTsNs < c.startTsNs

/-- **The condition**: a pop finds all three buffers empty, or none, and then the events in
order. -/
def InStep (s : State) : Event → Prop
  | .pop =>
    s.hook.collapseHugePages = [] ∧ s.hook.traceMmCollapseHugePages = [] ∧
      s.hook.traceMmKhugepagedScanPmds = [] ∨
    s.hook.collapseHugePages ≠ [] ∧ s.hook.traceMmCollapseHugePages ≠ [] ∧
      s.hook.traceMmKhugepagedScanPmds ≠ [] ∧ ¬ TraceFirst s.hook
  | _ => True

instance (h : CollapseHugePageBPFHook) : Decidable (TraceFirst h) :=
  inferInstanceAs (Decidable (∃ t ∈ _, _))

instance (s : State) : ∀ e, Decidable (InStep s e)
  | .pop => inferInstanceAs (Decidable (_ ∨ _))
  | .collapse _ | .trace _ | .scan _ => inferInstanceAs (Decidable True)

/-! ### The merge -/

variable {E : Engine} {collectionId : PyStr} {h : CollapseHugePageBPFHook} {tables : List Table}
  {collapses : List CollapseHugePageRuntimeData} {traces : List TraceMMCollapseHugePageRuntimeData}
  {rows : List (CollapseColumns × TraceColumns)}

/-- What the comparison of the two first rows says of the two lists. -/
theorem traceFirst_iff {c : CollapseHugePageRuntimeData} {cs : List CollapseHugePageRuntimeData}
    {t : TraceMMCollapseHugePageRuntimeData} {ts : List TraceMMCollapseHugePageRuntimeData}
    (hc : E.sortCollapse.sort h.collapseHugePages = c :: cs)
    (ht : E.sortTrace.sort h.traceMmCollapseHugePages = t :: ts) :
    t.startTsNs < c.startTsNs ↔ TraceFirst h := by
  obtain ⟨hc, hcmin⟩ := E.sortCollapse.head_le hc
  obtain ⟨ht, htmin⟩ := E.sortTrace.head_le ht
  constructor
  · exact fun hlt ↦ ⟨t, ht, fun c' hc' ↦ Int.lt_of_lt_of_le hlt (hcmin c' hc')⟩
  · rintro ⟨t', ht', hlt⟩
    exact Int.lt_of_le_of_lt (htmin t' ht') (hlt c hc)

/-- The two frames that are put side by side. -/
theorem exists_of_fromTables (hrows : fromTables E collectionId collapses traces = some rows) :
    ∃ c cs t ts collapseDf, E.sortCollapse.sort collapses = c :: cs ∧
      E.sortTrace.sort traces = t :: ts ∧
      collapseDf = (if t.startTsNs < c.startTsNs then cs else c :: cs) ∧
      collapseDf.length = (t :: ts).length ∧
      rows = (collapseDf.map (collapseColumns collectionId)).zip ((t :: ts).map traceColumns) := by
  rw [fromTables] at hrows
  split at hrows
  · rename_i c cs t ts hc ht
    obtain ⟨hlen, hrows⟩ := Option.ite_none_right_eq_some.1 hrows
    exact ⟨c, cs, t, ts, _, hc, ht, rfl, hlen, (Option.some.inj hrows).symm⟩
  · cases hrows

/-- **What the merged table holds**: all trace events, and all collapses unless a trace event was
first; then one less. -/
theorem fromTables_spec (hrows : fromTables E collectionId h.collapseHugePages
      h.traceMmCollapseHugePages = some rows) :
    (rows.map Prod.snd).Perm (h.traceMmCollapseHugePages.map traceColumns) ∧
      (¬ TraceFirst h → (rows.map Prod.fst).Perm
        (h.collapseHugePages.map (collapseColumns collectionId))) ∧
      (TraceFirst h → rows.length + 1 = h.collapseHugePages.length) := by
  obtain ⟨c, cs, t, ts, collapseDf, hc, ht, hdf, hlen, rfl⟩ := exists_of_fromTables hrows
  rw [← traceFirst_iff hc ht]
  have hcperm : (c :: cs).Perm h.collapseHugePages := hc ▸ E.sortCollapse.perm _
  have htperm : (t :: ts).Perm h.traceMmCollapseHugePages := ht ▸ E.sortTrace.perm _
  have hmap : (collapseDf.map (collapseColumns collectionId)).length =
      ((t :: ts).map traceColumns).length := by
    rw [List.length_map, List.length_map, hlen]
  refine ⟨?_, fun hfirst ↦ ?_, fun hfirst ↦ ?_⟩
  · rw [List.map_snd_zip hmap.ge]
    exact htperm.map traceColumns
  · rw [List.map_fst_zip hmap.le, hdf, if_neg hfirst]
    exact hcperm.map (collapseColumns collectionId)
  · rw [List.length_zip, ← hmap, Nat.min_self, List.length_map, hdf, if_pos hfirst,
      ← hcperm.length_eq]
    rfl

/-! ### A pop -/

/-- **What a pop that does not raise gives.** -/
theorem data_cases (hd : h.data E collectionId = some tables) :
    ((h.collapseHugePages = [] ∨ h.traceMmCollapseHugePages = [] ∨
        h.traceMmKhugepagedScanPmds = []) ∧ tables = []) ∨
      (h.collapseHugePages ≠ [] ∧ h.traceMmCollapseHugePages ≠ [] ∧
        h.traceMmKhugepagedScanPmds ≠ []) ∧
      ∃ rows, fromTables E collectionId h.collapseHugePages h.traceMmCollapseHugePages =
          some rows ∧
        tables = [.collapseHugepage rows,
          .traceMmKhugepagedScanPmd (h.traceMmKhugepagedScanPmds.map (·, collectionId))] := by
  rw [CollapseHugePageBPFHook.data] at hd
  simp only [List.isEmpty_iff] at hd
  split_ifs at hd with hempty haccepts
  · exact .inl ⟨hempty, (Option.some.inj hd).symm⟩
  · rw [not_or, not_or] at hempty
    obtain ⟨rows, hrows, rfl⟩ := Option.map_eq_some_iff.1 hd
    exact .inr ⟨hempty, rows, hrows, rfl⟩

/-- **When the tables of a pop hold every event.** -/
theorem holds_iff {s : State} (hd : s.hook.data E collectionId = some tables) :
    Holds collectionId s.hook tables ↔ InStep s .pop := by
  rcases data_cases hd with ⟨hempty, rfl⟩ | ⟨hne, rows, hrows, rfl⟩
  · constructor
    · intro hholds
      refine .inl ⟨?_, ?_, hholds.scans.symm⟩
      · exact List.map_eq_nil_iff.1 (List.nil_perm.1 hholds.collapses)
      · exact List.map_eq_nil_iff.1 (List.nil_perm.1 hholds.traces)
    · rintro (⟨hc, ht, hs⟩ | ⟨hc, ht, hs, -⟩)
      · exact ⟨hs.symm, by rw [hc]; exact .nil, by rw [ht]; exact .nil⟩
      · exact absurd hempty (by simp [hc, ht, hs])
  · obtain ⟨htraces, hall, hless⟩ := fromTables_spec hrows
    have hmerged : [Table.collapseHugepage rows, .traceMmKhugepagedScanPmd
        (s.hook.traceMmKhugepagedScanPmds.map (·, collectionId))].flatMap Table.merged = rows :=
      List.append_nil rows
    constructor
    · intro hholds
      refine .inr ⟨hne.1, hne.2.1, hne.2.2, fun hfirst ↦ ?_⟩
      have hlen := hholds.collapses.length_eq
      rw [hmerged, List.length_map, List.length_map, ← hless hfirst] at hlen
      omega
    · rintro (⟨hc, -⟩ | ⟨-, -, -, hfirst⟩)
      · exact absurd hc hne.1
      · refine ⟨?_, by rw [hmerged]; exact hall hfirst, by rw [hmerged]; exact htraces⟩
        simp [Table.scans, Function.comp_def]

/-! ### Runs -/

/-- The scans that were popped, and then those that are buffered. -/
def State.scans (s : State) : List TraceMMKhugepagedScanPMDRuntimeData :=
  s.popped.flatMap Table.scans ++ s.hook.traceMmKhugepagedScanPmds

variable {s t : State} {es : List Event}

/-- **Where no pop discards anything**, a run adds to the scans what it delivers. -/
theorem scans_exec (hrun : Run.exec (step E collectionId) s es = some t)
    (hkept : Run.Always (step E collectionId) (DiscardsNothing E collectionId) s es) :
    t.scans = s.scans ++ delivered es := by
  induction es generalizing s with
  | nil =>
    obtain rfl := Option.some.inj hrun
    exact (List.append_nil _).symm
  | cons e es ih =>
    obtain ⟨s', hs', hrest⟩ := Run.exec_cons.1 hrun
    rw [ih hrest (hkept.2 s' hs')]
    cases e with
    | collapse event =>
      obtain rfl := Option.some.inj hs'
      rfl
    | trace event =>
      obtain rfl := Option.some.inj hs'
      rfl
    | scan event =>
      obtain rfl := Option.some.inj hs'
      show s.popped.flatMap Table.scans ++ (s.hook.traceMmKhugepagedScanPmds ++ [scanData event]) ++
        delivered es = s.scans ++ scanData event :: delivered es
      rw [State.scans, ← List.append_assoc, List.append_assoc _ [_]]
      rfl
    | pop =>
      obtain ⟨tables, hd, rfl⟩ := Option.map_eq_some_iff.1 hs'
      have hholds := hkept.1 tables hd
      show (s.popped ++ tables).flatMap Table.scans ++ [] ++ delivered es = s.scans ++ delivered es
      rw [List.flatMap_append, hholds.scans, List.append_nil, State.scans]

/-- A run that ends with a pop leaves nothing buffered. -/
theorem traceMmKhugepagedScanPmds_of_pop
    (hrun : Run.exec (step E collectionId) s (es ++ [.pop]) = some t) :
    t.hook.traceMmKhugepagedScanPmds = [] := by
  obtain ⟨s', -, hlast⟩ := Run.exists_of_exec_append hrun
  obtain ⟨t', hpop, hnil⟩ := Run.exec_cons.1 hlast
  obtain rfl := Option.some.inj hnil
  obtain ⟨tables, -, rfl⟩ := Option.map_eq_some_iff.1 hpop
  rfl

/-- **When the pops of a run give back every event**: if and only if every pop finds the buffers in
step. -/
theorem keepsAll_iff (E : Engine) (collectionId : PyStr) (es : List Event) {t : State}
    (hrun : Run.exec (step E collectionId) init (es ++ [.pop]) = some t) :
    KeepsAll E collectionId (es ++ [.pop]) t ↔
      Run.Always (step E collectionId) InStep init (es ++ [.pop]) := by
  have hsame : Run.Always (step E collectionId) (DiscardsNothing E collectionId) init
      (es ++ [.pop]) ↔ Run.Always (step E collectionId) InStep init (es ++ [.pop]) := by
    refine Run.always_congr_of_exec (fun s e s' hs' ↦ ?_) hrun
    cases e with
    | pop =>
      obtain ⟨tables, hd, rfl⟩ := Option.map_eq_some_iff.1 hs'
      rw [← holds_iff hd]
      refine ⟨fun hall ↦ hall tables hd, fun hholds tables' hd' ↦ ?_⟩
      obtain rfl := Option.some.inj (hd.symm.trans hd')
      exact hholds
    | _ => exact Iff.rfl
  refine ⟨fun hkeeps ↦ hsame.1 hkeeps.discards, fun hstep ↦ ⟨?_, hsame.2 hstep⟩⟩
  have hscans := scans_exec hrun (hsame.2 hstep)
  rwa [State.scans, traceMmKhugepagedScanPmds_of_pop hrun, List.append_nil] at hscans

/-! ### Examples -/

/-- A frame of each kind of event, and a stable sort. -/
def stableEngine : Engine where
  acceptsCollapse _ := true
  acceptsTrace _ := true
  acceptsScan _ := true
  sortCollapse := .ofInsertionSort _
  sortTrace := .ofInsertionSort _

/-- A collapse, its end and a scan. -/
def collapseEvent : Event := .collapse ⟨7, 7, 1000, 1010, 4096, 2097152, 0, 0, 8192⟩
def traceEvent : Event := .trace ⟨7, 7, 2000, 2010, 4096, 1, 1⟩
def scanEvent : Event := .scan ⟨7, 7, 500, 510, 4096, 12288, 1, 512, 0, 1, 0⟩

/-- With all three in its interval, a pop gives all of them back. -/
theorem keepsAll_iff_inStep : ∃ t, Run.exec (step stableEngine []) init
      ([scanEvent, collapseEvent, traceEvent] ++ [.pop]) = some t ∧
    KeepsAll stableEngine [] ([scanEvent, collapseEvent, traceEvent] ++ [.pop]) t := by
  obtain ⟨t, ht⟩ : ∃ t, Run.exec (step stableEngine []) init
      ([scanEvent, collapseEvent, traceEvent] ++ [.pop]) = some t := ⟨_, rfl⟩
  exact ⟨t, ht, (keepsAll_iff stableEngine [] _ ht).2 (by decide +kernel)⟩

/-- A scan in an interval without a collapse is cleared and in no table. -/
theorem not_keepsAll_scanOnly : ∃ t, Run.exec (step stableEngine []) init ([scanEvent] ++ [.pop]) =
    some t ∧ t.popped = [] ∧ ¬ KeepsAll stableEngine [] ([scanEvent] ++ [.pop]) t :=
  ⟨_, rfl, rfl, fun hkeeps ↦ absurd hkeeps.scans (by decide)⟩

end Thp.Collapse
