import HugePageResearch.Analysis.Processed
import HugePageResearch.Library.Lists
import Mathlib.Tactic.Positivity

/-!
# Scan events as candidates

What `_augment_candidates_with_scan` makes of a scan event. Its age is taken from the last collapse
of the process in the whole run, and its range from the frame number, shifted as if it counted
ranges of 2 MiB.

## The result

`agesRight_iff`: the ages are those from the latest collapse before the scan, exactly where no
collapse of the process is later.

`rangesRight_iff`: the ranges are the aligned ones that contain the frames, exactly where every
frame number is zero.
-/

namespace Analysis

open Lists Polars Schema

section Events

variable [Python]

/-- `str(row.get("mm", ""))`. -/
def mmOf (f : Frame Unit) (r : Row Unit) : PyStr := toStr (itemD f r "mm".toList (.str []))

omit [Python] in
/-- `ts_ns` of an event. -/
def tsNs (r : Row Unit) : ℤ := Engine.sortKey (r.cells "ts_ns".toList)

omit [Python] in
/-- `pfn` of a scan event. -/
def pfnOf (r : Row Unit) : ℤ := Engine.sortKey (r.cells "pfn".toList)

/-- The process of an event. -/
def Table.mm (t : Table) (r : Row Unit) : PyStr := t.elim [] fun f ↦ mmOf f r

/-- **A process has a collapse** at a time. -/
def CollapsedAt (collapses : Table) (mm : PyStr) (n : ℤ) : Prop :=
  ∃ r ∈ collapses.rows, collapses.mm r = mm ∧ tsNs r = n

/-- **`r` is the candidate of a scan event**, in what merging yields. -/
def ScanCandidate (call : Call) (collectionId : PyStr) (candidates scans collapses : Table)
    (scan r : Row Unit) : Prop :=
  ∃ t, augmentCandidatesWithScan call collectionId candidates scans collapses = .ok t ∧
    r ∈ t.rows ∧ ∃ idx, scans.rows[idx]? = some scan ∧
      r.cells decisionIdColumn = .str (scanId collectionId (idx + 1))

/-- The tables hold what their schemas say, and no candidate has the id of a scan event. -/
structure ScanInputs (collectionId : PyStr) (candidates scans collapses : Table) : Prop where
  candidate : ∀ r ∈ candidates.rows, IsCandidate r
  scan : ∀ r ∈ scans.rows, IntCells scanIntColumns r
  collapse : ∀ r ∈ collapses.rows, IntCells ["ts_ns".toList] r
  disjoint : ∀ id ∈ ids candidates.rows, id ∉ scanIds collectionId scans.rows.length

/-! ### The rows -/

variable {call : Call} {collectionId mm : PyStr} {candidates scans collapses : Table}
  {f : Frame Unit} {rs : List (Row Unit)} {r scan : Row Unit} {byMm d d' : Dict PyStr ℤ}
  {idx : ℕ} {values : List Value} {out : List (List Value)}

omit [Python] in
theorem cells_ts (h : IntCells ["ts_ns".toList] r) : r.cells "ts_ns".toList = .int (tsNs r) := by
  obtain ⟨n, hn⟩ := h _ List.mem_cons_self
  rw [tsNs, hn]
  rfl

/-- **The last collapse of each process**, where the rows come in the order of their times. -/
theorem get?_collapseByMm (h : collapseByMm f rs d = .ok d') (hrs : ∀ r ∈ rs, r ∈ f.rows)
    (hint : ∀ r ∈ rs, IntCells ["ts_ns".toList] r)
    (hsorted : rs.Pairwise fun r r' ↦ tsNs r ≤ tsNs r') (mm : PyStr) :
    (∃ r ∈ rs, mmOf f r = mm ∧ d'.get? mm = some (tsNs r) ∧
      ∀ r' ∈ rs, mmOf f r' = mm → tsNs r' ≤ tsNs r) ∨
    (∀ r ∈ rs, mmOf f r ≠ mm) ∧ d'.get? mm = d.get? mm := by
  induction rs generalizing d with
  | nil =>
    obtain rfl := Except.ok.inj h
    exact .inr ⟨fun _ hr ↦ absurd hr List.not_mem_nil, rfl⟩
  | cons r rs ih =>
    obtain ⟨hr, hrs⟩ := List.forall_mem_cons.1 hrs
    obtain ⟨hhead, htail⟩ := List.forall_mem_cons.1 hint
    obtain ⟨hfirst, hsorted⟩ := List.pairwise_cons.1 hsorted
    rw [collapseByMm, toInt_item hr (cells_ts hhead)] at h
    rcases ih h hrs htail hsorted with ⟨last, hlast, hmm, hget, hmax⟩ | ⟨hnone, hget⟩
    · refine .inl ⟨last, List.mem_cons_of_mem _ hlast, hmm, hget, ?_⟩
      exact List.forall_mem_cons.2 ⟨fun _ ↦ hfirst last hlast, hmax⟩
    · rw [Dict.get?_set] at hget
      split_ifs at hget with hmm
      · refine .inl ⟨r, List.mem_cons_self, hmm, hget, ?_⟩
        exact List.forall_mem_cons.2 ⟨fun _ ↦ le_rfl, fun r' hr' hmm' ↦ absurd hmm' (hnone r' hr')⟩
      · exact .inr ⟨List.forall_mem_cons.2 ⟨hmm, hnone⟩, hget⟩

/-- **What is known of the collapses**: the time of the last one of each process. -/
theorem get?_lastCollapses (h : lastCollapses call collapses = .ok byMm)
    (hint : ∀ r ∈ collapses.rows, IntCells ["ts_ns".toList] r) (mm : PyStr) :
    (∃ n, byMm.get? mm = some n ∧ CollapsedAt collapses mm n ∧
      ∀ n', CollapsedAt collapses mm n' → n' ≤ n) ∨
    byMm.get? mm = none ∧ ∀ n, ¬ CollapsedAt collapses mm n := by
  have hempty : collapses.rows = [] → ∀ n, ¬ CollapsedAt collapses mm n := by
    rintro hnil n ⟨r, hr, -⟩
    exact List.not_mem_nil (hnil ▸ hr)
  rcases collapses with - | f
  · obtain rfl := Except.ok.inj h
    exact .inr ⟨rfl, hempty rfl⟩
  rcases hrows : f.rows with - | ⟨r, rs⟩
  · rw [lastCollapses] at h
    simp only [hrows, if_true] at h
    obtain rfl := Except.ok.inj h
    exact .inr ⟨rfl, hempty hrows⟩
  · have hne : f.rows ≠ [] := hrows ▸ List.cons_ne_nil r rs
    have hr : r ∈ f.rows := hrows ▸ List.mem_cons_self
    have hcol : "ts_ns".toList ∈ f.columns :=
      Frame.mem_columns_of_cell hr (by rw [cells_ts (hint r hr)]; exact Value.noConfusion)
    rw [lastCollapses] at h
    simp only [if_neg hne, Engine.sortBy, if_pos hcol] at h
    have hperm := call.engine.sort_perm "ts_ns".toList f.rows
    have hsorted : (call.engine.sort "ts_ns".toList f.rows).Pairwise
        fun r r' ↦ tsNs r ≤ tsNs r' :=
      (call.engine.sort_sorted "ts_ns".toList f.rows).imp_of_mem fun hr hr' hle ↦
        hle _ _ (cells_ts (hint _ (hperm.mem_iff.1 hr))) (cells_ts (hint _ (hperm.mem_iff.1 hr')))
    rcases get?_collapseByMm h (fun _ hr ↦ hr) (fun r hr ↦ hint r (hperm.mem_iff.1 hr)) hsorted mm
      with ⟨last, hlast, hmm, hget, hmax⟩ | ⟨hnone, hget⟩
    · refine .inl ⟨tsNs last, hget, ⟨last, hperm.mem_iff.1 hlast, hmm, rfl⟩, ?_⟩
      rintro n' ⟨r', hr', hmm', rfl⟩
      exact hmax r' (hperm.mem_iff.2 hr') hmm'
    · refine .inr ⟨hget, ?_⟩
      rintro n ⟨r', hr', hmm', -⟩
      exact hnone r' (hperm.mem_iff.2 hr') hmm'

/-- **The scan rows** are made one by one. -/
theorem getElem?_scanRows (h : scanRows call collectionId byMm f idx rs = .ok out) (i : ℕ) :
    (∃ r values, rs[i]? = some r ∧ out[i]? = some values ∧
      scanRow call collectionId byMm f (idx + i) r = .ok values) ∨
    rs[i]? = none ∧ out[i]? = none := by
  induction rs generalizing idx out i with
  | nil =>
    obtain rfl := Except.ok.inj h
    exact .inr ⟨rfl, rfl⟩
  | cons r rs ih =>
    rw [scanRows] at h
    obtain ⟨values, hvalues, h⟩ := exists_of_bind_eq_ok h
    obtain ⟨rest, hrest, rfl⟩ := exists_of_map_eq_ok h
    cases i with
    | zero => exact .inl ⟨r, values, rfl, rfl, hvalues⟩
    | succ i =>
      rw [List.getElem?_cons_succ, List.getElem?_cons_succ, Nat.add_comm i 1, ← Nat.add_assoc]
      exact ih hrest i

/-- Each is made of the event at its position. -/
theorem mem_scanRows (h : scanRows call collectionId byMm f idx rs = .ok out) :
    values ∈ out ↔
      ∃ i r, rs[i]? = some r ∧ scanRow call collectionId byMm f (idx + i) r = .ok values := by
  rw [List.mem_iff_getElem?]
  constructor
  · rintro ⟨i, hi⟩
    rcases getElem?_scanRows h i with ⟨r, values', hr, hvalues, hmade⟩ | ⟨-, hnone⟩
    · obtain rfl := Option.some.inj (hi.symm.trans hvalues)
      exact ⟨i, r, hr, hmade⟩
    · exact absurd (hi.symm.trans hnone) (Option.some_ne_none values)
  · rintro ⟨i, r, hr, hmade⟩
    rcases getElem?_scanRows h i with ⟨r', values', hr', hvalues, hmade'⟩ | ⟨hnone, -⟩
    · obtain rfl := Option.some.inj (hr.symm.trans hr')
      obtain rfl := Except.ok.inj (hmade.symm.trans hmade')
      exact ⟨i, hvalues⟩
    · exact absurd (hr.symm.trans hnone) (Option.some_ne_none r)

/-- **The values of a scan row.** -/
theorem scanRow_eq (hr : scan ∈ f.rows) (hint : IntCells scanIntColumns scan)
    (h : scanRow call collectionId byMm f idx scan = .ok values) :
    ∃ pid tgid referenced noneOrZero writable status, values =
      [.str (scanId collectionId idx), .int pid, .int tgid, .int (tsNs scan), .str "scan".toList,
        .str (mmOf f scan), .int (pfnOf scan), .int (pfnOf scan * 2 ^ 21),
        .int (pfnOf scan * 2 ^ 21 + 2 * 1024 * 1024),
        .float ((byMm.get? (mmOf f scan)).elim 0 fun ts ↦ call.seconds (tsNs scan - ts)),
        .bool (byMm.get? (mmOf f scan)).isNone, .int referenced, .int noneOrZero, .int writable,
        .int status, .int 0, .int 1, .int 1, .str collectionId] := by
  obtain ⟨pid, hpid⟩ := hint "pid".toList (by decide)
  obtain ⟨tgid, htgid⟩ := hint "tgid".toList (by decide)
  obtain ⟨ts, hts⟩ := hint "ts_ns".toList (by decide)
  obtain ⟨pfn, hpfn⟩ := hint "pfn".toList (by decide)
  obtain ⟨referenced, href⟩ := hint "referenced".toList (by decide)
  obtain ⟨noneOrZero, hnone⟩ := hint "none_or_zero".toList (by decide)
  obtain ⟨writable, hwritable⟩ := hint "writable".toList (by decide)
  obtain ⟨status, hstatus⟩ := hint "status".toList (by decide)
  have htsNs : tsNs scan = ts := by rw [tsNs, hts]; rfl
  have hpfnOf : pfnOf scan = pfn := by rw [pfnOf, hpfn]; rfl
  rw [scanRow, toInt_item hr hts, toInt_item hr hpfn, toInt_item hr hpid, toInt_item hr htgid,
    toInt_itemD hr href, toInt_itemD hr hnone, toInt_itemD hr hwritable, toInt_itemD hr hstatus]
    at h
  obtain rfl := Except.ok.inj h
  rw [htsNs, hpfnOf]
  exact ⟨pid, tgid, referenced, noneOrZero, writable, status, rfl⟩

/-- **What a scan row holds.** -/
theorem cells_scanRow (hr : scan ∈ f.rows) (hint : IntCells scanIntColumns scan)
    (h : scanRow call collectionId byMm f idx scan = .ok values) :
    (Row.ofValues scanColumns values ()).cells decisionIdColumn = .str (scanId collectionId idx) ∧
    (Row.ofValues scanColumns values ()).cells "start_addr".toList =
      .int (pfnOf scan * 2 ^ 21) ∧
    (Row.ofValues scanColumns values ()).cells "end_addr".toList =
      .int (pfnOf scan * 2 ^ 21 + 2 * 1024 * 1024) ∧
    (Row.ofValues scanColumns values ()).cells "age_sec".toList =
      .float ((byMm.get? (mmOf f scan)).elim 0 fun ts ↦ call.seconds (tsNs scan - ts)) ∧
    (Row.ofValues scanColumns values ()).cells "age_censored".toList =
      .bool (byMm.get? (mmOf f scan)).isNone := by
  obtain ⟨pid, tgid, referenced, noneOrZero, writable, status, rfl⟩ := scanRow_eq hr hint h
  exact ⟨rfl, rfl, rfl, rfl, rfl⟩

/-- **The candidate of a scan event** is the row that is made of it. -/
structure IsScanRow (call : Call) (collectionId : PyStr) (scans collapses : Table)
    (f : Frame Unit) (idx : ℕ) (byMm : Dict PyStr ℤ) (scan r : Row Unit) : Prop where
  frame : scans = some f
  event : f.rows[idx]? = some scan
  last : lastCollapses call collapses = .ok byMm
  made : ∃ values, scanRow call collectionId byMm f (idx + 1) scan = .ok values ∧
    r = Row.ofValues scanColumns values ()

/-- There is only one. -/
theorem IsScanRow.eq {f' : Frame Unit} {byMm' : Dict PyStr ℤ} {r' : Row Unit}
    (hrow : IsScanRow call collectionId scans collapses f idx byMm scan r)
    (hrow' : IsScanRow call collectionId scans collapses f' idx byMm' scan r') : r = r' := by
  obtain ⟨rfl, -, hlast, values, hmade, rfl⟩ := hrow
  obtain ⟨hframe, -, hlast', values', hmade', rfl⟩ := hrow'
  obtain rfl := Option.some.inj hframe
  obtain rfl := Except.ok.inj (hlast.symm.trans hlast')
  obtain rfl := Except.ok.inj (hmade.symm.trans hmade')
  rfl

namespace ScanInputs

variable (h : ScanInputs collectionId candidates scans collapses)

include h

omit [Python] in
theorem intCells (hevent : scans.rows[idx]? = some scan) : IntCells scanIntColumns scan :=
  h.scan scan (List.mem_of_getElem? hevent)

/-- The scan rows of the merged table. -/
theorem exists_scanFrame (call : Call) : ∃ scanTable : Table,
    scanFrame call collectionId scans collapses = .ok scanTable ∧
      (∀ r ∈ scanTable.rows, IsCandidate r) ∧
      ∀ r, r ∈ scanTable.rows ↔
        ∃ f idx byMm scan, IsScanRow call collectionId scans collapses f idx byMm scan r := by
  obtain ⟨scanTable, hscan, hcandidate, -⟩ := scanFrame_ok call collectionId h.scan h.collapse
  refine ⟨scanTable, hscan, hcandidate, fun r ↦ ?_⟩
  rcases scans with - | f
  · obtain rfl := Except.ok.inj hscan
    refine ⟨fun hr ↦ absurd hr List.not_mem_nil, ?_⟩
    rintro ⟨f, idx, byMm, scan, hrow⟩
    exact absurd hrow.frame (Option.some_ne_none f).symm
  rw [scanFrame] at hscan
  by_cases hnil : f.rows = []
  · rw [if_pos hnil] at hscan
    obtain rfl := Except.ok.inj hscan
    refine ⟨fun hr ↦ absurd hr List.not_mem_nil, ?_⟩
    rintro ⟨f', idx, byMm, scan, hrow⟩
    obtain rfl := Option.some.inj hrow.frame
    exact absurd (hnil ▸ List.mem_of_getElem? hrow.event) List.not_mem_nil
  · rw [if_neg hnil] at hscan
    obtain ⟨byMm, hlast, hscan⟩ := exists_of_bind_eq_ok hscan
    obtain ⟨out, hout, rfl⟩ := exists_of_map_eq_ok hscan
    rw [rows_scanDf, List.mem_map]
    constructor
    · rintro ⟨values, hvalues, rfl⟩
      obtain ⟨idx, scan, hevent, hmade⟩ := (mem_scanRows hout).1 hvalues
      exact ⟨f, idx, byMm, scan, rfl, hevent, hlast, values, Nat.add_comm 1 idx ▸ hmade, rfl⟩
    · rintro ⟨f', idx, byMm', scan, hframe, hevent, hlast', values, hmade, rfl⟩
      obtain rfl := Option.some.inj hframe
      obtain rfl := Except.ok.inj (hlast.symm.trans hlast')
      rw [Nat.add_comm] at hmade
      exact ⟨values, (mem_scanRows hout).2 ⟨idx, scan, hevent, hmade⟩, rfl⟩

/-- Each event has a scan row. -/
theorem exists_isScanRow (call : Call) (hevent : scans.rows[idx]? = some scan) :
    ∃ f byMm r, IsScanRow call collectionId scans collapses f idx byMm scan r := by
  rcases scans with - | f
  · exact absurd (List.mem_of_getElem? hevent) List.not_mem_nil
  obtain ⟨byMm, hlast⟩ := exists_lastCollapses call h.collapse
  obtain ⟨values, hmade, -⟩ := scanRow_ok call collectionId byMm (idx + 1)
    (List.mem_of_getElem? hevent) (h.intCells hevent)
  exact ⟨f, byMm, _, rfl, hevent, hlast, values, hmade, rfl⟩

/-- The id of a scan row. -/
theorem decisionId_eq {byMm : Dict PyStr ℤ}
    (hrow : IsScanRow call collectionId scans collapses f idx byMm scan r) :
    r.cells decisionIdColumn = .str (scanId collectionId (idx + 1)) := by
  obtain ⟨rfl, hevent, -, values, hmade, rfl⟩ := hrow
  exact (cells_scanRow (List.mem_of_getElem? hevent) (h.intCells hevent) hmade).1

/-- **The candidates of the scan events** are the rows that are made of them. -/
theorem scanCandidate_iff :
    ScanCandidate call collectionId candidates scans collapses scan r ↔
      ∃ f idx byMm, IsScanRow call collectionId scans collapses f idx byMm scan r := by
  obtain ⟨scanTable, hscan, hcandidate, hmem⟩ := h.exists_scanFrame call
  obtain ⟨t, ht, hsub, -, hids⟩ :=
    augmentCandidatesWithScan_of_scanFrame call collectionId h.candidate hscan hcandidate
  -- a row with the id of a scan event is a scan row
  have hof : ∀ {idx scan r}, r ∈ t.rows → scans.rows[idx]? = some scan →
      r.cells decisionIdColumn = .str (scanId collectionId (idx + 1)) →
      ∃ f byMm, IsScanRow call collectionId scans collapses f idx byMm scan r := by
    intro idx scan r hr hevent hid
    rcases List.mem_append.1 (hsub r hr) with hr | hr
    · refine absurd ?_ (h.disjoint _ (List.mem_map.2 ⟨r, hr, hid⟩))
      refine List.mem_map.2 ⟨idx + 1, List.mem_range'_1.2 ⟨Nat.le_add_left _ _, ?_⟩, rfl⟩
      rw [Nat.add_comm 1]
      exact Nat.succ_lt_succ (List.getElem?_eq_some_iff.1 hevent).1
    · obtain ⟨f, idx', byMm, scan', hrow⟩ := (hmem r).1 hr
      have hidx := scanId_injective collectionId
        (Value.str.inj ((h.decisionId_eq hrow).symm.trans hid))
      obtain rfl := Nat.succ.inj hidx
      obtain rfl := hrow.frame
      obtain rfl := Option.some.inj (hrow.event.symm.trans hevent)
      exact ⟨f, byMm, hrow⟩
  constructor
  · rintro ⟨t', ht', hr, idx, hevent, hid⟩
    obtain rfl := Except.ok.inj (ht.symm.trans ht')
    obtain ⟨f, byMm, hrow⟩ := hof hr hevent hid
    exact ⟨f, idx, byMm, hrow⟩
  · rintro ⟨f, idx, byMm, hrow⟩
    have hevent : scans.rows[idx]? = some scan := hrow.frame ▸ hrow.event
    have hid := h.decisionId_eq hrow
    have hmerged : r ∈ candidates.rows ++ scanTable.rows :=
      List.mem_append_right _ ((hmem r).2 ⟨f, idx, byMm, scan, hrow⟩)
    obtain ⟨r', hr', hid'⟩ := List.mem_map.1 ((hids _).2 (List.mem_map.2 ⟨r, hmerged, rfl⟩))
    obtain ⟨f', byMm', hrow'⟩ := hof hr' hevent (hid'.trans hid)
    exact ⟨t, ht, hrow'.eq hrow ▸ hr', idx, hevent, hid⟩

end ScanInputs

/-! ### Ages -/

/-- **The latest collapse** of a process at or before a time. -/
def LatestCollapse (collapses : Table) (mm : PyStr) (t n : ℤ) : Prop :=
  CollapsedAt collapses mm n ∧ n ≤ t ∧ ∀ n', CollapsedAt collapses mm n' → n' ≤ t → n' ≤ n

/-- **The age is that of the latest collapse** at or before the scan, and censored where there is
none. -/
structure AgeRight (seconds : ℤ → ℚ) (collapses : Table) (mm : PyStr) (t : ℤ) (r : Row Unit) :
    Prop where
  censored : ∃ b, r.cells "age_censored".toList = .bool b ∧
    (b = false ↔ ∃ n ≤ t, CollapsedAt collapses mm n)
  age : ∀ n, LatestCollapse collapses mm t n →
    r.cells "age_sec".toList = .float (seconds (t - n))
  nonneg : ∃ q, r.cells "age_sec".toList = .float q ∧ 0 ≤ q

/-- **The ages of the scan candidates are right.** -/
def AgesRight (call : Call) (collectionId : PyStr) (candidates scans collapses : Table) : Prop :=
  ∀ scan ∈ scans.rows, ∀ r,
    ScanCandidate call collectionId candidates scans collapses scan r →
      AgeRight call.seconds collapses (scans.mm scan) (tsNs scan) r

/-- **The age of a scan event** is right where no collapse of its process is later. -/
theorem ageRight_iff (h : ScanInputs collectionId candidates scans collapses)
    (hseconds : ∀ n, call.seconds n < 0 ↔ n < 0) (hscan : scan ∈ scans.rows) :
    (∀ r, ScanCandidate call collectionId candidates scans collapses scan r →
      AgeRight call.seconds collapses (scans.mm scan) (tsNs scan) r) ↔
      ∀ n, CollapsedAt collapses (scans.mm scan) n → n ≤ tsNs scan := by
  constructor
  · intro hright n hcollapse
    obtain ⟨idx, hevent⟩ := List.mem_iff_getElem?.1 hscan
    obtain ⟨f, byMm, r, hrow⟩ := h.exists_isScanRow call hevent
    obtain ⟨q, hq, hnonneg⟩ := (hright r (h.scanCandidate_iff.2 ⟨f, idx, byMm, hrow⟩)).nonneg
    obtain ⟨rfl, -, hlast, values, hmade, rfl⟩ := hrow
    obtain ⟨-, -, -, hsec, -⟩ := cells_scanRow hscan (h.intCells hevent) hmade
    rcases get?_lastCollapses hlast h.collapse (mmOf f scan) with
      ⟨m, hget, -, hmax⟩ | ⟨-, hnone⟩
    · -- the age is that of the last collapse
      rw [hget] at hsec
      obtain rfl := Value.float.inj (hsec.symm.trans hq)
      have hle : ¬ tsNs scan - m < 0 := fun hlt ↦ not_lt.2 hnonneg ((hseconds _).2 hlt)
      exact (hmax n hcollapse).trans (sub_nonneg.1 (not_lt.1 hle))
    · exact absurd hcollapse (hnone n)
  · intro hlater r hcandidate
    obtain ⟨f, idx, byMm, hrow⟩ := h.scanCandidate_iff.1 hcandidate
    obtain ⟨rfl, hevent, hlast, values, hmade, rfl⟩ := hrow
    obtain ⟨-, -, -, hsec, hcensored⟩ := cells_scanRow hscan (h.intCells hevent) hmade
    rcases get?_lastCollapses hlast h.collapse (mmOf f scan) with
      ⟨m, hget, hm, hmax⟩ | ⟨hget, hnone⟩
    · rw [hget] at hsec hcensored
      have hle : m ≤ tsNs scan := hlater m hm
      refine ⟨⟨false, hcensored, fun _ ↦ ⟨m, hle, hm⟩, fun _ ↦ rfl⟩, fun n hn ↦ ?_, _, hsec, ?_⟩
      · rw [hsec, (hmax n hn.1).antisymm (hn.2.2 m hm hle)]
        rfl
      · exact not_lt.1 fun hlt ↦ not_lt.2 (sub_nonneg.2 hle) ((hseconds _).1 hlt)
    · rw [hget] at hsec hcensored
      refine ⟨⟨true, hcensored, fun hb ↦ absurd hb (by decide), ?_⟩, fun n hn ↦ ?_, 0, hsec,
        le_rfl⟩
      · rintro ⟨n, -, hn⟩
        exact absurd hn (hnone n)
      · exact absurd hn.1 (hnone n)

/-- **The ages are right, exactly where no collapse of a scanned process is later than its
scan.** -/
theorem agesRight_iff (call : Call) (collectionId : PyStr) (candidates scans collapses : Table)
    (h : ScanInputs collectionId candidates scans collapses)
    (hseconds : ∀ n, call.seconds n < 0 ↔ n < 0) :
    AgesRight call collectionId candidates scans collapses ↔
      ∀ scan ∈ scans.rows, ∀ n, CollapsedAt collapses (scans.mm scan) n → n ≤ tsNs scan :=
  forall₂_congr fun _ hscan ↦ ageRight_iff h hseconds hscan

/-! ### Ranges -/

/-- A `pfn` that the tracepoint reports: that of a frame, or all ones. -/
def IsPfn (n : ℤ) : Prop := 0 ≤ n ∧ n < 2 ^ 52 ∨ n = 2 ^ 64 - 1

/-- A value of a `UInt64` column. -/
def FitsUInt64 (n : ℤ) : Prop := 0 ≤ n ∧ n < 2 ^ 64

/-- **The range is the aligned one of 2 MiB that contains the frame**, where there is a frame. -/
structure RangeRight (pfn : ℤ) (r : Row Unit) (a b : ℤ) : Prop where
  start : r.cells "start_addr".toList = .int a
  stop : r.cells "end_addr".toList = .int b
  start_fits : FitsUInt64 a
  stop_fits : FitsUInt64 b
  contains : pfn ≠ 2 ^ 64 - 1 → 2 ^ 21 ∣ a ∧ b = a + 2 ^ 21 ∧ a ≤ pfn * 4096 ∧ pfn * 4096 < b

/-- **The ranges of the scan candidates are right.** -/
def RangesRight (call : Call) (collectionId : PyStr) (candidates scans collapses : Table) : Prop :=
  ∀ scan ∈ scans.rows, ∀ r,
    ScanCandidate call collectionId candidates scans collapses scan r →
      ∃ a b, RangeRight (pfnOf scan) r a b

/-- **The range of a scan event** is right where the frame number is zero. -/
theorem rangeRight_iff (h : ScanInputs collectionId candidates scans collapses)
    (hscan : scan ∈ scans.rows) (hpfn : IsPfn (pfnOf scan)) :
    (∀ r, ScanCandidate call collectionId candidates scans collapses scan r →
      ∃ a b, RangeRight (pfnOf scan) r a b) ↔ pfnOf scan = 0 := by
  constructor
  · intro hright
    obtain ⟨idx, hevent⟩ := List.mem_iff_getElem?.1 hscan
    obtain ⟨f, byMm, r, hrow⟩ := h.exists_isScanRow call hevent
    obtain ⟨a, b, hrange⟩ := hright r (h.scanCandidate_iff.2 ⟨f, idx, byMm, hrow⟩)
    obtain ⟨rfl, -, -, values, hmade, rfl⟩ := hrow
    obtain ⟨-, hstart, -⟩ := cells_scanRow hscan (h.intCells hevent) hmade
    have ha : a = pfnOf scan * 2 ^ 21 := Value.int.inj (hrange.start.symm.trans hstart)
    rcases hpfn with ⟨hnonneg, hlt⟩ | hones
    · obtain ⟨-, -, hle, -⟩ := hrange.contains (by omega)
      omega
    · have hfits := hrange.start_fits.2
      rw [ha, hones] at hfits
      omega
  · intro hzero r hcandidate
    obtain ⟨f, idx, byMm, hrow⟩ := h.scanCandidate_iff.1 hcandidate
    obtain ⟨rfl, hevent, -, values, hmade, rfl⟩ := hrow
    obtain ⟨-, hstart, hstop, -⟩ := cells_scanRow hscan (h.intCells hevent) hmade
    rw [hzero] at hstart hstop ⊢
    refine ⟨_, _, hstart, hstop, ⟨by decide, by decide⟩, ⟨by decide, by decide⟩, fun _ ↦ ?_⟩
    exact ⟨by decide, by decide, by decide, by decide⟩

/-- **The ranges are right, exactly where every frame number is zero.** -/
theorem rangesRight_iff (call : Call) (collectionId : PyStr) (candidates scans collapses : Table)
    (h : ScanInputs collectionId candidates scans collapses)
    (hpfn : ∀ scan ∈ scans.rows, IsPfn (pfnOf scan)) :
    RangesRight call collectionId candidates scans collapses ↔
      ∀ scan ∈ scans.rows, pfnOf scan = 0 :=
  forall₂_congr fun scan hscan ↦ rangeRight_iff h hscan (hpfn scan hscan)

end Events

/-! ### One scan event -/

section Examples

/-- A scan event of one process, by its time and its frame. -/
def scanEvent (ts pfn : ℤ) : List Value :=
  [.str ['m'], .int 7, .int 7, .int ts, .int pfn, .int 0, .int 0, .int 0, .int 0]

/-- The table of one scan event. -/
def oneScan (ts pfn : ℤ) : Table :=
  some (Frame.ofRows ("mm".toList :: scanIntColumns) (by decide) (by decide)
    [(scanEvent ts pfn, ())])

/-- The table of one collapse of the process. -/
def oneCollapse (ts : ℤ) : Table :=
  some (Frame.ofRows ["mm".toList, "ts_ns".toList] (by decide) (by decide)
    [([.str ['m'], .int ts], ())])

theorem scanInputs_oneScan (ts pfn ts' : ℤ) :
    ScanInputs ['r'] none (oneScan ts pfn) (oneCollapse ts') where
  candidate _ hr := absurd hr List.not_mem_nil
  scan r hr c hc := by
    rw [List.mem_singleton.1 hr]
    simp only [scanIntColumns, List.mem_cons, List.not_mem_nil, or_false] at hc
    rcases hc with rfl | rfl | rfl | rfl | rfl | rfl | rfl | rfl <;> exact ⟨_, rfl⟩
  collapse r hr c hc := by
    rw [List.mem_singleton.1 hr, List.mem_singleton.1 hc]
    exact ⟨ts', rfl⟩
  disjoint _ hid := absurd hid List.not_mem_nil

theorem plainCall_seconds (n : ℤ) : plainCall.seconds n < 0 ↔ n < 0 := by
  show (n : ℚ) / 10 ^ 9 < 0 ↔ n < 0
  rw [div_lt_iff₀ (by positivity), zero_mul, Int.cast_lt_zero]

theorem agesRight_collapseBefore :
    @AgesRight Python.ascii plainCall ['r'] none (oneScan (5 * 10 ^ 9) 1)
      (oneCollapse (2 * 10 ^ 9)) := by
  refine (@agesRight_iff Python.ascii plainCall ['r'] none _ _ (scanInputs_oneScan _ _ _)
    plainCall_seconds).2 fun scan hscan n hcollapse ↦ ?_
  obtain ⟨r, hr, -, rfl⟩ := hcollapse
  rw [List.mem_singleton.1 hscan, List.mem_singleton.1 hr]
  decide

/-- **A scan before the last collapse has a negative age.** -/
theorem not_agesRight_collapseAfter :
    ¬ @AgesRight Python.ascii plainCall ['r'] none (oneScan (5 * 10 ^ 9) 1)
      (oneCollapse (9 * 10 ^ 9)) := by
  intro h
  have hle := (@ageRight_iff Python.ascii plainCall ['r'] none _ _ _
    (scanInputs_oneScan _ _ _) plainCall_seconds List.mem_cons_self).1
    (h _ List.mem_cons_self) (9 * 10 ^ 9) ⟨_, List.mem_cons_self, rfl, rfl⟩
  exact absurd hle (by decide)

theorem rangesRight_frameZero :
    @RangesRight Python.ascii plainCall ['r'] none (oneScan 5 0) (oneCollapse 2) := by
  refine (@rangesRight_iff Python.ascii plainCall ['r'] none _ _ (scanInputs_oneScan _ _ _)
    fun scan hscan ↦ ?_).2 fun scan hscan ↦ ?_
  · rw [List.mem_singleton.1 hscan]
    exact .inl (by decide)
  · rw [List.mem_singleton.1 hscan]
    rfl

/-- **The range of the second frame does not contain it.** -/
theorem not_rangesRight_frameOne :
    ¬ @RangesRight Python.ascii plainCall ['r'] none (oneScan 5 1) (oneCollapse 2) := by
  intro h
  have hzero := (@rangeRight_iff Python.ascii plainCall ['r'] none _ _ _
    (scanInputs_oneScan _ _ _) List.mem_cons_self (.inl (by decide))).1 (h _ List.mem_cons_self)
  exact absurd hzero (by decide)

end Examples

end Analysis
