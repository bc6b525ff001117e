import HugePageResearch.Library.Sorts
import HugePageResearch.Thp.CollapseHook
import Mathlib.Data.List.Nodup

/-!
# Which rows are put side by side

`CollapseHugePageDataTable.from_tables` sorts the collapses and the trace events by their start,
drops the first collapse if a trace event is before it, and puts the two frames side by side by
position. A call of `collapse_huge_page` gives a collapse when it starts and a trace event later; a
recording, or the part of it that one pop takes, has the rows of a window of time, so that it has
one row only of a call that is cut.

## The result

`pairsCalls_iff`: however Polars sorts rows of equal times, the tables of a recording are merged and
each row has both halves of one call, exactly where the recording has a call, no call is cut, and of
two calls the one that does not start later has the earlier trace event. The row that is dropped is
one of the wrong table: a trace event that is first has lost its collapse.
-/

namespace Thp.Collapse

open Sorts

/-! ### Recordings -/

/-- A call of `collapse_huge_page`, by the two rows that it gives. The probe of the trace event does
not set its `mm`, so that nothing but the call says that the two belong together. -/
structure Call where
  collapse : CollapseHugePageRuntimeData
  trace : TraceMMCollapseHugePageRuntimeData
  later : collapse.startTsNs < trace.startTsNs

/-- **A recording**: the rows of some calls, in any order, that fall into a window of time. A row
belongs to one call. -/
structure Recording where
  calls : List Call
  opened : ℤ
  closed : ℤ
  collapses : List CollapseHugePageRuntimeData
  traces : List TraceMMCollapseHugePageRuntimeData
  distinct : calls.Pairwise fun x y ↦ x.collapse ≠ y.collapse ∧ x.trace ≠ y.trace
  perm_collapses : collapses.Perm ((calls.filter fun x ↦
    opened ≤ x.collapse.startTsNs ∧ x.collapse.startTsNs < closed).map Call.collapse)
  perm_traces : traces.Perm ((calls.filter fun x ↦
    opened ≤ x.trace.startTsNs ∧ x.trace.startTsNs < closed).map Call.trace)

/-- A time falls into the window. -/
def Recording.Records (R : Recording) (ts : ℤ) : Prop := R.opened ≤ ts ∧ ts < R.closed

instance (R : Recording) : DecidablePred R.Records :=
  fun _ ↦ inferInstanceAs (Decidable (_ ∧ _))

/-- The rows that `from_tables` puts side by side, before it drops columns. -/
def pairedRows (E : Engine) (collapses : List CollapseHugePageRuntimeData)
    (traces : List TraceMMCollapseHugePageRuntimeData) :
    Option (List (CollapseHugePageRuntimeData × TraceMMCollapseHugePageRuntimeData)) :=
  match E.sortCollapse.sort collapses, E.sortTrace.sort traces with
  | c :: cs, t :: ts =>
    let collapseDf := if t.startTsNs < c.startTsNs then cs else c :: cs
    if collapseDf.length = (t :: ts).length then some (collapseDf.zip (t :: ts)) else none
  | _, _ => none

/-- **`from_tables` gives their columns.** -/
theorem fromTables_eq_pairedRows (E : Engine) (collectionId : PyStr)
    (collapses : List CollapseHugePageRuntimeData)
    (traces : List TraceMMCollapseHugePageRuntimeData) :
    fromTables E collectionId collapses traces = (pairedRows E collapses traces).map fun pairs ↦
      pairs.map fun p ↦ (collapseColumns collectionId p.1, traceColumns p.2) := by
  rw [fromTables, pairedRows]
  cases E.sortCollapse.sort collapses with
  | nil => rfl
  | cons c cs =>
    cases E.sortTrace.sort traces with
    | nil => rfl
    | cons t ts =>
      show (if _ then _ else _) = Option.map _ (if _ then _ else _)
      split_ifs
      all_goals first | rfl | rw [Option.map_some, List.zip_map]; rfl

/-- **The rows pair calls**: whenever the tables are merged, each row has both halves of one call,
and they are merged. -/
structure PairsCalls (E : Engine) (collectionId : PyStr) (R : Recording) : Prop where
  pairs : ∀ pairs, pairedRows E R.collapses R.traces = some pairs →
    ∀ p ∈ pairs, ∃ x ∈ R.calls, x.collapse = p.1 ∧ x.trace = p.2
  returns : ∃ rows, fromTables E collectionId R.collapses R.traces = some rows

/-- **What pairing needs**: there is a call, none is cut, and they end as they start. -/
structure Whole (R : Recording) : Prop where
  nonempty : ∃ x ∈ R.calls, R.Records x.collapse.startTsNs
  uncut : ∀ x ∈ R.calls, R.Records x.collapse.startTsNs ↔ R.Records x.trace.startTsNs
  ordered : ∀ x ∈ R.calls, ∀ y ∈ R.calls, R.Records x.collapse.startTsNs →
    R.Records y.collapse.startTsNs → x ≠ y → x.collapse.startTsNs ≤ y.collapse.startTsNs →
    x.trace.startTsNs < y.trace.startTsNs

/-! ### The rows of a recording -/

section Rows

variable {R : Recording} {x y : Call}

theorem Recording.eq_of_collapse (R : Recording) (hx : x ∈ R.calls) (hy : y ∈ R.calls)
    (h : x.collapse = y.collapse) : x = y :=
  List.inj_on_of_nodup_map (List.pairwise_map.2 (R.distinct.imp And.left)) hx hy h

theorem Recording.eq_of_trace (R : Recording) (hx : x ∈ R.calls) (hy : y ∈ R.calls)
    (h : x.trace = y.trace) : x = y :=
  List.inj_on_of_nodup_map (List.pairwise_map.2 (R.distinct.imp And.right)) hx hy h

/-- A call's collapse is in the table if its time is recorded. -/
theorem Recording.mem_collapses (R : Recording) (hx : x ∈ R.calls) :
    x.collapse ∈ R.collapses ↔ R.Records x.collapse.startTsNs := by
  rw [R.perm_collapses.mem_iff, List.mem_map]
  constructor
  · rintro ⟨y, hy, heq⟩
    obtain ⟨hy, hrec⟩ := List.mem_filter.1 hy
    obtain rfl := R.eq_of_collapse hy hx heq
    exact of_decide_eq_true hrec
  · exact fun h ↦ ⟨x, List.mem_filter.2 ⟨hx, decide_eq_true h⟩, rfl⟩

theorem Recording.mem_traces (R : Recording) (hx : x ∈ R.calls) :
    x.trace ∈ R.traces ↔ R.Records x.trace.startTsNs := by
  rw [R.perm_traces.mem_iff, List.mem_map]
  constructor
  · rintro ⟨y, hy, heq⟩
    obtain ⟨hy, hrec⟩ := List.mem_filter.1 hy
    obtain rfl := R.eq_of_trace hy hx heq
    exact of_decide_eq_true hrec
  · exact fun h ↦ ⟨x, List.mem_filter.2 ⟨hx, decide_eq_true h⟩, rfl⟩

/-- No trace event is in the table twice. -/
theorem Recording.nodup_traces (R : Recording) : R.traces.Nodup := by
  refine R.perm_traces.nodup_iff.2 (List.pairwise_map.2 ?_)
  exact (R.distinct.sublist List.filter_sublist).imp And.right

end Rows

/-! ### What the merge needs -/

section Merge

variable {E : Engine} {collectionId : PyStr} {R : Recording} {x y : Call}
  {collapses : List CollapseHugePageRuntimeData} {traces : List TraceMMCollapseHugePageRuntimeData}
  {pairs : List (CollapseHugePageRuntimeData × TraceMMCollapseHugePageRuntimeData)}

/-- The two frames that are put side by side. -/
theorem exists_of_pairedRows (h : pairedRows E collapses traces = some pairs) :
    ∃ c cs t ts collapseDf, E.sortCollapse.sort collapses = c :: cs ∧
      E.sortTrace.sort traces = t :: ts ∧
      collapseDf = (if t.startTsNs < c.startTsNs then cs else c :: cs) ∧
      collapseDf.length = (t :: ts).length ∧ pairs = collapseDf.zip (t :: ts) := by
  rw [pairedRows] at h
  split at h
  · rename_i c cs t ts hc ht
    obtain ⟨hlen, h⟩ := Option.ite_none_right_eq_some.1 h
    exact ⟨c, cs, t, ts, _, hc, ht, rfl, hlen, (Option.some.inj h).symm⟩
  · cases h

/-- Rows side by side of one call each are the rows of a list of calls. -/
theorem exists_calls {calls : List Call} (hlen : collapses.length = traces.length)
    (h : ∀ p ∈ collapses.zip traces, ∃ x ∈ calls, x.collapse = p.1 ∧ x.trace = p.2) :
    ∃ L : List Call, (∀ x ∈ L, x ∈ calls) ∧ collapses = L.map Call.collapse ∧
      traces = L.map Call.trace := by
  induction collapses generalizing traces with
  | nil => exact ⟨[], List.forall_mem_nil _, rfl, List.eq_nil_of_length_eq_zero hlen.symm⟩
  | cons c collapses ih =>
    cases traces with
    | nil => exact nomatch hlen
    | cons t traces =>
      obtain ⟨hp, hrest⟩ := List.forall_mem_cons.1 h
      obtain ⟨x, hx, rfl, rfl⟩ := hp
      obtain ⟨L, hL, rfl, rfl⟩ := ih (Nat.succ.inj hlen) hrest
      exact ⟨x :: L, List.forall_mem_cons.2 ⟨hx, hL⟩, rfl, rfl⟩

/-- **Where the rows pair calls**, the sorted tables are the rows of the same calls in
the same order. -/
theorem PairsCalls.exists_calls (h : PairsCalls E collectionId R) :
    ∃ L : List Call, L ≠ [] ∧ (∀ x ∈ L, x ∈ R.calls) ∧
      E.sortCollapse.sort R.collapses = L.map Call.collapse ∧
      E.sortTrace.sort R.traces = L.map Call.trace := by
  obtain ⟨rows, hrows⟩ := h.returns
  rw [fromTables_eq_pairedRows] at hrows
  obtain ⟨pairs, hpairs, -⟩ := Option.map_eq_some_iff.1 hrows
  have hcalls := h.pairs pairs hpairs
  obtain ⟨c, cs, t, ts, df, hc, ht, hdf, hlen, rfl⟩ := exists_of_pairedRows hpairs
  obtain ⟨L, hL, hLc, hLt⟩ := Collapse.exists_calls hlen hcalls
  obtain _ | ⟨x, L⟩ := L
  · exact nomatch hLt
  obtain ⟨rfl, -⟩ := List.cons.inj hLt
  -- the first trace event is later than its collapse, which is in the table
  have hx : x.collapse ∈ R.collapses := by
    have hmem : x.collapse ∈ df := hLc ▸ List.mem_cons_self
    have hsub : df ⊆ c :: cs := by
      rw [hdf]
      split_ifs
      · exact List.subset_cons_self c cs
      · exact List.Subset.refl _
    exact (E.sortCollapse.perm _).mem_iff.1 (hc ▸ hsub hmem)
  have hle := (E.sortCollapse.head_le hc).2 _ hx
  have hnot : ¬ x.trace.startTsNs < c.startTsNs := by
    have hlater := x.later
    omega
  rw [if_neg hnot] at hdf
  exact ⟨x :: L, List.cons_ne_nil x L, hL, hc.trans (hdf.symm.trans hLc), ht.trans hLt⟩

theorem PairsCalls.nonempty (h : PairsCalls E collectionId R) :
    ∃ x ∈ R.calls, R.Records x.collapse.startTsNs := by
  obtain ⟨L, hne, hL, hc, -⟩ := h.exists_calls
  obtain ⟨x, hx⟩ := List.exists_mem_of_ne_nil L hne
  refine ⟨x, hL x hx, (R.mem_collapses (hL x hx)).1 ?_⟩
  exact (E.sortCollapse.perm _).mem_iff.1 (hc ▸ List.mem_map_of_mem hx)

theorem PairsCalls.uncut (h : PairsCalls E collectionId R) (hx : x ∈ R.calls) :
    R.Records x.collapse.startTsNs ↔ R.Records x.trace.startTsNs := by
  obtain ⟨L, -, hL, hc, ht⟩ := h.exists_calls
  have hmemc : x.collapse ∈ R.collapses ↔ x ∈ L := by
    rw [← (E.sortCollapse.perm _).mem_iff, hc, List.mem_map]
    exact ⟨fun ⟨y, hy, heq⟩ ↦ R.eq_of_collapse (hL y hy) hx heq ▸ hy, fun hx ↦ ⟨x, hx, rfl⟩⟩
  have hmemt : x.trace ∈ R.traces ↔ x ∈ L := by
    rw [← (E.sortTrace.perm _).mem_iff, ht, List.mem_map]
    exact ⟨fun ⟨y, hy, heq⟩ ↦ R.eq_of_trace (hL y hy) hx heq ▸ hy, fun hx ↦ ⟨x, hx, rfl⟩⟩
  rw [← R.mem_collapses hx, ← R.mem_traces hx, hmemc, hmemt]

/-- A sort that puts the collapses of two calls in one order puts their trace events so. -/
theorem PairsCalls.sublist_traces (h : PairsCalls E collectionId R) (hx : x ∈ R.calls)
    (hy : y ∈ R.calls)
    (hxy : List.Sublist [x.collapse, y.collapse] (E.sortCollapse.sort R.collapses)) :
    List.Sublist [x.trace, y.trace] (E.sortTrace.sort R.traces) := by
  obtain ⟨L, -, hL, hc, ht⟩ := h.exists_calls
  rw [hc] at hxy
  obtain ⟨l, hl, heq⟩ := List.sublist_map_iff.1 hxy
  obtain ⟨x', l, rfl, hx', heq⟩ := List.map_eq_cons_iff.1 heq.symm
  obtain ⟨y', l, rfl, hy', heq⟩ := List.map_eq_cons_iff.1 heq
  obtain rfl := List.map_eq_nil_iff.1 heq
  obtain rfl := R.eq_of_collapse (hL x' (hl.subset (by simp))) hx hx'
  obtain rfl := R.eq_of_collapse (hL y' (hl.subset (by simp))) hy hy'
  rw [ht]
  exact hl.map Call.trace

/-- Some sort puts the collapses of two calls in one order and their trace events in the other,
unless the calls end as they start. -/
theorem not_swapped (h : ∀ E, PairsCalls E collectionId R) (hx : x ∈ R.calls) (hy : y ∈ R.calls)
    (hrx : R.Records x.collapse.startTsNs) (hry : R.Records y.collapse.startTsNs) (hne : x ≠ y)
    (hc : x.collapse.startTsNs ≤ y.collapse.startTsNs) :
    ¬ y.trace.startTsNs ≤ x.trace.startTsNs := by
  intro ht
  -- equal times leave each sort a choice
  obtain ⟨C, hC⟩ := exists_sortBy CollapseHugePageRuntimeData.startTsNs
    ((R.mem_collapses hx).2 hrx) ((R.mem_collapses hy).2 hry)
    (fun heq ↦ hne (R.eq_of_collapse hx hy heq)) hc
  obtain ⟨T, hT⟩ := exists_sortBy TraceMMCollapseHugePageRuntimeData.startTsNs
    ((R.mem_traces hy).2 (((h stableEngine).uncut hy).1 hry))
    ((R.mem_traces hx).2 (((h stableEngine).uncut hx).1 hrx))
    (fun heq ↦ hne (R.eq_of_trace hy hx heq).symm) ht
  let E : Engine := { stableEngine with sortCollapse := C, sortTrace := T }
  have hxy := (h E).sublist_traces hx hy hC
  exact not_sublist_swap ((T.perm _).nodup_iff.2 R.nodup_traces) hxy hT

/-- **A recording whose rows pair calls, whatever the sorts, is whole.** -/
theorem whole_of_pairsCalls (h : ∀ E, PairsCalls E collectionId R) : Whole R :=
  ⟨(h stableEngine).nonempty, fun _ hx ↦ (h stableEngine).uncut hx,
    fun _ hx _ hy hrx hry hne hc ↦ Int.not_le.1 (not_swapped h hx hy hrx hry hne hc)⟩

/-- **A whole recording's sorted tables** are the rows of its calls in one order. -/
theorem Whole.exists_calls (h : Whole R) (E : Engine) : ∃ L : List Call, L ≠ [] ∧
    (∀ x ∈ L, x ∈ R.calls) ∧ E.sortCollapse.sort R.collapses = L.map Call.collapse ∧
    E.sortTrace.sort R.traces = L.map Call.trace := by
  let seen := R.calls.filter fun x ↦ R.Records x.collapse.startTsNs
  let L := (SortBy.ofInsertionSort fun x : Call ↦ x.collapse.startTsNs).sort seen
  have hperm : L.Perm seen := SortBy.perm _ seen
  have hmem : ∀ x ∈ L, x ∈ R.calls ∧ R.Records x.collapse.startTsNs := fun x hx ↦ by
    obtain ⟨hx, hrec⟩ := List.mem_filter.1 (hperm.mem_iff.1 hx)
    exact ⟨hx, of_decide_eq_true hrec⟩
  have hnd : L.Nodup := by
    refine hperm.nodup_iff.2 ((R.distinct.sublist List.filter_sublist).imp ?_)
    rintro x y ⟨hne, -⟩ rfl
    exact hne rfl
  have hends : L.Pairwise fun x y ↦ x.collapse.startTsNs < y.collapse.startTsNs ∧
      x.trace.startTsNs < y.trace.startTsNs := by
    refine ((SortBy.sorted _ seen).and hnd).imp_of_mem fun {x y} hx hy ⟨hle, hne⟩ ↦ ?_
    obtain ⟨hx, hrx⟩ := hmem x hx
    obtain ⟨hy, hry⟩ := hmem y hy
    have hlt := h.ordered x hx y hy hrx hry hne hle
    refine ⟨Int.lt_of_not_ge fun hge ↦ ?_, hlt⟩
    exact Int.lt_asymm hlt (h.ordered y hy x hx hry hrx hne.symm hge)
  have htraces : R.traces.Perm (seen.map Call.trace) := by
    have hfilter : (R.calls.filter fun x ↦ R.Records x.trace.startTsNs) = seen :=
      List.filter_congr fun x hx ↦ decide_eq_decide.2 (h.uncut x hx).symm
    exact hfilter ▸ R.perm_traces
  refine ⟨L, ?_, fun x hx ↦ (hmem x hx).1, ?_, ?_⟩
  · obtain ⟨x, hx, hrec⟩ := h.nonempty
    exact List.ne_nil_of_mem (hperm.mem_iff.2 (List.mem_filter.2 ⟨hx, decide_eq_true hrec⟩))
  · exact sort_eq_of_perm _ (R.perm_collapses.trans (hperm.map Call.collapse).symm)
      (List.pairwise_map.2 (hends.imp And.left))
  · exact sort_eq_of_perm _ (htraces.trans (hperm.map Call.trace).symm)
      (List.pairwise_map.2 (hends.imp And.right))

/-- **The rows of a whole recording pair calls.** -/
theorem Whole.pairsCalls (h : Whole R) (E : Engine) (collectionId : PyStr) :
    PairsCalls E collectionId R := by
  obtain ⟨L, hne, hL, hc, ht⟩ := h.exists_calls E
  obtain _ | ⟨x, L⟩ := L
  · exact absurd rfl hne
  have hpairs : pairedRows E R.collapses R.traces =
      some ((x :: L).map fun x ↦ (x.collapse, x.trace)) := by
    have hnot : ¬ x.trace.startTsNs < x.collapse.startTsNs := Int.lt_asymm x.later
    rw [pairedRows, hc, ht, List.map_cons, List.map_cons]
    simp only [if_neg hnot, List.length_cons, List.length_map, if_true]
    rw [← List.map_cons, ← List.map_cons, List.zip_map']
  refine ⟨fun pairs hpairs' p hp ↦ ?_, ?_⟩
  · obtain rfl := Option.some.inj (hpairs.symm.trans hpairs')
    obtain ⟨y, hy, rfl⟩ := List.mem_map.1 hp
    exact ⟨y, hL y hy, rfl, rfl⟩
  · rw [fromTables_eq_pairedRows, hpairs]
    exact ⟨_, rfl⟩

/-- **A recording's rows pair calls**, however rows of equal times are sorted, exactly where it has
a call, none is cut, and the calls end in the order in which they start. -/
theorem pairsCalls_iff (collectionId : PyStr) (R : Recording) :
    (∀ E, PairsCalls E collectionId R) ↔ Whole R :=
  ⟨whole_of_pairsCalls, fun h E ↦ h.pairsCalls E collectionId⟩

end Merge

/-! ### Two calls -/

/-- The recording of a window, in the order of the calls. -/
def Recording.ofCalls (calls : List Call) (opened closed : ℤ)
    (distinct : calls.Pairwise fun x y ↦ x.collapse ≠ y.collapse ∧ x.trace ≠ y.trace) :
    Recording where
  calls := calls
  opened := opened
  closed := closed
  collapses := (calls.filter fun x ↦
    opened ≤ x.collapse.startTsNs ∧ x.collapse.startTsNs < closed).map Call.collapse
  traces := (calls.filter fun x ↦
    opened ≤ x.trace.startTsNs ∧ x.trace.startTsNs < closed).map Call.trace
  distinct := distinct
  perm_collapses := .refl _
  perm_traces := .refl _

/-- A call from one time to another. -/
def callAt (start stop : ℤ) (h : start < stop) : Call where
  collapse := ⟨9, 9, start, start, PyStr.hex 4096, 0, PyStr.hex 0, 0, PyStr.hex 0⟩
  trace := ⟨9, 9, stop, stop, PyStr.hex 0, 1, 1⟩
  later := h

/-- Two calls, one after the other. -/
def twoCalls : List Call := [callAt 10 20 (by decide), callAt 30 40 (by decide)]

theorem distinct_twoCalls :
    twoCalls.Pairwise fun x y ↦ x.collapse ≠ y.collapse ∧ x.trace ≠ y.trace := by
  refine List.pairwise_pair.2 ⟨fun h ↦ ?_, fun h ↦ ?_⟩
  · exact absurd (congrArg CollapseHugePageRuntimeData.startTsNs h) (by decide)
  · exact absurd (congrArg TraceMMCollapseHugePageRuntimeData.startTsNs h) (by decide)

theorem pairsCalls_iff_twoCalls :
    PairsCalls stableEngine [] (.ofCalls twoCalls 0 100 distinct_twoCalls) := by
  refine (pairsCalls_iff [] _).2 ⟨⟨_, List.mem_cons_self, by decide⟩, by decide, ?_⟩ stableEngine
  intro x hx y hy _ _ hne
  simp only [Recording.ofCalls, twoCalls, List.mem_cons, List.not_mem_nil, or_false] at hx hy
  obtain rfl | rfl := hx <;> obtain rfl | rfl := hy
  · exact absurd rfl hne
  · exact fun _ ↦ by decide
  · exact fun h ↦ absurd h (by decide)
  · exact absurd rfl hne

/-- A recording that starts between the two rows of a call is not merged. -/
theorem not_pairsCalls_of_cutCall : ¬ ∀ E collectionId R, PairsCalls E collectionId R := by
  intro hall
  have h := (whole_of_pairsCalls fun E ↦ hall E []
    (.ofCalls twoCalls 15 100 distinct_twoCalls)).uncut _ List.mem_cons_self
  exact absurd h (by decide)

end Thp.Collapse
