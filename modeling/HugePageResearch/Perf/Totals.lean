import HugePageResearch.Perf.Scaling
import Mathlib.Algebra.BigOperators.Ring.Finset

/-!
# Counters that always run

`PerfCollectionTable.total_cumulative`, beside the densities and their sums. Where the counter of
each CPU runs as long as it is enabled, the three aggregations agree (`totals`): the densities add
up to the sums, the sums are the counters, and the last sums add up to the total. The calls may
group and sort differently.
-/

namespace Perf

open Groups

variable {ρ : Type*}

/-! ### The code -/

/-- `total_cumulative`: the largest count of each CPU, added up. -/
def totalCumulative (E : Engine ρ) (table : List (PmaRow ρ)) : ℤ :=
  ((E.groups table).map fun e ↦ ((e.2.map PmaRow.counter).max?).getD 0).sum

/-! ### Counters that always run -/

/-- **A counter that always runs**: on each CPU the times are distinct, the counts do not fall, and
the counter runs as long as it is enabled. -/
structure Steady (table : List (PmaRow ρ)) : Prop where
  distinct : table.Pairwise fun r r' ↦ r.cpu = r'.cpu → r.tsUptimeUs ≠ r'.tsUptimeUs
  counter_nonneg : ∀ r ∈ table, 0 ≤ r.counter
  counter_le : ∀ r ∈ table, ∀ r' ∈ table, r.cpu = r'.cpu → r.tsUptimeUs < r'.tsUptimeUs →
    r.counter ≤ r'.counter
  enabled_pos : ∀ r ∈ table, 0 < r.pmuEnabledTimeUs
  enabled_lt : ∀ r ∈ table, ∀ r' ∈ table, r.cpu = r'.cpu → r.tsUptimeUs < r'.tsUptimeUs →
    r.pmuEnabledTimeUs < r'.pmuEnabledTimeUs
  running_eq : ∀ r ∈ table, r.pmuRunningTimeUs = r.pmuEnabledTimeUs

/-- The row of the result for a row of the table, with its counter for the value. -/
structure IsCountOf (r : PmaRow ρ) (e : EstimateRow ρ) : Prop where
  cpu : e.cpu = r.cpu
  tsUptimeUs : e.tsUptimeUs = r.tsUptimeUs
  rest : e.rest = r.rest
  value : e.value = some r.counter

/-- The last row of its CPU. -/
structure IsLastRow (table : List (PmaRow ρ)) (r : PmaRow ρ) : Prop where
  mem : r ∈ table
  le : ∀ r' ∈ table, r'.cpu = r.cpu → r'.tsUptimeUs ≤ r.tsUptimeUs

/-- The last value of a CPU. -/
def lastValue (out : List (EstimateRow ρ)) (cpu : ℤ) : Option ℚ :=
  (cpuValues out cpu).getLast?.join

/-- A result in the order of time, with spans that add up to the last running time. -/
structure InTime (table : List (PmaRow ρ)) (out : List (EstimateRow ρ)) : Prop where
  ordered : ∀ cpu, (ofKey EstimateRow.cpu out cpu).Pairwise fun e e' ↦ e.tsUptimeUs < e'.tsUptimeUs
  spans : ∀ r, IsLastRow table r →
    ((ofKey EstimateRow.cpu out r.cpu).map EstimateRow.spanDurationUs).sum = r.pmuRunningTimeUs

/-- **The three aggregations agree.** -/
structure Agree (table : List (PmaRow ρ)) (pdf cdf : List (EstimateRow ρ)) (total : ℤ) : Prop where
  pdf_inTime : InTime table pdf
  cdf_inTime : InTime table cdf
  sums : ∀ cpu, cumSum (some 0) (cpuValues pdf cpu) = cpuValues cdf cpu
  counts : ∀ cpu, ∃ rows : List (PmaRow ρ), rows.Perm (ofKey PmaRow.cpu table cpu) ∧
    rows.Forall₂ IsCountOf (ofKey EstimateRow.cpu cdf cpu)
  total : ∑ cpu ∈ (table.map PmaRow.cpu).toFinset, (lastValue cdf cpu).getD 0 = total

/-! ### The intervals of a counter that always runs -/

section Rows

variable {row r r' : PmaRow ρ} {rows rows' : List (PmaRow ρ)} {counter running enabled : ℤ}

/-- What holds of a row and a later one. -/
structure Before (r r' : PmaRow ρ) : Prop where
  tsUptimeUs : r.tsUptimeUs < r'.tsUptimeUs
  counter : r.counter ≤ r'.counter
  enabled : r.pmuEnabledTimeUs < r'.pmuEnabledTimeUs

/-- **An interval that is run through** has the density that was counted. -/
theorem density_eq_raw {i : Interval ρ} (hpos : 0 < i.enabled) (heq : i.running = i.enabled) :
    i.density = some (i.raw : ℚ) := by
  have henabled : (i.enabled : ℚ) ≠ 0 := Int.cast_ne_zero.2 hpos.ne'
  rw [Interval.density, Interval.samplingScaling, if_neg hpos.ne', heq, div_self henabled,
    Option.map_some, mul_one]

/-- **The running sums telescope**: each one is a counter. -/
theorem cumSum_density (hpair : rows.Pairwise Before)
    (hrunning : ∀ r ∈ rows, r.pmuRunningTimeUs = r.pmuEnabledTimeUs)
    (hfirst : ∀ r ∈ rows, enabled < r.pmuEnabledTimeUs) :
    cumSum (some (counter : ℚ))
        ((intervalsFrom counter enabled enabled rows).map Interval.density) =
      rows.map fun r ↦ some (r.counter : ℚ) := by
  induction rows generalizing counter enabled with
  | nil => rfl
  | cons row rows ih =>
    obtain ⟨hrow, hpair⟩ := List.pairwise_cons.1 hpair
    obtain ⟨hrunning_row, hrunning⟩ := List.forall_mem_cons.1 hrunning
    have hdensity : Interval.density ⟨row, counter, enabled, enabled⟩ =
        some ((row.counter - counter : ℤ) : ℚ) :=
      density_eq_raw (sub_pos.2 (hfirst row List.mem_cons_self))
        (congrArg (· - enabled) hrunning_row)
    have hsum : (some (counter : ℚ)).bind (fun t ↦
        (some ((row.counter - counter : ℤ) : ℚ)).map (t + ·)) = some (row.counter : ℚ) := by
      rw [Option.bind_some, Option.map_some, Int.cast_sub, add_sub_cancel]
    rw [intervalsFrom_cons, List.map_cons, hdensity, cumSum, hsum, hrunning_row,
      ih hpair hrunning fun r hr ↦ (hrow r hr).enabled]
    rfl

/-- **The spans telescope**. -/
theorem sum_running_intervalsFrom : ((intervalsFrom counter running enabled rows).map
    Interval.running).sum = (rows.getLast?.elim running PmaRow.pmuRunningTimeUs) - running := by
  induction rows generalizing counter running enabled with
  | nil => exact (sub_self running).symm
  | cons row rows ih =>
    have hlast : (row :: rows).getLast?.elim running PmaRow.pmuRunningTimeUs =
        rows.getLast?.elim row.pmuRunningTimeUs PmaRow.pmuRunningTimeUs := by
      rw [List.getLast?_cons]
      cases rows.getLast? <;> rfl
    rw [intervalsFrom_cons, List.map_cons, List.sum_cons, ih, hlast, Interval.running]
    exact sub_add_sub_cancel' _ _ _

/-- The last row has the largest counter. -/
theorem max?_counter (hpair : rows.Pairwise Before) (hperm : rows'.Perm rows) :
    (rows'.map PmaRow.counter).max? = rows.getLast?.map PmaRow.counter := by
  rcases hlast : rows.getLast? with _ | last
  · obtain rfl := List.getLast?_eq_none_iff.1 hlast
    rw [hperm.eq_nil]
    rfl
  · obtain ⟨init, rfl⟩ := List.getLast?_eq_some_iff.1 hlast
    refine List.max?_eq_some_iff.2 ⟨List.mem_map_of_mem
      (hperm.mem_iff.2 (List.mem_append_right init (List.mem_singleton_self last))), ?_⟩
    intro c hc
    obtain ⟨r, hr, rfl⟩ := List.mem_map.1 hc
    rcases List.mem_append.1 (hperm.mem_iff.1 hr) with hinit | heq
    · exact ((List.pairwise_append.1 hpair).2.2 r hinit last (List.mem_singleton_self last)).counter
    · exact (congrArg PmaRow.counter (List.mem_singleton.1 heq)).le

end Rows

/-! ### The rows of a CPU -/

section Cpu

variable {E E' : Engine ρ} {table rows : List (PmaRow ρ)} {out : List (EstimateRow ρ)} {cpu : ℤ}
  {r r' : PmaRow ρ}

theorem mem_cpuRows : r ∈ cpuRows E table cpu ↔ r ∈ table ∧ r.cpu = cpu :=
  (E.sort_perm _).mem_iff.trans mem_ofKey

/-- **The rows of a CPU** are in the strict order of their times. -/
theorem pairwise_cpuRows (E : Engine ρ) (cpu : ℤ) (h : Steady table) :
    (cpuRows E table cpu).Pairwise Before := by
  have hdistinct : (ofKey PmaRow.cpu table cpu).Pairwise
      fun r r' ↦ r.tsUptimeUs ≠ r'.tsUptimeUs :=
    (h.distinct.filter _).imp_of_mem fun hr hr' hne ↦
      hne ((mem_ofKey.1 hr).2.trans (mem_ofKey.1 hr').2.symm)
  have hne : (cpuRows E table cpu).Pairwise fun r r' ↦ r.tsUptimeUs ≠ r'.tsUptimeUs :=
    (E.sort_perm _).symm.pairwise hdistinct fun h ↦ h.symm
  refine ((E.sort_sorted (ofKey PmaRow.cpu table cpu)).and hne).imp_of_mem fun hr hr' hle ↦ ?_
  obtain ⟨hr, hcpu⟩ := mem_cpuRows.1 hr
  obtain ⟨hr', hcpu'⟩ := mem_cpuRows.1 hr'
  have hlt := lt_of_le_of_ne hle.1 hle.2
  have heq := hcpu.trans hcpu'.symm
  exact ⟨hlt, h.counter_le _ hr _ hr' heq hlt, h.enabled_lt _ hr _ hr' heq hlt⟩

/-- Two sorts agree on them. -/
theorem cpuRows_eq (h : Steady table) : cpuRows E table cpu = cpuRows E' table cpu := by
  refine List.Perm.eq_of_pairwise (fun r r' _ _ hlt hlt' ↦ ?_) (pairwise_cpuRows E cpu h)
    (pairwise_cpuRows E' cpu h) ((E.sort_perm _).trans (E'.sort_perm _).symm)
  exact absurd hlt'.tsUptimeUs hlt.tsUptimeUs.not_gt

/-- **The last row** of a CPU. -/
theorem getLast?_cpuRows (h : Steady table) (hlast : IsLastRow table r) :
    (cpuRows E table r.cpu).getLast? = some r := by
  have hmem : r ∈ cpuRows E table r.cpu := mem_cpuRows.2 ⟨hlast.mem, rfl⟩
  obtain ⟨init, post, hsplit⟩ := List.append_of_mem hmem
  have hpost : post = [] := List.eq_nil_iff_forall_not_mem.2 fun r' hr' ↦ by
    obtain ⟨hr'table, hcpu⟩ := mem_cpuRows.1 (hsplit ▸ List.mem_append_right init
      (List.mem_cons_of_mem r hr'))
    have hpair := hsplit ▸ pairwise_cpuRows E r.cpu h
    have hbefore := (List.pairwise_cons.1 (List.pairwise_append.1 hpair).2.1).1 r' hr'
    exact absurd (hlast.le r' hr'table hcpu) hbefore.tsUptimeUs.not_ge
  rw [hsplit, hpost]
  exact List.getLast?_concat

end Cpu

/-! ### The results -/

section Results

variable {E E' E'' : Engine ρ} {table rows : List (PmaRow ρ)} {pdf cdf out : List (EstimateRow ρ)}
  {cpu : ℤ}

/-- A result with one value for each interval. -/
theorem inTime_of_intervals (h : Steady table) {value : Interval ρ → Option ℚ}
    (hout : ∀ cpu, ofKey EstimateRow.cpu out cpu =
      (intervals (cpuRows E table cpu)).map fun i ↦ estimateRow i (value i)) :
    InTime table out := by
  refine ⟨fun cpu ↦ ?_, fun r hr ↦ ?_⟩
  · have htimes : (intervals (cpuRows E table cpu)).Pairwise
        fun i i' ↦ i.row.tsUptimeUs < i'.row.tsUptimeUs := by
      have hpair := pairwise_cpuRows E cpu h
      rw [← @map_row_intervals ρ (cpuRows E table cpu)] at hpair
      exact (List.pairwise_map.1 hpair).imp fun hbefore ↦ hbefore.tsUptimeUs
    rw [hout]
    exact List.pairwise_map.2 htimes
  · rw [hout, List.map_map]
    exact sum_running_intervalsFrom.trans (by rw [getLast?_cpuRows h hr]; exact sub_zero _)

/-- The running sums of the densities of a CPU. -/
theorem cumSum_cpuRows (h : Steady table) :
    cumSum (some 0) ((intervals (cpuRows E table cpu)).map Interval.density) =
      (cpuRows E table cpu).map fun r ↦ some (r.counter : ℚ) := by
  have htelescope := @cumSum_density ρ _ 0 0 (pairwise_cpuRows E cpu h)
    (fun r hr ↦ h.running_eq r (mem_cpuRows.1 hr).1)
    (fun r hr ↦ h.enabled_pos r (mem_cpuRows.1 hr).1)
  rwa [Int.cast_zero] at htelescope

/-- **The sums of a CPU**: the counter of each row. -/
theorem byCpuCdf_cpuRows (h : Steady table) : byCpuCdf (cpuRows E table cpu) =
    (intervals (cpuRows E table cpu)).map fun i ↦ estimateRow i (some i.row.counter) := by
  have hrows : (cpuRows E table cpu).map (fun r ↦ some (r.counter : ℚ)) =
      (intervals (cpuRows E table cpu)).map fun i ↦ some (i.row.counter : ℚ) := by
    conv_lhs => rw [← @map_row_intervals ρ (cpuRows E table cpu), List.map_map]
    rfl
  rw [byCpuCdf, cumSum_cpuRows h, hrows, ← List.map_prod_left_eq_zip, List.map_map]
  rfl

/-- The last value of a CPU with a row is its largest counter. -/
theorem lastValue_eq (h : Steady table) (hcdf : cumulativePmaAsCdf E table = some cdf) :
    (lastValue cdf cpu).getD 0 =
      ((((ofKey PmaRow.cpu table cpu).map PmaRow.counter).max?).getD 0 : ℤ) := by
  rw [max?_counter (pairwise_cpuRows E cpu h) (E.sort_perm _).symm, lastValue, cpuValues,
    ofKey_cumulativePmaAsCdf hcdf, map_value_byCpuCdf, cumSum_cpuRows h, List.getLast?_map]
  cases (cpuRows E table cpu).getLast? with
  | none => exact Int.cast_zero.symm
  | some last => rfl

/-- **The three aggregations agree**, however each call groups and sorts the rows. -/
theorem totals (E E' E'' : Engine ρ) (table : List (PmaRow ρ)) (h : Steady table) :
    (table ≠ [] → (∃ pdf, cumulativePmaAsPdf E table = some pdf) ∧
      ∃ cdf, cumulativePmaAsCdf E' table = some cdf) ∧
    ∀ pdf cdf, cumulativePmaAsPdf E table = some pdf → cumulativePmaAsCdf E' table = some cdf →
      Agree table pdf cdf (totalCumulative E'' table) := by
  refine ⟨fun hne ↦ ⟨exists_concat hne, exists_concat hne⟩, fun pdf cdf hpdf hcdf ↦ ?_⟩
  have hpdfRows := ofKey_cumulativePmaAsPdf hpdf
  have hcdfRows := fun cpu ↦ (ofKey_cumulativePmaAsCdf hcdf cpu).trans (byCpuCdf_cpuRows h)
  refine ⟨inTime_of_intervals h hpdfRows, inTime_of_intervals h hcdfRows, fun cpu ↦ ?_,
    fun cpu ↦ ⟨cpuRows E' table cpu, E'.sort_perm _, ?_⟩, ?_⟩
  · rw [cpuValues, cpuValues, hpdfRows, ofKey_cumulativePmaAsCdf hcdf, map_value_byCpuPdf,
      map_value_byCpuCdf, @cpuRows_eq ρ E E' table cpu h]
  · have hforall : (intervals (cpuRows E' table cpu)).Forall₂ (fun i i' ↦
        IsCountOf i.row (estimateRow i' (some (i'.row.counter : ℚ))))
        (intervals (cpuRows E' table cpu)) :=
      List.forall₂_same.2 fun i _ ↦ ⟨rfl, rfl, rfl, rfl⟩
    have hmap := List.forall₂_map_left_iff.2 (List.forall₂_map_right_iff.2 hforall)
    rwa [map_row_intervals, ← hcdfRows] at hmap
  · rw [totalCumulative, (E''.grouped table).sum_map fun _ rows ↦
      ((rows.map PmaRow.counter).max?).getD 0, Int.cast_sum]
    exact Finset.sum_congr rfl fun cpu _ ↦ lastValue_eq h hcdf

/-- A table of two CPUs, its rows in no order. -/
def twoCpus : List (PmaRow Unit) :=
  [⟨0, 9, 7, 20, 20, ()⟩, ⟨1, 3, 4, 8, 8, ()⟩, ⟨0, 5, 3, 10, 10, ()⟩]

/-- Two CPUs, which count 7 and 4. -/
theorem totals_twoCpus :
    Steady twoCpus ∧ totalCumulative inOrder twoCpus = 11 ∧
      ∃ pdf cdf, Agree twoCpus pdf cdf 11 := by
  have hsteady : Steady twoCpus := by
    refine ⟨by decide, by decide, by decide, by decide, by decide, by decide⟩
  obtain ⟨hexists, hagree⟩ := totals inOrder inOrder inOrder twoCpus hsteady
  obtain ⟨⟨pdf, hpdf⟩, cdf, hcdf⟩ := hexists (List.cons_ne_nil _ _)
  have htotal : totalCumulative inOrder twoCpus = 11 := by decide
  exact ⟨hsteady, htotal, pdf, cdf, htotal ▸ hagree pdf cdf hpdf hcdf⟩

end Results

end Perf
