import HugePageResearch.Library.Groups
import Mathlib.Algebra.Order.Field.Rat
import Mathlib.Data.List.Forall2
import Mathlib.Data.List.Sort
import Mathlib.Algebra.Order.Ring.Cast
import Mathlib.Algebra.Order.Field.Basic
import Mathlib.Data.Int.Cast.Lemmas

/-!
# Counters that are multiplexed

`cumulative_pma_as_pdf` and `cumulative_pma_as_cdf` of `data_schema/schema.py`, with exact
arithmetic. A counter of the PMU runs for a part of the time for which it is enabled. What it counts
in an interval is scaled by the quotient of the two times, running over enabled.

## The result

`estimatesFull_iff`: the values estimate the full count, exactly where each interval in which the
counter ran counted nothing or was run through, and each one in which it did not run was enabled.
-/

namespace Perf

open Groups

variable {ρ : Type*}

/-! ### The code -/

/-- A row of a perf table; `rest` stands for the columns that are passed through. -/
structure PmaRow (ρ : Type*) where
  cpu : ℤ
  tsUptimeUs : ℤ
  counter : ℤ
  pmuEnabledTimeUs : ℤ
  pmuRunningTimeUs : ℤ
  rest : ρ

/-- A row of the result. A value is `none` after a division by zero, where Polars has an infinity or
no number. -/
structure EstimateRow (ρ : Type*) where
  cpu : ℤ
  tsUptimeUs : ℤ
  rest : ρ
  value : Option ℚ
  spanDurationUs : ℤ
  deriving DecidableEq

/-- `group_by("cpu")`, with its groups in any order, and a sort by time. -/
structure Engine (ρ : Type*) where
  groups : List (PmaRow ρ) → List (ℤ × List (PmaRow ρ))
  grouped : ∀ rows, GroupedBy PmaRow.cpu rows (groups rows)
  sort : List (PmaRow ρ) → List (PmaRow ρ)
  sort_perm : ∀ rows, (sort rows).Perm rows
  sort_sorted : ∀ rows, (sort rows).Pairwise fun r r' ↦ r.tsUptimeUs ≤ r'.tsUptimeUs

/-- `shift(1, fill_value=...)`. -/
def shift {α : Type*} (fill : α) (column : List α) : List α := (fill :: column).dropLast

/-- A row with the shifted columns. -/
structure Interval (ρ : Type*) where
  row : PmaRow ρ
  counterShifted : ℤ
  runningShifted : ℤ
  enabledShifted : ℤ

namespace Interval

/-- `..._raw`. -/
def raw (i : Interval ρ) : ℤ := i.row.counter - i.counterShifted

/-- `span_duration_us`. -/
def running (i : Interval ρ) : ℤ := i.row.pmuRunningTimeUs - i.runningShifted

/-- The denominator of `sampling_scaling`. -/
def enabled (i : Interval ρ) : ℤ := i.row.pmuEnabledTimeUs - i.enabledShifted

/-- `sampling_scaling`. -/
def samplingScaling (i : Interval ρ) : Option ℚ :=
  if i.enabled = 0 then none else some (i.running / i.enabled : ℚ)

/-- The column that is named by `counter_column_rename`, of the densities. -/
def density (i : Interval ρ) : Option ℚ := i.samplingScaling.map fun scaling ↦ i.raw * scaling

end Interval

/-- `with_columns` of the three shifted columns, which start with the given values. -/
def intervalsFrom (counter running enabled : ℤ) (rows : List (PmaRow ρ)) : List (Interval ρ) :=
  (rows.zip ((shift counter (rows.map PmaRow.counter)).zip
    ((shift running (rows.map PmaRow.pmuRunningTimeUs)).zip
      (shift enabled (rows.map PmaRow.pmuEnabledTimeUs))))).map
    fun p ↦ ⟨p.1, p.2.1, p.2.2.1, p.2.2.2⟩

/-- The intervals of the sorted rows of one CPU. -/
def intervals (rows : List (PmaRow ρ)) : List (Interval ρ) := intervalsFrom 0 0 0 rows

/-- `cum_sum`. -/
def cumSum (total : Option ℚ) : List (Option ℚ) → List (Option ℚ)
  | [] => []
  | value :: values =>
    let total := total.bind fun t ↦ value.map (t + ·)
    total :: cumSum total values

/-- `select(final_select)`. -/
def estimateRow (i : Interval ρ) (value : Option ℚ) : EstimateRow ρ :=
  ⟨i.row.cpu, i.row.tsUptimeUs, i.row.rest, value, i.running⟩

/-- The densities of one CPU. -/
def byCpuPdf (rows : List (PmaRow ρ)) : List (EstimateRow ρ) :=
  (intervals rows).map fun i ↦ estimateRow i i.density

/-- Their sums. -/
def byCpuCdf (rows : List (PmaRow ρ)) : List (EstimateRow ρ) :=
  ((intervals rows).zip (cumSum (some 0) ((intervals rows).map Interval.density))).map
    fun p ↦ estimateRow p.1 p.2

/-- `pl.concat`, which raises where there is nothing. -/
def concat (dfs : List (List (EstimateRow ρ))) : Option (List (EstimateRow ρ)) :=
  if dfs = [] then none else some dfs.flatten

/-- `cumulative_pma_as_pdf`. -/
def cumulativePmaAsPdf (E : Engine ρ) (table : List (PmaRow ρ)) : Option (List (EstimateRow ρ)) :=
  concat ((E.groups table).map fun e ↦ byCpuPdf (E.sort e.2))

/-- `cumulative_pma_as_cdf`. -/
def cumulativePmaAsCdf (E : Engine ρ) (table : List (PmaRow ρ)) : Option (List (EstimateRow ρ)) :=
  concat ((E.groups table).map fun e ↦ byCpuCdf (E.sort e.2))

/-! ### Estimates -/

/-- The rows of a CPU, in the order of their times. -/
def cpuRows (E : Engine ρ) (table : List (PmaRow ρ)) (cpu : ℤ) : List (PmaRow ρ) :=
  E.sort (ofKey PmaRow.cpu table cpu)

/-- The values of a CPU in a result. -/
def cpuValues (out : List (EstimateRow ρ)) (cpu : ℤ) : List (Option ℚ) :=
  (ofKey EstimateRow.cpu out cpu).map EstimateRow.value

/-- **The meaning of the times**: nothing falls, and a counter runs only while it is enabled. -/
structure Interval.Multiplexed (i : Interval ρ) : Prop where
  raw : 0 ≤ i.raw
  running : 0 ≤ i.running
  le : i.running ≤ i.enabled

/-- **The estimate of an interval**: what was counted, scaled up to the whole interval, and nothing
where the counter did not run. -/
structure Interval.Estimates (i : Interval ρ) (value : Option ℚ) : Prop where
  defined : value.isSome
  scaled : 0 < i.running → value = some (i.raw * (i.enabled / i.running : ℚ))
  le : ∀ v ∈ value, 0 < i.running → i.raw ≤ v
  idle : i.running = 0 → value = some 0

/-- The increments of the values of a distribution. -/
def increments (values : List (Option ℚ)) : List (Option ℚ) :=
  List.zipWith (fun value before ↦ value.bind fun v ↦ before.map (v - ·)) values
    (shift (some 0) values)

/-- **Both results estimate the full count** in every interval of every CPU. -/
def EstimatesFull (E : Engine ρ) (table : List (PmaRow ρ)) : Prop :=
  (∀ out, cumulativePmaAsPdf E table = some out → ∀ cpu,
    (intervals (cpuRows E table cpu)).Forall₂ Interval.Estimates (cpuValues out cpu)) ∧
  ∀ out, cumulativePmaAsCdf E table = some out → ∀ cpu,
    (intervals (cpuRows E table cpu)).Forall₂ Interval.Estimates (increments (cpuValues out cpu))

/-- The interval's value needs no scaling: nothing was counted, or the counter ran throughout; and
where it did not run, it was enabled. -/
structure Interval.NeedsNoScaling (i : Interval ρ) : Prop where
  ran : 0 < i.running → i.raw = 0 ∨ i.running = i.enabled
  idle : i.running = 0 → 0 < i.enabled

/-! ### Intervals -/

section Intervals

variable {i : Interval ρ} {rows : List (PmaRow ρ)} {row : PmaRow ρ} {counter running enabled : ℤ}

@[simp] theorem shift_nil {α : Type*} (fill : α) : shift fill [] = [] := rfl

@[simp] theorem shift_cons {α : Type*} (fill a : α) (l : List α) :
    shift fill (a :: l) = fill :: shift a l := rfl

@[simp] theorem intervalsFrom_nil :
    intervalsFrom counter running enabled ([] : List (PmaRow ρ)) = [] := rfl

/-- **The intervals follow one another.** -/
theorem intervalsFrom_cons : intervalsFrom counter running enabled (row :: rows) =
    ⟨row, counter, running, enabled⟩ ::
      intervalsFrom row.counter row.pmuRunningTimeUs row.pmuEnabledTimeUs rows := by
  simp [intervalsFrom]

/-- Each row ends one. -/
theorem map_row_intervalsFrom :
    (intervalsFrom counter running enabled rows).map Interval.row = rows := by
  induction rows generalizing counter running enabled with
  | nil => rfl
  | cons row rows ih => rw [intervalsFrom_cons, List.map_cons, ih]

/-- **Scaling down is scaling up** where nothing is scaled. -/
theorem scaled_eq_iff {raw running enabled : ℤ} (hrunning : 0 < running) (henabled : 0 < enabled) :
    (raw * (running / enabled : ℚ) : ℚ) = raw * (enabled / running : ℚ) ↔
      raw = 0 ∨ running = enabled := by
  have hrunningℚ : (0 : ℚ) < running := Int.cast_pos.2 hrunning
  have henabledℚ : (0 : ℚ) < enabled := Int.cast_pos.2 henabled
  constructor
  · intro hvalue
    by_cases hraw : raw = 0
    · exact .inl hraw
    · have hquotient : (running : ℚ) / enabled = enabled / running :=
        mul_left_cancel₀ (Int.cast_ne_zero.2 hraw) hvalue
      rw [div_eq_div_iff henabledℚ.ne' hrunningℚ.ne'] at hquotient
      exact .inr (Int.cast_inj.1 ((mul_self_inj hrunningℚ.le henabledℚ.le).1 hquotient))
  · rintro (rfl | rfl)
    · rw [Int.cast_zero, zero_mul, zero_mul]
    · rfl

theorem density_eq_none (h : i.enabled = 0) : i.density = none := by
  rw [Interval.density, Interval.samplingScaling, if_pos h]
  rfl

theorem density_eq_some (h : i.enabled ≠ 0) :
    i.density = some (i.raw * (i.running / i.enabled : ℚ)) := by
  rw [Interval.density, Interval.samplingScaling, if_neg h]
  rfl

/-- **The density estimates the interval** where it needs no scaling. -/
theorem estimates_density_iff (h : i.Multiplexed) : i.Estimates i.density ↔ i.NeedsNoScaling := by
  constructor
  · intro hestimates
    have henabled : i.enabled ≠ 0 := fun henabled ↦ by
      have hdefined := hestimates.defined
      rw [density_eq_none henabled] at hdefined
      exact absurd hdefined Bool.false_ne_true
    have hpos : 0 < i.enabled := (h.running.trans h.le).lt_of_ne' henabled
    refine ⟨fun hrunning ↦ (scaled_eq_iff hrunning hpos).1 ?_, fun _ ↦ hpos⟩
    exact Option.some.inj ((density_eq_some henabled).symm.trans (hestimates.scaled hrunning))
  · intro hno
    have hpos : 0 < i.enabled := by
      rcases h.running.eq_or_lt with hzero | hrunning
      · exact hno.idle hzero.symm
      · exact hrunning.trans_le h.le
    have hvalue := density_eq_some hpos.ne'
    have hscaled : 0 < i.running → i.density = some (i.raw * (i.enabled / i.running : ℚ)) :=
      fun hrunning ↦ hvalue.trans
        (congrArg some ((scaled_eq_iff hrunning hpos).2 (hno.ran hrunning)))
    refine ⟨by rw [hvalue]; rfl, hscaled, fun v hv hrunning ↦ ?_, fun hidle ↦ ?_⟩
    · obtain rfl := Option.some.inj ((hscaled hrunning).symm.trans hv)
      have hrunningℚ : (0 : ℚ) < i.running := Int.cast_pos.2 hrunning
      refine le_mul_of_one_le_right (Int.cast_nonneg h.raw) ?_
      exact (one_le_div hrunningℚ).2 (Int.cast_le.2 h.le)
    · rw [hvalue, hidle, Int.cast_zero, zero_div, mul_zero]

end Intervals

/-! ### Sums -/

section Sums

variable {α : Type*} {R : α → Option ℚ → Prop} {as : List α} {densities : List (Option ℚ)}

/-- **Running sums have the increments** that are summed, as long as these are defined. -/
theorem forall₂_increments_iff (hnone : ∀ a, ¬ R a none) (t : ℚ) :
    as.Forall₂ R (List.zipWith (fun value before ↦ value.bind fun v ↦ before.map (v - ·))
      (cumSum (some t) densities) (shift (some t) (cumSum (some t) densities))) ↔
      as.Forall₂ R densities := by
  induction densities generalizing t as with
  | nil => rfl
  | cons density densities ih =>
    cases density with
    | none =>
      cases as with
      | nil => exact ⟨fun h ↦ absurd h (by simp [cumSum]), fun h ↦ absurd h (by simp)⟩
      | cons a as =>
        rw [List.forall₂_cons]
        exact ⟨fun h ↦ absurd (List.forall₂_cons.1 h).1 (hnone a), fun h ↦ absurd h.1 (hnone a)⟩
    | some x =>
      cases as with
      | nil => exact ⟨fun h ↦ absurd h (by simp [cumSum]), fun h ↦ absurd h (by simp)⟩
      | cons a as =>
        have hhead : ((some (t + x)).bind fun v ↦ (some t).map (v - ·)) = some x := by
          rw [Option.bind_some, Option.map_some, add_sub_cancel_left]
        rw [List.forall₂_cons, ← ih (t + x)]
        show List.Forall₂ R (a :: as) (((some (t + x)).bind fun v ↦ (some t).map (v - ·)) :: _) ↔ _
        rw [hhead, List.forall₂_cons]
        rfl

theorem length_cumSum (total : Option ℚ) : (cumSum total densities).length = densities.length := by
  induction densities generalizing total with
  | nil => rfl
  | cons density densities ih => exact congrArg (· + 1) (ih _)

end Sums

/-! ### The results -/

section Results

variable {E : Engine ρ} {table rows : List (PmaRow ρ)} {out : List (EstimateRow ρ)} {cpu : ℤ}

/-- What is concatenated. -/
theorem concat_eq_some {dfs : List (List (EstimateRow ρ))} (h : concat dfs = some out) :
    out = dfs.flatten := by
  rw [concat] at h
  split_ifs at h
  exact (Option.some.inj h).symm

theorem sort_nil : E.sort [] = [] := (E.sort_perm []).eq_nil

theorem map_row_intervals : (intervals rows).map Interval.row = rows := map_row_intervalsFrom

theorem row_mem_of_mem_intervals {i : Interval ρ} (h : i ∈ intervals rows) : i.row ∈ rows := by
  have hrow := List.mem_map_of_mem (f := Interval.row) h
  rwa [map_row_intervals] at hrow

/-- Each value is that of a row. -/
theorem cpu_of_mem_byCpuPdf {e : EstimateRow ρ} (h : e ∈ byCpuPdf rows) :
    ∃ row ∈ rows, e.cpu = row.cpu := by
  obtain ⟨i, hi, rfl⟩ := List.mem_map.1 h
  exact ⟨i.row, row_mem_of_mem_intervals hi, rfl⟩

theorem cpu_of_mem_byCpuCdf {e : EstimateRow ρ} (h : e ∈ byCpuCdf rows) :
    ∃ row ∈ rows, e.cpu = row.cpu := by
  obtain ⟨p, hp, rfl⟩ := List.mem_map.1 h
  exact ⟨p.1.row, row_mem_of_mem_intervals (List.of_mem_zip hp).1, rfl⟩

theorem map_value_byCpuPdf : (byCpuPdf rows).map EstimateRow.value =
    (intervals rows).map Interval.density := by
  rw [byCpuPdf, List.map_map]
  rfl

theorem map_value_byCpuCdf : (byCpuCdf rows).map EstimateRow.value =
    cumSum (some 0) ((intervals rows).map Interval.density) := by
  rw [byCpuCdf, List.map_map]
  exact List.map_snd_zip (by rw [length_cumSum, List.length_map])

/-- The rows of a CPU in a result that is computed CPU by CPU. -/
theorem ofKey_concat {f : List (PmaRow ρ) → List (EstimateRow ρ)} (hnil : f [] = [])
    (hf : ∀ rows, ∀ e ∈ f rows, ∃ row ∈ rows, e.cpu = row.cpu)
    (h : concat ((E.groups table).map fun e ↦ f (E.sort e.2)) = some out) (cpu : ℤ) :
    ofKey EstimateRow.cpu out cpu = f (cpuRows E table cpu) := by
  obtain rfl := concat_eq_some h
  rw [← List.flatMap_def]
  refine (E.grouped table).ofKey_flatMap (f := fun rows ↦ f (E.sort rows))
    (by rw [sort_nil, hnil]) (fun k b hb ↦ ?_) cpu
  obtain ⟨row, hrow, hcpu⟩ := hf _ b hb
  exact hcpu.trans (mem_ofKey.1 ((E.sort_perm _).mem_iff.1 hrow)).2

/-- **The rows of a CPU** in the densities. -/
theorem ofKey_cumulativePmaAsPdf (h : cumulativePmaAsPdf E table = some out) (cpu : ℤ) :
    ofKey EstimateRow.cpu out cpu = byCpuPdf (cpuRows E table cpu) :=
  ofKey_concat rfl (fun _ _ ↦ cpu_of_mem_byCpuPdf) h cpu

/-- **The rows of a CPU** in the sums. -/
theorem ofKey_cumulativePmaAsCdf (h : cumulativePmaAsCdf E table = some out) (cpu : ℤ) :
    ofKey EstimateRow.cpu out cpu = byCpuCdf (cpuRows E table cpu) :=
  ofKey_concat rfl (fun _ _ ↦ cpu_of_mem_byCpuCdf) h cpu

/-- A table with a row has a result. -/
theorem exists_concat {f : List (PmaRow ρ) → List (EstimateRow ρ)} (hne : table ≠ []) :
    ∃ out, concat ((E.groups table).map fun e ↦ f (E.sort e.2)) = some out := by
  obtain ⟨row, hrow⟩ := List.exists_mem_of_ne_nil table hne
  obtain ⟨e, he, -⟩ := List.mem_map.1
    (((E.grouped table).keys row.cpu).2 (List.mem_map_of_mem hrow))
  refine ⟨_, if_neg fun hnil ↦ ?_⟩
  exact List.not_mem_nil (List.map_eq_nil_iff.1 hnil ▸ he)

/-- **Both results estimate the full count, exactly where no interval needs scaling.** -/
theorem estimatesFull_iff (E : Engine ρ) (table : List (PmaRow ρ))
    (h : ∀ cpu, ∀ i ∈ intervals (cpuRows E table cpu), i.Multiplexed) :
    EstimatesFull E table ↔
      ∀ cpu, ∀ i ∈ intervals (cpuRows E table cpu), i.NeedsNoScaling := by
  have hnone : ∀ i : Interval ρ, ¬ i.Estimates none := fun i hi ↦
    absurd hi.defined Bool.false_ne_true
  have hpdf : ∀ cpu, (intervals (cpuRows E table cpu)).Forall₂ Interval.Estimates
      ((intervals (cpuRows E table cpu)).map Interval.density) ↔
      ∀ i ∈ intervals (cpuRows E table cpu), i.NeedsNoScaling := by
    intro cpu
    rw [List.forall₂_map_right_iff, List.forall₂_same]
    exact forall₂_congr fun i hi ↦ estimates_density_iff (h cpu i hi)
  have hcdf : ∀ cpu, (intervals (cpuRows E table cpu)).Forall₂ Interval.Estimates
      (increments (cumSum (some 0) ((intervals (cpuRows E table cpu)).map Interval.density))) ↔
      ∀ i ∈ intervals (cpuRows E table cpu), i.NeedsNoScaling := fun cpu ↦
    (forall₂_increments_iff hnone 0).trans (hpdf cpu)
  constructor
  · intro hfull cpu
    by_cases hne : table = []
    · have hempty : cpuRows E table cpu = [] := by
        rw [hne]
        exact sort_nil
      rw [hempty]
      exact fun i hi ↦ absurd hi List.not_mem_nil
    · obtain ⟨out, hout⟩ := exists_concat (E := E) (f := byCpuPdf) hne
      have hvalues := hfull.1 out hout cpu
      rw [cpuValues, ofKey_cumulativePmaAsPdf hout, map_value_byCpuPdf] at hvalues
      exact (hpdf cpu).1 hvalues
  · intro hno
    refine ⟨fun out hout cpu ↦ ?_, fun out hout cpu ↦ ?_⟩
    · rw [cpuValues, ofKey_cumulativePmaAsPdf hout, map_value_byCpuPdf]
      exact (hpdf cpu).2 (hno cpu)
    · rw [cpuValues, ofKey_cumulativePmaAsCdf hout, map_value_byCpuCdf]
      exact (hcdf cpu).2 (hno cpu)

end Results

/-! ### One interval -/

section Examples

/-- One group after the other, and an insertion sort. -/
def inOrder : Engine Unit where
  groups := grouped PmaRow.cpu
  grouped rows := groupedBy_grouped PmaRow.cpu rows
  sort rows := rows.insertionSort fun r r' ↦ r.tsUptimeUs ≤ r'.tsUptimeUs
  sort_perm rows := List.perm_insertionSort _ rows
  sort_sorted rows := by
    have htotal : Std.Total fun r r' : PmaRow Unit ↦ r.tsUptimeUs ≤ r'.tsUptimeUs :=
      ⟨fun _ _ ↦ le_total _ _⟩
    have htrans : IsTrans _ fun r r' : PmaRow Unit ↦ r.tsUptimeUs ≤ r'.tsUptimeUs :=
      ⟨fun _ _ _ ↦ le_trans⟩
    exact List.pairwise_insertionSort _ rows

/-- A table of one row: 100 events while the counter was enabled for 10, and ran for some of it. -/
def oneRow (running : ℤ) : List (PmaRow Unit) := [⟨0, 5, 100, 10, running, ()⟩]

theorem intervals_oneRow {running cpu : ℤ} {i : Interval Unit}
    (hi : i ∈ intervals (cpuRows inOrder (oneRow running) cpu)) :
    i = ⟨⟨0, 5, 100, 10, running, ()⟩, 0, 0, 0⟩ := by
  by_cases hcpu : (0 : ℤ) = cpu
  · subst hcpu
    exact List.mem_singleton.1 hi
  · have hempty : ofKey PmaRow.cpu (oneRow running) cpu = [] :=
      List.filter_eq_nil_iff.2 fun r hr ↦ by simpa [List.mem_singleton.1 hr] using hcpu
    rw [cpuRows, hempty, sort_nil] at hi
    exact absurd hi List.not_mem_nil

theorem estimatesFull_throughout : EstimatesFull inOrder (oneRow 10) := by
  refine (estimatesFull_iff inOrder (oneRow 10) fun cpu i hi ↦ ?_).2 fun cpu i hi ↦ ?_
  · rw [intervals_oneRow hi]
    exact ⟨by decide, by decide, by decide⟩
  · rw [intervals_oneRow hi]
    exact ⟨fun _ ↦ .inr rfl, fun h ↦ absurd h (by decide)⟩

/-- **A counter that ran for half of the time** counts 100 events and is estimated at 50. -/
theorem not_estimatesFull_half :
    (∀ cpu, ∀ i ∈ intervals (cpuRows inOrder (oneRow 5) cpu), i.Multiplexed) ∧
      ¬ EstimatesFull inOrder (oneRow 5) := by
  refine ⟨fun cpu i hi ↦ ?_, fun h ↦ ?_⟩
  · rw [intervals_oneRow hi]
    exact ⟨by decide, by decide, by decide⟩
  · have hvalues := h.1 [⟨0, 5, (), some 50, 5⟩] (by decide +kernel) 0
    have hestimates := (List.forall₂_cons.1 hvalues).1
    have hle : (100 : ℚ) ≤ 50 := hestimates.le 50 rfl (by decide)
    exact absurd hle (by decide)

end Examples

end Perf
