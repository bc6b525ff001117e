import HugePageResearch.Analysis.Harness
import HugePageResearch.Library.Lists
import HugePageResearch.Library.Steps
import HugePageResearch.Polars.Expressions
import Mathlib.Algebra.Order.BigOperators.Group.Finset

/-!
# Cumulative counters

`CounterIndex`, `_build_counter_index`, `_counter_delta` and `_window_features` of
`analysis/thp_harness.py`, with exact arithmetic. A counter is sampled on each CPU at its own times.
The index keeps the samples of a CPU in the order of their times, finds the last one at or before a
time by bisection, and adds what it finds on each CPU.

## The result

`counterIndex_spec`: the index is built, its value at a time is the sum of the latest counts, and
the differences of these are a measure: what two adjacent windows count is what one window over both
counts.
-/

namespace Analysis

open Lists Polars Groups

/-! ### The code -/

/-- `CounterIndex`, with as many counts as times for each CPU. -/
structure CounterIndex where
  tsByCpu : Dict ℤ (List ℤ)
  cumulativeByCpu : Dict ℤ (List ℚ)
  aligned : ∀ cpu tsList, tsByCpu.get? cpu = some tsList →
    ∃ counts, cumulativeByCpu.get? cpu = some counts ∧ counts.length = tsList.length

namespace CounterIndex

/-- `CounterIndex(ts_by_cpu={}, cumulative_by_cpu={})`. -/
def empty : CounterIndex := ⟨.empty, .empty, fun _ _ h ↦ absurd h (Option.some_ne_none _).symm⟩

/-- `ts_by_cpu[cpu] = ...` and `cumulative_by_cpu[cpu] = ...`. -/
def add (index : CounterIndex) (cpu : ℤ) (entries : List (ℤ × ℚ)) : CounterIndex where
  tsByCpu := index.tsByCpu.set cpu (entries.map Prod.fst)
  cumulativeByCpu := index.cumulativeByCpu.set cpu (entries.map Prod.snd)
  aligned cpu' tsList h := by
    rw [Dict.get?_set] at h ⊢
    split_ifs at h ⊢ with hcpu
    · obtain rfl := Option.some.inj h
      exact ⟨_, rfl, by rw [List.length_map, List.length_map]⟩
    · exact index.aligned cpu' tsList h

end CounterIndex

/-- The index of the groups, which is filled CPU by CPU. -/
def indexOf (groups : List (ℤ × List (ℤ × ℚ))) : CounterIndex :=
  groups.foldl (fun index e ↦ index.add e.1 e.2) .empty

/-- `bisect.bisect_right(ts_list, ts_ns)`, for a sorted list. -/
def bisectRight (tsList : List ℤ) (tsNs : ℤ) : ℕ := (tsList.takeWhile (· ≤ tsNs)).length

/-- `cumulative_at`. -/
def CounterIndex.cumulativeAt (index : CounterIndex) (tsNs : ℤ) : ℚ :=
  index.tsByCpu.items.foldl
    (fun total e ↦
      match bisectRight e.2 tsNs with
      -- `continue`, also where the list is empty
      | 0 => total
      | idx + 1 => total + ((index.cumulativeByCpu.get? e.1).getD []).getD idx 0) 0

/-- `filtered.filter(pl.col("tgid") == tgid)`, if there is a `tgid`. -/
def filterTgid (f : Frame Unit) (tgid : Option ℤ) : Frame Unit :=
  match tgid with
  | none => f
  | some tgid =>
    if "tgid".toList ∈ f.columns then f.filter fun r ↦ r.cells "tgid".toList = .int tgid else f

/-- `pl.col(...) * 1000`. -/
def times1000 : Value → Value
  | .int n => .int (n * 1000)
  | .float q => .float (q * 1000)
  | _ => .null

/-- The frame with a column `ts_ns`, if it has a time. -/
def withTsNs (f : Frame Unit) : Frame Unit :=
  if "ts_ns".toList ∉ f.columns ∧ "ts_uptime_us".toList ∈ f.columns then
    f.withColumn "ts_ns".toList fun r ↦ times1000 (r.cells "ts_uptime_us".toList)
  else f

section Index

variable [Python]

/-- What one group adds to the index: the CPU, and its times with their counts. -/
def groupEntries (E : Engine Unit) (f : Frame Unit) (cumulativeCol : PyStr)
    (group : Value × List (Row Unit)) : Except HarnessError (ℤ × List (ℤ × ℚ)) := do
  let cpu ← toInt group.1
  let sorted ← polars (if "ts_ns".toList ∈ f.columns then some (E.sort "ts_ns".toList group.2)
    else none)
  let tsList ← polars (sorted.mapM fun r ↦ (r.cells "ts_ns".toList).castInt64)
  let counts ← polars (sorted.mapM fun r ↦ (r.cells cumulativeCol).castFloat64)
  return (cpu, tsList.zip counts)

/-- `_build_counter_index`. -/
def buildCounterIndex (E : Engine Unit) (G : Grouping Unit) (table : Table) (cumulativeCol : PyStr)
    (tgid : Option ℤ) : Except HarnessError CounterIndex :=
  match table with
  | none => .ok .empty
  | some f =>
    if f.rows = [] ∨ cumulativeCol ∉ f.columns then .ok .empty
    else
      let filtered := filterTgid f tgid
      if filtered.rows = [] then .ok .empty
      else
        let filtered := withTsNs filtered
        if "cpu".toList ∈ filtered.columns then
          ((G.groups "cpu".toList filtered.rows).mapM (groupEntries E filtered cumulativeCol)).map
            indexOf
        else .error .polarsError

end Index

/-- `_counter_delta`. -/
def counterDelta (index : CounterIndex) (startNs endNs : ℤ) : ℚ :=
  if endNs ≤ startNs then 0 else max (index.cumulativeAt endNs - index.cumulativeAt startNs) 0

/-- A candidate, by the columns that are read. -/
structure WindowCandidate where
  decisionId : PyStr
  pid : ℤ
  tgid : ℤ
  tsNs : ℤ

/-- A row of the features of one window. -/
structure WindowRow where
  decisionId : PyStr
  pid : ℤ
  tgid : ℤ
  tsNs : ℤ
  windowMs : ℤ
  instructionsPre : ℚ
  instructionsPost : ℚ
  dtlbMissPre : ℚ
  dtlbMissPost : ℚ
  walkPre : ℚ
  walkPost : ℚ
  tlbFlushPre : ℚ
  tlbFlushPost : ℚ
  missRatePre : ℚ
  missRatePost : ℚ
  walkRatePre : ℚ
  walkRatePost : ℚ
  tlbFlushRatePre : ℚ
  tlbFlushRatePost : ℚ
  deltaMissRate : ℚ
  deltaWalkRate : ℚ
  deltaTlbFlushRate : ℚ
  collectionId : PyStr

/-- One round of the loop of `_window_features`. -/
def windowRow (windowMs : ℤ) (instructionsIdx dtlbIdx walkIdx tlbFlushIdx : CounterIndex)
    (collectionId : PyStr) (candidate : WindowCandidate) : WindowRow :=
  let windowNs := windowMs * 1000000
  let tsNs := candidate.tsNs
  let preStart := tsNs - windowNs
  let preEnd := tsNs
  let postEnd := tsNs + windowNs
  let instrPre := counterDelta instructionsIdx preStart preEnd
  let instrPost := counterDelta instructionsIdx preEnd postEnd
  let dtlbPre := counterDelta dtlbIdx preStart preEnd
  let dtlbPost := counterDelta dtlbIdx preEnd postEnd
  let walkPre := counterDelta walkIdx preStart preEnd
  let walkPost := counterDelta walkIdx preEnd postEnd
  let tlbPre := counterDelta tlbFlushIdx preStart preEnd
  let tlbPost := counterDelta tlbFlushIdx preEnd postEnd
  let missRatePre := dtlbPre / max instrPre 1
  let missRatePost := dtlbPost / max instrPost 1
  let walkRatePre := walkPre / max instrPre 1
  let walkRatePost := walkPost / max instrPost 1
  let tlbRatePre := tlbPre / max instrPre 1
  let tlbRatePost := tlbPost / max instrPost 1
  { decisionId := candidate.decisionId
    pid := candidate.pid
    tgid := candidate.tgid
    tsNs
    windowMs
    instructionsPre := instrPre
    instructionsPost := instrPost
    dtlbMissPre := dtlbPre
    dtlbMissPost := dtlbPost
    walkPre
    walkPost
    tlbFlushPre := tlbPre
    tlbFlushPost := tlbPost
    missRatePre
    missRatePost
    walkRatePre
    walkRatePost
    tlbFlushRatePre := tlbRatePre
    tlbFlushRatePost := tlbRatePost
    deltaMissRate := missRatePost - missRatePre
    deltaWalkRate := walkRatePost - walkRatePre
    deltaTlbFlushRate := tlbRatePost - tlbRatePre
    collectionId }

/-- `_window_features`. -/
def windowFeatures (candidates : List WindowCandidate) (windowMs : ℤ)
    (instructionsIdx dtlbIdx walkIdx tlbFlushIdx : CounterIndex) (collectionId : PyStr) :
    List WindowRow :=
  candidates.map (windowRow windowMs instructionsIdx dtlbIdx walkIdx tlbFlushIdx collectionId)

/-! ### Measuring the samples -/

/-- A sample of a counter. -/
structure Sample where
  cpu : ℤ
  ts : ℤ
  count : ℚ

/-- `ts_ns` of a row, or `ts_uptime_us` in nanoseconds. -/
def tsCell (f : Frame Unit) (r : Row Unit) : Value :=
  if "ts_ns".toList ∉ f.columns ∧ "ts_uptime_us".toList ∈ f.columns then
    times1000 (r.cells "ts_uptime_us".toList)
  else r.cells "ts_ns".toList

/-- A row holds a sample. -/
structure IsSample (f : Frame Unit) (cumulativeCol : PyStr) (r : Row Unit) (s : Sample) :
    Prop where
  cpu : r.cells "cpu".toList = .int s.cpu
  ts : tsCell f r = .int s.ts
  count : (r.cells cumulativeCol).castFloat64 = some s.count

/-- **A table holds the samples** of a process, in any order. -/
def HoldsSamples (table : Table) (cumulativeCol : PyStr) (tgid : Option ℤ)
    (samples : List Sample) : Prop :=
  match table with
  | none => samples = []
  | some f => (filterTgid f tgid).rows.Forall₂ (IsSample f cumulativeCol) samples

/-- **The counts grow**: they are not negative, and do not fall in time on a CPU. -/
structure Nondecreasing (samples : List Sample) : Prop where
  nonneg : ∀ s ∈ samples, 0 ≤ s.count
  le : ∀ s ∈ samples, ∀ s' ∈ samples, s.cpu = s'.cpu → s.ts < s'.ts → s.count ≤ s'.count

/-- **The latest count** of a CPU at or before a time, and zero where there is none. -/
def LatestCount (samples : List Sample) (cpu t : ℤ) (count : ℚ) : Prop :=
  (∃ s ∈ samples, s.cpu = cpu ∧ s.ts ≤ t ∧ s.count = count ∧
    ∀ s' ∈ samples, s'.cpu = cpu → s'.ts ≤ t → s'.ts ≤ s.ts) ∨
  count = 0 ∧ ∀ s ∈ samples, s.cpu = cpu → t < s.ts

/-- **The sum of the latest counts.** -/
def IsCumulativeAt (samples : List Sample) (t : ℤ) (total : ℚ) : Prop :=
  ∃ count : ℤ → ℚ, (∀ cpu, LatestCount samples cpu t (count cpu)) ∧
    total = ∑ cpu ∈ (samples.map Sample.cpu).toFinset, count cpu

/-- **The row of a candidate**: it names the candidate, and a counter has in it what the counter
counted in the window before the candidate, and in the one after. -/
structure CountsWindows (index : CounterIndex) (windowMs : ℤ) (pre post : WindowRow → ℚ)
    (candidate : WindowCandidate) (row : WindowRow) : Prop where
  decisionId : row.decisionId = candidate.decisionId
  pid : row.pid = candidate.pid
  tgid : row.tgid = candidate.tgid
  tsNs : row.tsNs = candidate.tsNs
  width : row.windowMs = windowMs
  before : pre row = counterDelta index (candidate.tsNs - windowMs * 1000000) candidate.tsNs
  after : post row = counterDelta index candidate.tsNs (candidate.tsNs + windowMs * 1000000)
  add : pre row + post row =
    counterDelta index (candidate.tsNs - windowMs * 1000000) (candidate.tsNs + windowMs * 1000000)

/-- **The two windows of each candidate** count what one over both does: there is one row for each
candidate, in order, and it is so for each of the four counters. -/
structure WindowsAdd (index : CounterIndex) : Prop where
  instructions : ∀ (candidates : List WindowCandidate) windowMs i j k collectionId,
    candidates.Forall₂ (CountsWindows index windowMs (·.instructionsPre) (·.instructionsPost))
      (windowFeatures candidates windowMs index i j k collectionId)
  dtlbMiss : ∀ (candidates : List WindowCandidate) windowMs i j k collectionId,
    candidates.Forall₂ (CountsWindows index windowMs (·.dtlbMissPre) (·.dtlbMissPost))
      (windowFeatures candidates windowMs i index j k collectionId)
  walk : ∀ (candidates : List WindowCandidate) windowMs i j k collectionId,
    candidates.Forall₂ (CountsWindows index windowMs (·.walkPre) (·.walkPost))
      (windowFeatures candidates windowMs i j index k collectionId)
  tlbFlush : ∀ (candidates : List WindowCandidate) windowMs i j k collectionId,
    candidates.Forall₂ (CountsWindows index windowMs (·.tlbFlushPre) (·.tlbFlushPost))
      (windowFeatures candidates windowMs i j k index collectionId)

/-- A value that does not fall in time. -/
def Grows (value : ℤ → ℚ) : Prop := ∀ t t', t ≤ t' → value t ≤ value t'

/-- **An index measures its samples.** -/
structure Measures (index : CounterIndex) (samples : List Sample) : Prop where
  cumulative : ∀ t, IsCumulativeAt samples t (index.cumulativeAt t)
  mono : Grows index.cumulativeAt
  delta_nonneg : ∀ a b, 0 ≤ counterDelta index a b
  delta_eq : ∀ a b, a ≤ b →
    counterDelta index a b = index.cumulativeAt b - index.cumulativeAt a
  delta_add : ∀ a b c, a ≤ b → b ≤ c →
    counterDelta index a b + counterDelta index b c = counterDelta index a c
  windows : WindowsAdd index

/-! ### Differences -/

section Differences

variable {index : CounterIndex} {a b c : ℤ}

theorem counterDelta_nonneg (index : CounterIndex) (a b : ℤ) : 0 ≤ counterDelta index a b := by
  rw [counterDelta]
  split_ifs
  · exact le_rfl
  · exact le_max_right _ _

/-- **A difference of the cumulative values**, where these grow. -/
theorem counterDelta_eq (hmono : Grows index.cumulativeAt) (hab : a ≤ b) :
    counterDelta index a b = index.cumulativeAt b - index.cumulativeAt a := by
  rw [counterDelta]
  split_ifs with hba
  · rw [hab.antisymm hba, sub_self]
  · exact max_eq_left (sub_nonneg.2 (hmono a b hab))

/-- **Adjacent windows.** -/
theorem counterDelta_add (hmono : Grows index.cumulativeAt) (hab : a ≤ b) (hbc : b ≤ c) :
    counterDelta index a b + counterDelta index b c = counterDelta index a c := by
  rw [counterDelta_eq hmono hab, counterDelta_eq hmono hbc, counterDelta_eq hmono (hab.trans hbc)]
  exact sub_add_sub_cancel' _ _ _

/-- The windows before and after a time, of any width. -/
theorem counterDelta_windows (hmono : Grows index.cumulativeAt) (ts width : ℤ) :
    counterDelta index (ts - width) ts + counterDelta index ts (ts + width) =
      counterDelta index (ts - width) (ts + width) := by
  rcases le_or_gt 0 width with hwidth | hwidth
  · exact counterDelta_add hmono (sub_le_self ts hwidth) (le_add_of_nonneg_right hwidth)
  · -- a window of negative width is empty
    rw [counterDelta, counterDelta, counterDelta, if_pos (by omega), if_pos (by omega),
      if_pos (by omega), add_zero]

theorem windowsAdd (hmono : Grows index.cumulativeAt) : WindowsAdd index where
  instructions _ _ _ _ _ _ := forall₂_map_self (fun _ ↦
    ⟨rfl, rfl, rfl, rfl, rfl, rfl, rfl, counterDelta_windows hmono _ _⟩) _
  dtlbMiss _ _ _ _ _ _ := forall₂_map_self (fun _ ↦
    ⟨rfl, rfl, rfl, rfl, rfl, rfl, rfl, counterDelta_windows hmono _ _⟩) _
  walk _ _ _ _ _ _ := forall₂_map_self (fun _ ↦
    ⟨rfl, rfl, rfl, rfl, rfl, rfl, rfl, counterDelta_windows hmono _ _⟩) _
  tlbFlush _ _ _ _ _ _ := forall₂_map_self (fun _ ↦
    ⟨rfl, rfl, rfl, rfl, rfl, rfl, rfl, counterDelta_windows hmono _ _⟩) _

end Differences

/-! ### The value of an index -/

/-- What an index adds for the samples of one CPU, sorted by their times. -/
def latestCount (entries : List (ℤ × ℚ)) (t : ℤ) : ℚ :=
  (Steps.lastAt Prod.fst entries t).elim 0 Prod.snd

section Value

variable {entries : List (ℤ × ℚ)} {t : ℤ}

/-- The bisection finds the last entry at or before the time. -/
theorem bisectRight_getD (entries : List (ℤ × ℚ)) (t : ℤ) (total : ℚ) :
    (match bisectRight (entries.map Prod.fst) t with
      | 0 => total
      | idx + 1 => total + (entries.map Prod.snd).getD idx 0) = total + latestCount entries t := by
  have hlength : bisectRight (entries.map Prod.fst) t =
      (entries.takeWhile fun e ↦ e.1 ≤ t).length := by
    rw [bisectRight, List.takeWhile_map, List.length_map]
    rfl
  rw [hlength, latestCount, Steps.lastAt]
  rcases List.eq_nil_or_concat (entries.takeWhile fun e ↦ e.1 ≤ t) with hnil | ⟨init, e, hconcat⟩
  · rw [hnil]
    exact (add_zero total).symm
  · rw [List.concat_eq_append] at hconcat
    obtain ⟨rest, hrest⟩ := List.takeWhile_prefix (l := entries) fun e ↦ decide (e.1 ≤ t)
    have hget : (entries.map Prod.snd).getD init.length 0 = e.2 := by
      rw [← hrest, hconcat]
      simp
    rw [hconcat, List.length_append, List.getLast?_concat]
    exact congrArg (total + ·) hget

variable {groups : List (ℤ × List (ℤ × ℚ))}

theorem items_foldl_set_map {β : Type*} (hnd : (groups.map Prod.fst).Nodup)
    (f : List (ℤ × ℚ) → β) :
    ((groups.map fun e ↦ (e.1, f e.2)).foldl (fun d e ↦ d.set e.1 e.2) Dict.empty).items =
      groups.map fun e ↦ (e.1, f e.2) := by
  refine Dict.items_foldl_set_empty ?_
  rwa [List.map_map]

/-- **What it holds**: the times and the counts of each CPU. -/
theorem items_indexOf (hnd : (groups.map Prod.fst).Nodup) :
    (indexOf groups).tsByCpu.items = groups.map (fun e ↦ (e.1, e.2.map Prod.fst)) ∧
      (indexOf groups).cumulativeByCpu.items = groups.map fun e ↦ (e.1, e.2.map Prod.snd) := by
  have hadd : ∀ (groups : List (ℤ × List (ℤ × ℚ))) (index : CounterIndex),
      (groups.foldl (fun index e ↦ index.add e.1 e.2) index).tsByCpu =
        (groups.map fun e ↦ (e.1, e.2.map Prod.fst)).foldl (fun d e ↦ d.set e.1 e.2)
          index.tsByCpu ∧
      (groups.foldl (fun index e ↦ index.add e.1 e.2) index).cumulativeByCpu =
        (groups.map fun e ↦ (e.1, e.2.map Prod.snd)).foldl (fun d e ↦ d.set e.1 e.2)
          index.cumulativeByCpu := by
    intro groups
    induction groups with
    | nil => exact fun _ ↦ ⟨rfl, rfl⟩
    | cons e groups ih => exact fun index ↦ ih (index.add e.1 e.2)
  obtain ⟨hts, hcounts⟩ := hadd groups .empty
  rw [indexOf, hts, hcounts]
  exact ⟨items_foldl_set_map hnd _, items_foldl_set_map hnd _⟩

/-- **Its value** is the sum over the CPUs. -/
theorem cumulativeAt_indexOf (hnd : (groups.map Prod.fst).Nodup) (t : ℤ) :
    (indexOf groups).cumulativeAt t = (groups.map fun e ↦ latestCount e.2 t).sum := by
  obtain ⟨hts, hcounts⟩ := items_indexOf hnd
  have hget : ∀ e ∈ groups, (indexOf groups).cumulativeByCpu.get? e.1 = some (e.2.map Prod.snd) :=
    fun e he ↦ by
      rw [Dict.get?_eq_some, hcounts]
      exact List.mem_map.2 ⟨e, he, rfl⟩
  -- each round adds the latest count of its CPU
  have hround : ∀ (l : List (ℤ × List (ℤ × ℚ))) (total : ℚ), (∀ e ∈ l, e ∈ groups) →
      l.foldl (fun total e ↦ match bisectRight (e.2.map Prod.fst) t with
        | 0 => total
        | idx + 1 => total + (((indexOf groups).cumulativeByCpu.get? e.1).getD []).getD idx 0)
        total = total + (l.map fun e ↦ latestCount e.2 t).sum := by
    intro l
    induction l with
    | nil => exact fun total _ ↦ (add_zero total).symm
    | cons e l ih =>
      intro total hl
      obtain ⟨he, hl⟩ := List.forall_mem_cons.1 hl
      rw [List.foldl_cons, hget e he, Option.getD_some, bisectRight_getD, ih _ hl, List.map_cons,
        List.sum_cons, add_assoc]
  rw [CounterIndex.cumulativeAt, hts, List.foldl_map]
  exact (hround groups 0 fun _ he ↦ he).trans (zero_add _)

/-- **It grows** where the counts do. -/
theorem latestCount_mono (hsorted : entries.Pairwise fun e e' ↦ e.1 ≤ e'.1)
    (hnonneg : ∀ e ∈ entries, 0 ≤ e.2)
    (hle : ∀ e ∈ entries, ∀ e' ∈ entries, e.1 < e'.1 → e.2 ≤ e'.2) :
    Grows (latestCount entries) := by
  intro t t' htt'
  rw [latestCount, latestCount]
  cases h : Steps.lastAt Prod.fst entries t with
  | none =>
    cases h' : Steps.lastAt Prod.fst entries t' with
    | none => exact le_rfl
    | some e => exact hnonneg e (Steps.lastAt_eq_some hsorted h').1
  | some e =>
    obtain ⟨e', h', rfl | hlt⟩ := Steps.lastAt_mono hsorted htt' h
    · rw [h']
    · rw [h']
      exact hle e (Steps.lastAt_eq_some hsorted h).1 e' (Steps.lastAt_eq_some hsorted h').1 hlt

end Value

/-! ### The samples of a CPU -/

section Samples

/-- A row of the frame that is grouped holds a sample. -/
structure IsRow (col : PyStr) (r : Row Unit) (s : Sample) : Prop where
  cpu : r.cells "cpu".toList = .int s.cpu
  ts : r.cells "ts_ns".toList = .int s.ts
  count : (r.cells col).castFloat64 = some s.count

/-- The time and the count of a row. -/
def entryOf (col : PyStr) (r : Row Unit) : ℤ × ℚ :=
  (Engine.sortKey (r.cells "ts_ns".toList), (r.cells col).castFloat64.getD 0)

/-- The entries of a CPU in the index. -/
def cpuEntries (E : Engine Unit) (col : PyStr) (rows : List (Row Unit)) (cpu : Value) :
    List (ℤ × ℚ) :=
  (E.sort "ts_ns".toList (ofKey (fun r ↦ r.cells "cpu".toList) rows cpu)).map (entryOf col)

variable {E : Engine Unit} {col : PyStr} {rows : List (Row Unit)} {samples : List Sample}
  {r : Row Unit} {s : Sample} {cpu : ℤ} {t : ℤ}

theorem IsRow.entryOf (h : IsRow col r s) : entryOf col r = (s.ts, s.count) := by
  rw [Analysis.entryOf, h.ts, h.count]
  rfl

/-- **The entries of a CPU** are its samples. -/
theorem mem_cpuEntries (h : rows.Forall₂ (IsRow col) samples) {e : ℤ × ℚ} :
    e ∈ cpuEntries E col rows (.int cpu) ↔
      ∃ s ∈ samples, s.cpu = cpu ∧ (s.ts, s.count) = e := by
  rw [cpuEntries, List.mem_map]
  constructor
  · rintro ⟨r, hr, rfl⟩
    obtain ⟨hr, hcpu⟩ := mem_ofKey.1 ((E.sort_perm _ _).mem_iff.1 hr)
    obtain ⟨s, hs, hrow⟩ := exists_of_mem_of_forall₂ h hr
    exact ⟨s, hs, Value.int.inj (hrow.cpu.symm.trans hcpu), hrow.entryOf.symm⟩
  · rintro ⟨s, hs, rfl, rfl⟩
    obtain ⟨r, hr, hrow⟩ := exists_of_mem_of_forall₂ h.flip hs
    exact ⟨r, (E.sort_perm _ _).mem_iff.2 (mem_ofKey.2 ⟨hr, hrow.cpu⟩), hrow.entryOf⟩

theorem pairwise_cpuEntries (h : rows.Forall₂ (IsRow col) samples) :
    (cpuEntries E col rows (.int cpu)).Pairwise fun e e' ↦ e.1 ≤ e'.1 := by
  rw [cpuEntries, List.pairwise_map]
  refine (E.sort_sorted _ _).imp_of_mem fun {r r'} hr hr' hle ↦ ?_
  obtain ⟨s, -, hrow⟩ := exists_of_mem_of_forall₂ h
    (mem_ofKey.1 ((E.sort_perm _ _).mem_iff.1 hr)).1
  obtain ⟨s', -, hrow'⟩ := exists_of_mem_of_forall₂ h
    (mem_ofKey.1 ((E.sort_perm _ _).mem_iff.1 hr')).1
  rw [hrow.entryOf, hrow'.entryOf]
  exact hle _ _ hrow.ts hrow'.ts

/-- **What the index finds for a CPU** is its latest count. -/
theorem latestCount_cpuEntries (h : rows.Forall₂ (IsRow col) samples) (cpu t : ℤ) :
    LatestCount samples cpu t (latestCount (cpuEntries E col rows (.int cpu)) t) := by
  have hsorted : (cpuEntries E col rows (.int cpu)).Pairwise fun e e' ↦ e.1 ≤ e'.1 :=
    pairwise_cpuEntries h
  rw [latestCount]
  cases hlast : Steps.lastAt Prod.fst (cpuEntries E col rows (.int cpu)) t with
  | none =>
    refine .inr ⟨rfl, fun s hs hcpu ↦ ?_⟩
    exact (Steps.lastAt_eq_none hsorted).1 hlast _ ((mem_cpuEntries h).2 ⟨s, hs, hcpu, rfl⟩)
  | some e =>
    obtain ⟨he, hle, hmax⟩ := Steps.lastAt_eq_some hsorted hlast
    obtain ⟨s, hs, hcpu, rfl⟩ := (mem_cpuEntries h).1 he
    refine .inl ⟨s, hs, hcpu, hle, rfl, fun s' hs' hcpu' hle' ↦ ?_⟩
    exact hmax _ ((mem_cpuEntries h).2 ⟨s', hs', hcpu', rfl⟩) hle'

/-- It grows. -/
theorem latestCount_cpuEntries_mono (h : rows.Forall₂ (IsRow col) samples)
    (hmono : Nondecreasing samples) (cpu : ℤ) :
    Grows (latestCount (cpuEntries E col rows (.int cpu))) := by
  refine latestCount_mono (pairwise_cpuEntries h) (fun e he ↦ ?_) fun e he e' he' hlt ↦ ?_
  · obtain ⟨s, hs, -, rfl⟩ := (mem_cpuEntries h).1 he
    exact hmono.nonneg s hs
  · obtain ⟨s, hs, hcpu, rfl⟩ := (mem_cpuEntries h).1 he
    obtain ⟨s', hs', hcpu', rfl⟩ := (mem_cpuEntries h).1 he'
    exact hmono.le s hs s' hs' (hcpu.trans hcpu'.symm) hlt

end Samples

/-! ### The index of a table -/

section Build

variable {E : Engine Unit} {G : Grouping Unit} {col : PyStr} {f : Frame Unit} {table : Table}
  {tgid : Option ℤ} {rows : List (Row Unit)} {samples : List Sample} {r : Row Unit} {cpu : ℤ}

theorem columns_filterTgid (f : Frame Unit) (tgid : Option ℤ) :
    (filterTgid f tgid).columns = f.columns := by
  cases tgid with
  | none => rfl
  | some tgid =>
    rw [filterTgid]
    split_ifs <;> rfl

theorem rows_filterTgid_subset (hr : r ∈ (filterTgid f tgid).rows) : r ∈ f.rows := by
  cases tgid with
  | none => exact hr
  | some tgid =>
    rw [filterTgid] at hr
    split_ifs at hr
    · exact (List.mem_filter.1 hr).1
    · exact hr

/-- **The rows that are grouped** hold the samples. -/
theorem forall₂_withTsNs (hcol : col ∈ f.columns) (h : f.rows.Forall₂ (IsSample f col) samples) :
    (withTsNs f).rows.Forall₂ (IsRow col) samples := by
  by_cases hts : "ts_ns".toList ∉ f.columns ∧ "ts_uptime_us".toList ∈ f.columns
  · have hne : ∀ {c}, c ∈ f.columns → c ≠ "ts_ns".toList := fun hc heq ↦ hts.1 (heq ▸ hc)
    rw [withTsNs, if_pos hts, Frame.rows_withColumn, List.forall₂_map_left_iff]
    refine List.Forall₂.imp ?_ ((List.forall₂_and_left _ _).2 ⟨fun _ hr ↦ hr, h⟩)
    rintro r s ⟨hr, hsample⟩
    have hcpu : "cpu".toList ∈ f.columns :=
      Frame.mem_columns_of_cell hr (by rw [hsample.cpu]; exact Value.noConfusion)
    have hcell := hsample.ts
    rw [tsCell, if_pos hts] at hcell
    refine ⟨?_, (Frame.cells_setCell_self _ _ _).trans hcell, ?_⟩
    · rw [Frame.cells_setCell_of_ne (hne hcpu), hsample.cpu]
    · rw [Frame.cells_setCell_of_ne (hne hcol), hsample.count]
  · rw [withTsNs, if_neg hts]
    refine List.Forall₂.imp (fun r s hsample ↦ ⟨hsample.cpu, ?_, hsample.count⟩) h
    have hcell := hsample.ts
    rwa [tsCell, if_neg hts] at hcell

variable [Python]

/-- What a group of rows adds. -/
theorem groupEntries_ok (hrows : ∀ r ∈ f.rows, ∃ s, IsRow col r s) (hr : r ∈ f.rows) (cpu : ℤ) :
    groupEntries E f col (.int cpu, ofKey (fun r ↦ r.cells "cpu".toList) f.rows (.int cpu)) =
      .ok (cpu, cpuEntries E col f.rows (.int cpu)) := by
  have hsorted : ∀ r ∈ E.sort "ts_ns".toList
      (ofKey (fun r ↦ r.cells "cpu".toList) f.rows (.int cpu)), ∃ s, IsRow col r s :=
    fun r hr ↦ hrows r (mem_ofKey.1 ((E.sort_perm _ _).mem_iff.1 hr)).1
  have hts : "ts_ns".toList ∈ f.columns := by
    obtain ⟨s, hrow⟩ := hrows r hr
    exact Frame.mem_columns_of_cell hr (by rw [hrow.ts]; exact Value.noConfusion)
  have htsList := mapM_eq_pure_map (m := Option) (g := fun r : Row Unit ↦
    (r.cells "ts_ns".toList).castInt64) (h := fun r ↦ Engine.sortKey (r.cells "ts_ns".toList))
    fun r hr ↦ by
      obtain ⟨s, hrow⟩ := hsorted r hr
      rw [hrow.ts]
      rfl
  have hcounts := mapM_eq_pure_map (m := Option) (g := fun r : Row Unit ↦
    (r.cells col).castFloat64) (h := fun r ↦ (r.cells col).castFloat64.getD 0) fun r hr ↦ by
      obtain ⟨s, hrow⟩ := hsorted r hr
      rw [hrow.count]
      rfl
  rw [groupEntries, if_pos hts]
  show ((polars (List.mapM _ _)).bind fun tsList : List ℤ ↦
    (polars (List.mapM _ _)).bind fun counts : List ℚ ↦ Except.ok (cpu, tsList.zip counts)) = _
  rw [htsList, hcounts]
  refine congrArg (fun entries ↦ Except.ok (cpu, entries)) ?_
  rw [List.zip_map', cpuEntries]
  rfl

/-- The groups of the index. -/
def indexGroups (E : Engine Unit) (G : Grouping Unit) (col : PyStr) (rows : List (Row Unit)) :
    List (ℤ × List (ℤ × ℚ)) :=
  (G.groups "cpu".toList rows).map fun e ↦ (Engine.sortKey e.1, cpuEntries E col rows e.1)

/-- **The groups are indexed** one by one. -/
theorem mapM_groupEntries (E : Engine Unit) (G : Grouping Unit)
    (h : f.rows.Forall₂ (IsRow col) samples) :
    (G.groups "cpu".toList f.rows).mapM (groupEntries E f col) =
      .ok (indexGroups E G col f.rows) := by
  refine mapM_eq_pure_map (m := Except HarnessError) fun e he ↦ ?_
  obtain ⟨hkey, hrows⟩ := (G.grouped "cpu".toList f.rows).mem_iff.1 he
  obtain ⟨r, hr, hcpu⟩ := List.mem_map.1 hkey
  obtain ⟨s, -, hrow⟩ := exists_of_mem_of_forall₂ h hr
  have hfst : e.1 = .int s.cpu := hcpu.symm.trans hrow.cpu
  have hgroup : e = (.int s.cpu, ofKey (fun r ↦ r.cells "cpu".toList) f.rows (.int s.cpu)) :=
    Prod.ext hfst (hfst ▸ hrows)
  rw [hgroup]
  refine groupEntries_ok (fun r hr ↦ ?_) hr s.cpu
  obtain ⟨s, -, hrow⟩ := exists_of_mem_of_forall₂ h hr
  exact ⟨s, hrow⟩

omit [Python] in
/-- The CPUs of the rows. -/
theorem mem_cpus (h : rows.Forall₂ (IsRow col) samples) {cpu : Value} :
    cpu ∈ rows.map (fun r ↦ r.cells "cpu".toList) ↔ ∃ s ∈ samples, cpu = .int s.cpu := by
  rw [List.mem_map]
  constructor
  · rintro ⟨r, hr, rfl⟩
    obtain ⟨s, hs, hrow⟩ := exists_of_mem_of_forall₂ h hr
    exact ⟨s, hs, hrow.cpu⟩
  · rintro ⟨s, hs, rfl⟩
    obtain ⟨r, hr, hrow⟩ := exists_of_mem_of_forall₂ h.flip hs
    exact ⟨r, hr, hrow.cpu⟩

omit [Python] in
theorem toFinset_cpus (h : rows.Forall₂ (IsRow col) samples) :
    (rows.map fun r ↦ r.cells "cpu".toList).toFinset =
      (samples.map Sample.cpu).toFinset.image Value.int := by
  ext cpu
  rw [List.mem_toFinset, mem_cpus h, Finset.mem_image]
  constructor
  · rintro ⟨s, hs, rfl⟩
    exact ⟨s.cpu, List.mem_toFinset.2 (List.mem_map_of_mem hs), rfl⟩
  · rintro ⟨cpu, hcpu, rfl⟩
    obtain ⟨s, hs, rfl⟩ := List.mem_map.1 (List.mem_toFinset.1 hcpu)
    exact ⟨s, hs, rfl⟩

omit [Python] in
/-- Each CPU has one group. -/
theorem nodup_indexGroups (E : Engine Unit) (G : Grouping Unit)
    (h : rows.Forall₂ (IsRow col) samples) :
    ((indexGroups E G col rows).map Prod.fst).Nodup := by
  have hgrouped := G.grouped "cpu".toList rows
  rw [indexGroups, List.map_map]
  refine List.Nodup.map_on (fun e he e' he' heq ↦ ?_) hgrouped.nodup.of_map
  obtain ⟨s, -, hcpu⟩ := (mem_cpus h).1 ((hgrouped.keys _).1 (List.mem_map_of_mem he))
  obtain ⟨s', -, hcpu'⟩ := (mem_cpus h).1 ((hgrouped.keys _).1 (List.mem_map_of_mem he'))
  refine List.inj_on_of_nodup_map hgrouped.nodup he he' ?_
  rw [Function.comp_apply, Function.comp_apply, hcpu, hcpu'] at heq
  rw [hcpu, hcpu']
  exact congrArg Value.int heq

omit [Python] in
/-- **The value of their index** is the sum over the CPUs. -/
theorem cumulativeAt_indexGroups (E : Engine Unit) (G : Grouping Unit)
    (h : rows.Forall₂ (IsRow col) samples) (t : ℤ) :
    (indexOf (indexGroups E G col rows)).cumulativeAt t =
      ∑ cpu ∈ (samples.map Sample.cpu).toFinset,
        latestCount (cpuEntries E col rows (.int cpu)) t := by
  have hgrouped := G.grouped "cpu".toList rows
  rw [cumulativeAt_indexOf (nodup_indexGroups E G h), indexGroups, List.map_map]
  show ((G.groups "cpu".toList rows).map fun e ↦ latestCount (cpuEntries E col rows e.1) t).sum = _
  rw [hgrouped.sum_map fun cpu _ ↦ latestCount (cpuEntries E col rows cpu) t, toFinset_cpus h,
    Finset.sum_image fun _ _ _ _ heq ↦ Value.int.inj heq]

/-- **The index adds the latest counts** of the CPUs, as the rows of the samples have them. -/
def Sums (E : Engine Unit) (col : PyStr) (samples : List Sample) (index : CounterIndex) : Prop :=
  ∃ rows : List (Row Unit), rows.Forall₂ (IsRow col) samples ∧
    ∀ t, index.cumulativeAt t = ∑ cpu ∈ (samples.map Sample.cpu).toFinset,
      latestCount (cpuEntries E col rows (.int cpu)) t

omit [Python] in
theorem sums_empty (E : Engine Unit) : Sums E col [] .empty := ⟨[], .nil, fun _ ↦ rfl⟩

/-- **The index of a table** finds the latest count of each CPU and adds them. -/
theorem exists_buildCounterIndex (E : Engine Unit) (G : Grouping Unit)
    (h : HoldsSamples table col tgid samples) :
    ∃ index, buildCounterIndex E G table col tgid = .ok index ∧ Sums E col samples index := by
  rcases table with - | f
  · have hsamples : samples = [] := h
    exact ⟨.empty, rfl, hsamples ▸ sums_empty E⟩
  have hforall : (filterTgid f tgid).rows.Forall₂ (IsSample (filterTgid f tgid) col) samples := by
    refine List.Forall₂.imp (fun r s hsample ↦ ⟨hsample.cpu, ?_, hsample.count⟩) h
    rw [tsCell, columns_filterTgid]
    exact hsample.ts
  by_cases hnil : (filterTgid f tgid).rows = []
  · rw [hnil] at hforall
    refine ⟨.empty, ?_, List.forall₂_nil_left_iff.1 hforall ▸ sums_empty E⟩
    rw [buildCounterIndex]
    split_ifs
    · rfl
    · exact if_pos hnil
  · obtain ⟨r, hr⟩ := List.exists_mem_of_ne_nil _ hnil
    obtain ⟨s, hs, hsample⟩ := exists_of_mem_of_forall₂ hforall hr
    have hcol : col ∈ (filterTgid f tgid).columns := Frame.mem_columns_of_cell hr fun hnull ↦ by
      have hcount := hsample.count
      rw [hnull] at hcount
      exact absurd hcount (Option.some_ne_none _).symm
    have hread : ¬ (f.rows = [] ∨ col ∉ f.columns) := by
      rw [columns_filterTgid] at hcol
      rintro (hrows | hnot)
      · exact hnil (List.eq_nil_iff_forall_not_mem.2 fun r hr ↦
          List.not_mem_nil (hrows ▸ rows_filterTgid_subset hr))
      · exact hnot hcol
    have hrows := forall₂_withTsNs hcol hforall
    refine ⟨indexOf (indexGroups E G col (withTsNs (filterTgid f tgid)).rows), ?_, _, hrows,
      cumulativeAt_indexGroups E G hrows⟩
    obtain ⟨r', hr', hrow⟩ := exists_of_mem_of_forall₂ hrows.flip hs
    have hcpu : "cpu".toList ∈ (withTsNs (filterTgid f tgid)).columns :=
      Frame.mem_columns_of_cell hr' (by rw [hrow.cpu]; exact Value.noConfusion)
    rw [buildCounterIndex]
    simp only [if_neg hread, if_neg hnil, if_pos hcpu, mapM_groupEntries E G hrows]
    rfl

/-- **The index measures the samples**: its value is the sum of the latest counts, and adjacent
windows add up. -/
theorem counterIndex_spec (E : Engine Unit) (G : Grouping Unit) (table : Table) (col : PyStr)
    (tgid : Option ℤ) (samples : List Sample) (h : HoldsSamples table col tgid samples)
    (hmono : Nondecreasing samples) :
    ∃ index, buildCounterIndex E G table col tgid = .ok index ∧ Measures index samples := by
  obtain ⟨index, hbuild, rows, hrows, hvalue⟩ := exists_buildCounterIndex E G h
  have hgrows : Grows index.cumulativeAt := by
    intro t t' htt'
    rw [hvalue, hvalue]
    exact Finset.sum_le_sum fun cpu _ ↦ latestCount_cpuEntries_mono hrows hmono cpu t t' htt'
  refine ⟨index, hbuild, fun t ↦ ⟨_, fun cpu ↦ latestCount_cpuEntries hrows cpu t, hvalue t⟩,
    hgrows, counterDelta_nonneg index, fun a b ↦ counterDelta_eq hgrows,
    fun a b c ↦ counterDelta_add hgrows, windowsAdd hgrows⟩

end Build

/-! ### Two CPUs -/

section Examples

/-- Samples of two CPUs, of which the second starts late. -/
def twoCpus : Frame Unit :=
  Frame.ofRows ["cpu".toList, "ts_uptime_us".toList, "cumulative_x".toList] (by decide) (by decide)
    [([.int 0, .int 5, .int 3], ()), ([.int 1, .int 7, .int 20], ()),
      ([.int 0, .int 2, .int 1], ())]

theorem measures_twoCpus :
    ∃ index, @buildCounterIndex Python.ascii Engine.lastKept Grouping.firstSeen (some twoCpus)
      "cumulative_x".toList none = .ok index ∧
        Measures index [⟨0, 5000, 3⟩, ⟨1, 7000, 20⟩, ⟨0, 2000, 1⟩] := by
  refine @counterIndex_spec Python.ascii _ _ _ _ _ _ ?_ ⟨?_, ?_⟩
  · exact .cons ⟨rfl, rfl, rfl⟩ (.cons ⟨rfl, rfl, rfl⟩ (.cons ⟨rfl, rfl, rfl⟩ .nil))
  · simp
  · simp

end Examples

end Analysis
