import HugePageResearch.ProcessTrace.TaskIds
import HugePageResearch.Python.Dict
import Mathlib.Data.List.Forall2
import Mathlib.Data.List.Perm.Basic

/-!
# The lifetimes of processes

`filter_process_trace` of `analysis/bloat.py` makes a table of processes out of the rows of the
process trace: each start joined with each end of the pid, and the last name that the pid has had in
the whole trace. A pid can belong to one process after another.

## The result

`oneRowEach_iff_nodup`: the table has one row for each lifetime that has a start and an end, with
the times and the last name of that lifetime, exactly where no pid is reused. The start of a second
process is otherwise joined with the end of the first one, which is before it.
-/

namespace ProcessTrace

/-! ### The table -/

/-- The columns of `start_df`. -/
structure StartRow where
  pid : ℕ
  startNs : ℤ
  fullName : PyStr
  deriving DecidableEq

/-- The columns of `end_df`. -/
structure EndRow where
  pid : ℕ
  endNs : ℤ
  deriving DecidableEq

/-- A row of the table. -/
structure ProcessRow where
  pid : ℕ
  startNs : ℤ
  fullName : PyStr
  endNs : ℤ
  duration : ℤ
  deriving DecidableEq

/-- **What Polars supplies**: a sort that need not be stable, and an inner join in any order. -/
structure Engine where
  /-- `sort(pl.col("ts_ns"), descending=True)`. -/
  sort : List TraceProcessStat → List TraceProcessStat
  sort_perm : ∀ l, (sort l).Perm l
  sort_sorted : ∀ l, (sort l).Pairwise fun a b ↦ b.tsNs ≤ a.tsNs
  /-- `start_df.join(end_df, "pid")`. -/
  join : List StartRow → List EndRow → List (StartRow × EndRow)
  join_perm : ∀ l r, (join l r).Perm
    (l.flatMap fun s ↦ (r.filter fun e ↦ e.pid = s.pid).map fun e ↦ (s, e))

/-- One round of the loop that fills `helper_dict`. -/
def helperStep (helper : Dict ℕ PyStr) (row : TraceProcessStat) : Dict ℕ PyStr :=
  if row.pid ∈ helper.keys ∨ row.name = [] then helper else helper.set row.pid row.name

/-- `helper_dict.get(pid, "")`. -/
def fullName (startDf : List TraceProcessStat) (pid : ℕ) : PyStr :=
  ((startDf.foldl helperStep .empty).get? pid).getD []

/-- The row of a joined pair. -/
def combine (p : StartRow × EndRow) : ProcessRow :=
  ⟨p.1.pid, p.1.startNs, p.1.fullName, p.2.endNs, p.2.endNs - p.1.startNs⟩

/-- The rows of processes, the last ones first. -/
def sortedProcesses (E : Engine) (processTraceDf : List TraceProcessStat) :
    List TraceProcessStat :=
  E.sort (processTraceDf.filter fun r ↦ r.tgid = r.pid)

/-- `filter_process_trace`. -/
def filterProcessTrace (E : Engine) (processTraceDf : List TraceProcessStat) : List ProcessRow :=
  let fullDf := sortedProcesses E processTraceDf
  let startDf := (fullDf.filter fun r ↦ r.capType = .start).map fun r ↦
    (⟨r.pid, r.tsNs, fullName fullDf r.pid⟩ : StartRow)
  let endDf := (fullDf.filter fun r ↦ r.capType = .stop).map fun r ↦ (⟨r.pid, r.tsNs⟩ : EndRow)
  (E.join startDf endDf).map combine

/-! ### Process traces -/

/-- **A lifetime of a process**, by what is seen of it: the time and the name of its start, those of
each exec, and the time of its end. -/
structure Lifetime where
  pid : ℕ
  start : Option (ℤ × PyStr)
  execs : List (ℤ × PyStr)
  stop : Option ℤ
  start_le : ∀ s ∈ start, (∀ x ∈ execs, s.1 ≤ x.1) ∧ ∀ t ∈ stop, s.1 ≤ t
  le_stop : ∀ t ∈ stop, ∀ x ∈ execs, x.1 ≤ t

namespace Lifetime

/-- The row of the start. -/
def startRow (l : Lifetime) : Option TraceProcessStat :=
  l.start.map fun s ↦ ⟨l.pid, l.pid, s.1, s.2, .start⟩

/-- The rows of the execs. -/
def execRows (l : Lifetime) : List TraceProcessStat :=
  l.execs.map fun x ↦ ⟨l.pid, l.pid, x.1, x.2, .exec⟩

/-- The row of the end, which has no name. -/
def stopRow (l : Lifetime) : Option TraceProcessStat :=
  l.stop.map fun t ↦ ⟨l.pid, l.pid, t, [], .stop⟩

/-- What is seen of the lifetime. -/
def rows (l : Lifetime) : List TraceProcessStat :=
  l.startRow.toList ++ l.execRows ++ l.stopRow.toList

/-- The names that are seen, with their times. -/
def names (l : Lifetime) : List (ℤ × PyStr) := l.start.toList ++ l.execs

/-- One lifetime ends before the other starts. -/
def Before (l l' : Lifetime) : Prop := ∃ t ∈ l.stop, ∃ s ∈ l'.start, t < s.1

/-- The lifetime has a start and an end. -/
def Complete (l : Lifetime) : Prop := l.start.isSome ∧ l.stop.isSome

instance : DecidablePred Complete := fun _ ↦ inferInstanceAs (Decidable (_ ∧ _))

/-- The last name that is not empty, or the empty one, if there is none. -/
def IsLastName (l : Lifetime) (n : PyStr) : Prop :=
  (n ≠ [] ∧ ∃ t, (t, n) ∈ l.names ∧ ∀ x ∈ l.names, x.2 ≠ [] → x.1 ≤ t) ∨
    (n = [] ∧ ∀ x ∈ l.names, x.2 = [])

end Lifetime

/-- **A process trace**: the rows of lifetimes and those of other threads, in any order. A pid is
reused after an end. -/
structure Trace where
  lifetimes : List Lifetime
  threads : List TraceProcessStat
  rows : List TraceProcessStat
  tgid_ne : ∀ r ∈ threads, r.tgid ≠ r.pid
  perm : rows.Perm (lifetimes.flatMap Lifetime.rows ++ threads)
  reused : lifetimes.Pairwise fun l l' ↦ l.pid = l'.pid → l.Before l' ∨ l'.Before l

/-- **The row of a lifetime.** -/
structure RowOf (l : Lifetime) (r : ProcessRow) : Prop where
  pid : r.pid = l.pid
  start : ∃ name, l.start = some (r.startNs, name)
  stop : l.stop = some r.endNs
  duration : r.duration = r.endNs - r.startNs
  fullName : l.IsLastName r.fullName

/-- **The table has one row for each lifetime.** -/
structure OneRowEach (E : Engine) (T : Trace) : Prop where
  rows : ∃ rows, (filterProcessTrace E T.rows).Perm rows ∧
    List.Forall₂ RowOf (T.lifetimes.filter fun l ↦ l.Complete) rows
  forward : ∀ r ∈ filterProcessTrace E T.rows, r.startNs ≤ r.endNs
  disjoint : (filterProcessTrace E T.rows).Pairwise fun r r' ↦ r.pid = r'.pid →
    r.endNs ≤ r'.startNs ∨ r'.endNs ≤ r.startNs

/-! ### The rows of processes -/

section Rows

variable {E : Engine} {T : Trace} {l : Lifetime} {r : TraceProcessStat}

/-- Rows of a lifetime are rows of its process. -/
theorem Lifetime.pid_of_mem (h : r ∈ l.rows) : r.pid = l.pid ∧ r.tgid = l.pid := by
  simp only [Lifetime.rows, List.mem_append, Option.mem_toList] at h
  obtain (h | h) | h := h
  · obtain ⟨s, -, rfl⟩ := Option.map_eq_some_iff.1 h
    exact ⟨rfl, rfl⟩
  · obtain ⟨x, -, rfl⟩ := List.mem_map.1 h
    exact ⟨rfl, rfl⟩
  · obtain ⟨t, -, rfl⟩ := Option.map_eq_some_iff.1 h
    exact ⟨rfl, rfl⟩

/-- **The rows that are kept** are those of the lifetimes. -/
theorem perm_sortedProcesses (E : Engine) (T : Trace) :
    (sortedProcesses E T.rows).Perm (T.lifetimes.flatMap Lifetime.rows) := by
  have hlives : (T.lifetimes.flatMap Lifetime.rows).filter (fun r ↦ r.tgid = r.pid) =
      T.lifetimes.flatMap Lifetime.rows := by
    refine List.filter_eq_self.2 fun r hr ↦ decide_eq_true ?_
    obtain ⟨l, -, hr⟩ := List.mem_flatMap.1 hr
    obtain ⟨hpid, htgid⟩ := l.pid_of_mem hr
    exact htgid.trans hpid.symm
  have hthreads : T.threads.filter (fun r ↦ r.tgid = r.pid) = [] :=
    List.filter_eq_nil_iff.2 fun r hr ↦ by simpa using T.tgid_ne r hr
  refine (E.sort_perm _).trans ((T.perm.filter _).trans ?_)
  rw [List.filter_append, hlives, hthreads, List.append_nil]

/-- The rows of a kind are those of the lifetimes. -/
theorem perm_capType (E : Engine) (T : Trace) {c : CapType}
    {row : Lifetime → Option TraceProcessStat}
    (hrow : ∀ l : Lifetime, (l.rows.filter fun r ↦ r.capType = c) = (row l).toList) :
    ((sortedProcesses E T.rows).filter fun r ↦ r.capType = c).Perm
      (T.lifetimes.flatMap fun l ↦ (row l).toList) := by
  refine ((perm_sortedProcesses E T).filter _).trans (.of_eq ?_)
  rw [List.filter_flatMap]
  exact List.flatMap_congr fun l _ ↦ hrow l

/-- The rows of the starts. -/
theorem perm_starts (E : Engine) (T : Trace) :
    ((sortedProcesses E T.rows).filter fun r ↦ r.capType = .start).Perm
      (T.lifetimes.flatMap fun l ↦ l.startRow.toList) := by
  refine perm_capType E T fun l ↦ ?_
  rw [Lifetime.rows, Lifetime.startRow, Lifetime.execRows, Lifetime.stopRow]
  cases l.start <;> cases l.stop <;> simp [List.filter_append, List.filter_map, Function.comp_def]

/-- The rows of the ends. -/
theorem perm_stops (E : Engine) (T : Trace) :
    ((sortedProcesses E T.rows).filter fun r ↦ r.capType = .stop).Perm
      (T.lifetimes.flatMap fun l ↦ l.stopRow.toList) := by
  refine perm_capType E T fun l ↦ ?_
  rw [Lifetime.rows, Lifetime.startRow, Lifetime.execRows, Lifetime.stopRow]
  cases l.start <;> cases l.stop <;> simp [List.filter_append, List.filter_map, Function.comp_def]

/-- **What is in the table**: a start and an end of one pid. -/
theorem mem_filterProcessTrace {x : ProcessRow} : x ∈ filterProcessTrace E T.rows ↔
    ∃ a ∈ T.lifetimes.flatMap fun l ↦ l.startRow.toList,
      ∃ b ∈ T.lifetimes.flatMap fun l ↦ l.stopRow.toList, b.pid = a.pid ∧ x =
        ⟨a.pid, a.tsNs, fullName (sortedProcesses E T.rows) a.pid, b.tsNs, b.tsNs - a.tsNs⟩ := by
  simp only [filterProcessTrace, List.mem_map, (E.join_perm _ _).mem_iff, List.mem_flatMap,
    List.mem_filter, decide_eq_true_eq, ← (perm_starts E T).mem_iff, ← (perm_stops E T).mem_iff]
  constructor
  · rintro ⟨_, ⟨_, ⟨a, ha, rfl⟩, _, ⟨⟨b, hb, rfl⟩, hpid⟩, rfl⟩, rfl⟩
    exact ⟨a, ha, b, hb, hpid, rfl⟩
  · rintro ⟨a, ha, b, hb, hpid, rfl⟩
    exact ⟨_, ⟨_, ⟨a, ha, rfl⟩, _, ⟨⟨b, hb, rfl⟩, hpid⟩, rfl⟩, rfl⟩

/-- The start of one lifetime is joined with the end of another one of its pid. -/
theorem not_forward_of_before {l' : Lifetime} (hl : l ∈ T.lifetimes) (hl' : l' ∈ T.lifetimes)
    (hpid : l.pid = l'.pid) (h : l.Before l') :
    ¬ ∀ x ∈ filterProcessTrace E T.rows, x.startNs ≤ x.endNs := by
  intro hforward
  -- the end of `l` and the start of `l'` are one row of the join
  obtain ⟨t, ht, s, hs, hlt⟩ := h
  have hstart : (⟨l'.pid, l'.pid, s.1, s.2, .start⟩ : TraceProcessStat) ∈ l'.startRow.toList :=
    Option.mem_toList.2 (Option.map_eq_some_iff.2 ⟨s, hs, rfl⟩)
  have hstop : (⟨l.pid, l.pid, t, [], .stop⟩ : TraceProcessStat) ∈ l.stopRow.toList :=
    Option.mem_toList.2 (Option.map_eq_some_iff.2 ⟨t, ht, rfl⟩)
  have hle := hforward _ (mem_filterProcessTrace.2 ⟨_, List.mem_flatMap.2 ⟨l', hl', hstart⟩, _,
    List.mem_flatMap.2 ⟨l, hl, hstop⟩, hpid, rfl⟩)
  exact Int.not_lt.2 hle hlt

/-- **One row for each lifetime needs that no pid is reused.** -/
theorem nodup_of_oneRowEach (h : OneRowEach E T) : (T.lifetimes.map Lifetime.pid).Nodup := by
  refine List.pairwise_map.2 (T.reused.imp_of_mem fun {l l'} hl hl' hreused hpid ↦ ?_)
  rcases hreused hpid with hbefore | hbefore
  · exact not_forward_of_before hl hl' hpid hbefore h.forward
  · exact not_forward_of_before hl' hl hpid.symm hbefore h.forward

end Rows

/-! ### The last name -/

section Names

variable {E : Engine} {T : Trace} {l : Lifetime} {pid : ℕ}

/-- A named row of a pid. -/
def Named (pid : ℕ) (r : TraceProcessStat) : Prop := r.pid = pid ∧ r.name ≠ []

instance (pid : ℕ) : DecidablePred (Named pid) := fun _ ↦ inferInstanceAs (Decidable (_ ∧ _))

/-- One round keeps the names that are there, and takes that of the row for its pid. -/
theorem get?_helperStep (helper : Dict ℕ PyStr) (r : TraceProcessStat) :
    (helperStep helper r).get? pid =
      (helper.get? pid).or (if Named pid r then some r.name else none) := by
  rw [helperStep]
  by_cases hskip : r.pid ∈ helper.keys ∨ r.name = []
  · rw [if_pos hskip]
    split_ifs with hnamed
    · obtain ⟨rfl, hne⟩ := hnamed
      obtain ⟨n, hn⟩ := Dict.exists_get?_of_mem_keys (hskip.resolve_right hne)
      rw [hn]
      rfl
    · rw [Option.or_none]
  · obtain ⟨hkeys, hne⟩ := not_or.1 hskip
    rw [if_neg hskip, Dict.get?_set]
    by_cases hpid : r.pid = pid
    · subst hpid
      rw [if_pos rfl, if_pos ⟨rfl, hne⟩, Dict.get?_eq_none hkeys]
      rfl
    · rw [if_neg hpid, if_neg fun h ↦ hpid h.1, Option.or_none]

/-- **The loop finds the first named row** of each pid. -/
theorem get?_foldl_helperStep (rows : List TraceProcessStat) (helper : Dict ℕ PyStr) :
    (rows.foldl helperStep helper).get? pid =
      (helper.get? pid).or ((rows.find? fun r ↦ Named pid r).map TraceProcessStat.name) := by
  induction rows generalizing helper with
  | nil => exact (Option.or_none).symm
  | cons r rows ih =>
    rw [List.foldl_cons, ih, get?_helperStep, Option.or_assoc, List.find?_cons]
    by_cases h : Named pid r
    · simp [h]
    · simp [h]

/-- The first of a descending list that a property holds of is one of the last. -/
theorem tsNs_le_of_find? {rows : List TraceProcessStat} {p : TraceProcessStat → Bool}
    {r r' : TraceProcessStat} (hsorted : rows.Pairwise fun a b ↦ b.tsNs ≤ a.tsNs)
    (h : rows.find? p = some r) (hr' : r' ∈ rows) (hp : p r' = true) : r'.tsNs ≤ r.tsNs := by
  induction rows with
  | nil => exact nomatch hr'
  | cons a rows ih =>
    obtain ⟨ha, hsorted⟩ := List.pairwise_cons.1 hsorted
    rw [List.find?_cons] at h
    cases hpa : p a with
    | true =>
      rw [hpa] at h
      obtain rfl := Option.some.inj h
      rcases List.mem_cons.1 hr' with rfl | hr'
      · exact Int.le_refl _
      · exact ha r' hr'
    | false =>
      rw [hpa] at h
      rcases List.mem_cons.1 hr' with rfl | hr'
      · exact absurd (hpa.symm.trans hp) Bool.false_ne_true
      · exact ih hsorted h hr'

/-- The named rows of a lifetime are its names. -/
theorem Lifetime.mem_names_iff {t : ℤ} {n : PyStr} (hn : n ≠ []) :
    (t, n) ∈ l.names ↔ ∃ r ∈ l.rows, r.tsNs = t ∧ r.name = n := by
  simp only [Lifetime.names, Lifetime.rows, List.mem_append, Option.mem_toList]
  constructor
  · rintro (h | h)
    · exact ⟨_, .inl (.inl (Option.map_eq_some_iff.2 ⟨_, h, rfl⟩)), rfl, rfl⟩
    · exact ⟨_, .inl (.inr (List.mem_map.2 ⟨_, h, rfl⟩)), rfl, rfl⟩
  · rintro ⟨r, (h | h) | h, rfl, rfl⟩
    · obtain ⟨s, hs, rfl⟩ := Option.map_eq_some_iff.1 h
      exact .inl hs
    · obtain ⟨x, hx, rfl⟩ := List.mem_map.1 h
      exact .inr hx
    · obtain ⟨t, -, rfl⟩ := Option.map_eq_some_iff.1 h
      exact absurd rfl hn

/-- Where no pid is reused, the named rows of a pid are the names of its lifetime. -/
theorem mem_names_iff_of_nodup (hnd : (T.lifetimes.map Lifetime.pid).Nodup)
    (hl : l ∈ T.lifetimes) {t : ℤ} {n : PyStr} (hn : n ≠ []) : (t, n) ∈ l.names ↔
      ∃ r ∈ sortedProcesses E T.rows, Named l.pid r ∧ r.tsNs = t ∧ r.name = n := by
  rw [l.mem_names_iff hn]
  constructor
  · rintro ⟨r, hr, rfl, rfl⟩
    exact ⟨r, (perm_sortedProcesses E T).mem_iff.2 (List.mem_flatMap.2 ⟨l, hl, hr⟩),
      ⟨(l.pid_of_mem hr).1, hn⟩, rfl, rfl⟩
  · rintro ⟨r, hr, ⟨hpid, -⟩, rfl, rfl⟩
    -- the row is one of a lifetime of this pid, and there is no other one
    obtain ⟨l', hl', hr⟩ := List.mem_flatMap.1 ((perm_sortedProcesses E T).mem_iff.1 hr)
    have heq := (l'.pid_of_mem hr).1.symm.trans hpid
    obtain rfl := List.inj_on_of_nodup_map hnd hl' hl heq
    exact ⟨r, hr, rfl, rfl⟩

/-- **The name of a process that does not share its pid** is its last one. -/
theorem isLastName_fullName (hnd : (T.lifetimes.map Lifetime.pid).Nodup) (hl : l ∈ T.lifetimes) :
    l.IsLastName (fullName (sortedProcesses E T.rows) l.pid) := by
  rw [fullName, get?_foldl_helperStep, Dict.get?_empty, Option.none_or]
  cases hfind : (sortedProcesses E T.rows).find? fun r ↦ Named l.pid r with
  | none =>
    refine .inr ⟨rfl, fun x hx ↦ ?_⟩
    by_contra hne
    obtain ⟨r, hr, hnamed, -⟩ := (mem_names_iff_of_nodup (E := E) hnd hl hne).1 hx
    exact absurd (decide_eq_true hnamed) (List.find?_eq_none.1 hfind r hr)
  | some r =>
    have hp := List.find?_some hfind
    have hnamed : Named l.pid r := of_decide_eq_true hp
    have hr := List.mem_of_find?_eq_some hfind
    refine .inl ⟨hnamed.2, r.tsNs, ?_, fun x hx hne ↦ ?_⟩
    · exact (mem_names_iff_of_nodup hnd hl hnamed.2).2 ⟨r, hr, hnamed, rfl, rfl⟩
    · obtain ⟨r', hr', hnamed', ht, -⟩ := (mem_names_iff_of_nodup (E := E) hnd hl hne).1 hx
      rw [← ht]
      exact tsNs_le_of_find? (E.sort_sorted _) hfind hr' (decide_eq_true hnamed')

end Names

/-! ### The table -/

section Table

variable {E : Engine} {T : Trace} {l : Lifetime} {ls : List Lifetime}

/-- The start of a lifetime, with a name. -/
def Lifetime.startCell (l : Lifetime) (n : PyStr) : Option StartRow :=
  l.start.map fun s ↦ ⟨l.pid, s.1, n⟩

/-- The end of a lifetime. -/
def Lifetime.endCell (l : Lifetime) : Option EndRow := l.stop.map fun t ↦ ⟨l.pid, t⟩

/-- The row of a lifetime, with a name, if it is complete. -/
def Lifetime.processRow (l : Lifetime) (n : PyStr) : Option ProcessRow :=
  l.start.bind fun s ↦ l.stop.map fun t ↦ ⟨l.pid, s.1, n, t, t - s.1⟩

/-- Where no pid is reused, the ends of a pid are that of its lifetime. -/
theorem filter_endCells (hnd : (ls.map Lifetime.pid).Nodup) (hl : l ∈ ls) :
    (ls.flatMap fun l ↦ l.endCell.toList).filter (fun e ↦ e.pid = l.pid) = l.endCell.toList := by
  have hpid : ∀ l' : Lifetime, ∀ e ∈ l'.endCell.toList, e.pid = l'.pid := fun l' e he ↦ by
    obtain ⟨t, -, rfl⟩ := Option.map_eq_some_iff.1 (Option.mem_toList.1 he)
    rfl
  have hother : ∀ ls' : List Lifetime, l.pid ∉ ls'.map Lifetime.pid →
      (ls'.flatMap fun l ↦ l.endCell.toList).filter (fun e ↦ e.pid = l.pid) = [] := by
    refine fun ls' hnot ↦ List.filter_eq_nil_iff.2 fun e he hdec ↦ hnot ?_
    obtain ⟨l', hl', he⟩ := List.mem_flatMap.1 he
    exact List.mem_map.2 ⟨l', hl', (hpid l' e he).symm.trans (of_decide_eq_true hdec)⟩
  have hself : l.endCell.toList.filter (fun e ↦ e.pid = l.pid) = l.endCell.toList :=
    List.filter_eq_self.2 fun e he ↦ decide_eq_true (hpid l e he)
  obtain ⟨pre, post, rfl⟩ := List.append_of_mem hl
  rw [List.map_append, List.map_cons, List.nodup_append, List.nodup_cons] at hnd
  obtain ⟨-, ⟨hpost, -⟩, hpre⟩ := hnd
  rw [List.flatMap_append, List.flatMap_cons, List.filter_append, List.filter_append, hself,
    hother post hpost, hother pre fun h ↦ hpre _ h _ List.mem_cons_self rfl, List.nil_append,
    List.append_nil]

/-- **The table without reuse** has the rows of the lifetimes. -/
theorem perm_filterProcessTrace (hnd : (T.lifetimes.map Lifetime.pid).Nodup) :
    (filterProcessTrace E T.rows).Perm (T.lifetimes.flatMap fun l ↦
      (l.processRow (fullName (sortedProcesses E T.rows) l.pid)).toList) := by
  let name := fullName (sortedProcesses E T.rows)
  let start := fun r : TraceProcessStat ↦ (⟨r.pid, r.tsNs, name r.pid⟩ : StartRow)
  let stop := fun r : TraceProcessStat ↦ (⟨r.pid, r.tsNs⟩ : EndRow)
  have hstarts : (((sortedProcesses E T.rows).filter fun r ↦ r.capType = .start).map start).Perm
      (T.lifetimes.flatMap fun l ↦ (l.startCell (name l.pid)).toList) := by
    refine ((perm_starts E T).map start).trans (.of_eq ?_)
    rw [List.map_flatMap]
    congr 1
    funext l
    rw [Lifetime.startRow, Lifetime.startCell]
    cases l.start <;> rfl
  have hstops : (((sortedProcesses E T.rows).filter fun r ↦ r.capType = .stop).map stop).Perm
      (T.lifetimes.flatMap fun l ↦ l.endCell.toList) := by
    refine ((perm_stops E T).map stop).trans (.of_eq ?_)
    rw [List.map_flatMap]
    congr 1
    funext l
    rw [Lifetime.stopRow, Lifetime.endCell]
    cases l.stop <;> rfl
  have hjoin := (E.join_perm _ _).trans ((hstarts.flatMap_right _).trans
    (List.Perm.flatMap_left _ fun s _ ↦ ((hstops.filter fun e ↦ e.pid = s.pid).map fun e ↦ (s, e))))
  refine (hjoin.map combine).trans (.of_eq ?_)
  rw [List.flatMap_assoc, List.map_flatMap]
  refine List.flatMap_congr fun l hl ↦ ?_
  have hends := filter_endCells hnd hl
  rw [Lifetime.startCell, Lifetime.processRow]
  cases l.start with
  | none => rfl
  | some s =>
    rw [Option.map_some, Option.toList_some, List.flatMap_singleton, hends, Lifetime.endCell]
    cases l.stop with
    | none => rfl
    | some t => rfl

/-- The rows of lifetimes are those of the complete ones. -/
theorem forall₂_rowOf (name : Lifetime → PyStr) (hname : ∀ l ∈ ls, l.IsLastName (name l)) :
    List.Forall₂ RowOf (ls.filter fun l ↦ l.Complete)
      (ls.flatMap fun l ↦ (l.processRow (name l)).toList) := by
  induction ls with
  | nil => exact .nil
  | cons l ls ih =>
    obtain ⟨hl, hrest⟩ := List.forall_mem_cons.1 hname
    have ih := ih hrest
    rw [List.flatMap_cons, List.filter_cons]
    cases hstart : l.start with
    | none =>
      have hnot : ¬ l.Complete := fun h ↦ by simp [Lifetime.Complete, hstart] at h
      rw [if_neg (by simpa using hnot), Lifetime.processRow, hstart]
      exact ih
    | some s => cases hstop : l.stop with
      | none =>
        have hnot : ¬ l.Complete := fun h ↦ by simp [Lifetime.Complete, hstop] at h
        rw [if_neg (by simpa using hnot), Lifetime.processRow, hstart, hstop]
        exact ih
      | some t =>
        have hcomplete : l.Complete := by simp [Lifetime.Complete, hstart, hstop]
        rw [if_pos (by simpa using hcomplete), Lifetime.processRow, hstart, hstop]
        exact .cons ⟨rfl, ⟨s.2, hstart⟩, hstop, rfl, hl⟩ ih

theorem RowOf.forward {r : ProcessRow} (h : RowOf l r) : r.startNs ≤ r.endNs := by
  obtain ⟨name, hstart⟩ := h.start
  exact (l.start_le _ hstart).2 _ h.stop

/-- The pids of the rows are those of their lifetimes. -/
theorem map_pid_of_forall₂ {rows : List ProcessRow} (h : List.Forall₂ RowOf ls rows) :
    rows.map ProcessRow.pid = ls.map Lifetime.pid := by
  induction h with
  | nil => rfl
  | cons hr _ ih => rw [List.map_cons, List.map_cons, hr.pid, ih]

/-- Each row is that of a lifetime. -/
theorem exists_of_forall₂ {rows : List ProcessRow} (h : List.Forall₂ RowOf ls rows) :
    ∀ r ∈ rows, ∃ l ∈ ls, RowOf l r := by
  induction h with
  | nil => exact fun r hr ↦ nomatch hr
  | cons hrow _ ih =>
    intro r hr
    rcases List.mem_cons.1 hr with rfl | hr
    · exact ⟨_, List.mem_cons_self, hrow⟩
    · obtain ⟨l, hl, hrow⟩ := ih r hr
      exact ⟨l, List.mem_cons_of_mem _ hl, hrow⟩

/-- **Without reuse the table has one row for each lifetime.** -/
theorem oneRowEach_of_nodup (hnd : (T.lifetimes.map Lifetime.pid).Nodup) : OneRowEach E T := by
  have hperm := perm_filterProcessTrace (E := E) hnd
  have hrows := forall₂_rowOf (fun l ↦ fullName (sortedProcesses E T.rows) l.pid)
    fun l hl ↦ isLastName_fullName (E := E) hnd hl
  refine ⟨⟨_, hperm, hrows⟩, fun r hr ↦ ?_, ?_⟩
  · obtain ⟨l, -, hrow⟩ := exists_of_forall₂ hrows r (hperm.mem_iff.1 hr)
    exact hrow.forward
  · have hpids : ((filterProcessTrace E T.rows).map ProcessRow.pid).Nodup := by
      rw [(hperm.map ProcessRow.pid).nodup_iff, map_pid_of_forall₂ hrows]
      exact hnd.sublist (List.filter_sublist.map Lifetime.pid)
    exact (List.pairwise_map.1 hpids).imp fun hne hpid ↦ absurd hpid hne

/-- **The table of processes has one row for each lifetime exactly where no pid is reused.** -/
theorem oneRowEach_iff_nodup (E : Engine) (T : Trace) :
    OneRowEach E T ↔ (T.lifetimes.map Lifetime.pid).Nodup :=
  ⟨nodup_of_oneRowEach, oneRowEach_of_nodup⟩

end Table

/-! ### A pid that is reused -/

/-- A nested loop, over sorted rows. -/
def Engine.nestedLoop : Engine where
  sort := List.insertionSort fun a b ↦ b.tsNs ≤ a.tsNs
  sort_perm := List.perm_insertionSort _
  sort_sorted l :=
    have : Std.Total fun a b : TraceProcessStat ↦ b.tsNs ≤ a.tsNs :=
      ⟨fun a b ↦ Int.le_total b.tsNs a.tsNs⟩
    have : IsTrans TraceProcessStat fun a b ↦ b.tsNs ≤ a.tsNs :=
      ⟨fun _ _ _ hab hbc ↦ Int.le_trans hbc hab⟩
    List.pairwise_insertionSort _ l
  join l r := l.flatMap fun s ↦ (r.filter fun e ↦ e.pid = s.pid).map fun e ↦ (s, e)
  join_perm _ _ := .refl _

/-- A lifetime without an exec. -/
def Lifetime.plain (pid : ℕ) (name : PyStr) (start stop : ℤ) (h : start ≤ stop) : Lifetime where
  pid
  start := some (start, name)
  execs := []
  stop := some stop
  start_le s hs := by
    obtain rfl := Option.some.inj hs
    exact ⟨nofun, fun _ ht ↦ Option.some.inj ht ▸ h⟩
  le_stop _ _ := nofun

/-- Two lifetimes of one pid. -/
def Trace.reusedPid : Trace where
  lifetimes := [.plain 5 ['a'] 10 20 (by decide), .plain 5 ['b'] 30 40 (by decide)]
  threads := []
  rows := (Lifetime.plain 5 ['a'] 10 20 (by decide)).rows ++
    (Lifetime.plain 5 ['b'] 30 40 (by decide)).rows
  tgid_ne := nofun
  perm := .refl _
  reused := by
    refine List.pairwise_pair.2 fun _ ↦ .inl ?_
    exact ⟨20, rfl, (30, ['b']), rfl, by decide⟩

/-- **The start of the second process is joined with the end of the first one.** -/
theorem not_oneRowEach_reusedPid : ¬ OneRowEach .nestedLoop .reusedPid := by
  intro h
  exact absurd (nodup_of_oneRowEach h) (by decide)

end ProcessTrace
