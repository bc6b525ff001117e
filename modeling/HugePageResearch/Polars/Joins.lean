import HugePageResearch.Polars.Expressions
import Mathlib.Algebra.BigOperators.Group.List.Basic
import Mathlib.Algebra.Ring.Int.Defs
import Mathlib.Algebra.Ring.Rat
import Mathlib.Data.List.MinMax

/-!
# Selections and joins

What the tables of `compaction_analysis.py` use of frames besides groups: several columns at once,
selections, new names, sums of groups and `join_asof`, which gives each row on the left the columns
of the row on the right that is nearest in time. There is no frame where Polars raises.
-/

namespace Polars

namespace Frame

variable {τ : Type*}

/-- `f.with_columns([expr.alias(c), ...])`, for expressions of one row of `f`. -/
def withColumns (f : Frame τ) (exprs : List (PyStr × (Row τ → Value))) : Frame τ where
  columns := f.columns ++ (exprs.map Prod.fst).dedup.filter fun c ↦ c ∉ f.columns
  rows := f.rows.map fun r ↦
    { r with cells := fun c ↦ ((exprs.lookup c).map fun expr ↦ expr r).getD (r.cells c) }
  columns_ne := List.append_ne_nil_of_left_ne_nil f.columns_ne _
  nodup := by
    refine List.nodup_append'.2 ⟨f.nodup, (List.nodup_dedup _).filter _, fun c hc hc' ↦ ?_⟩
    exact absurd hc (of_decide_eq_true (List.mem_filter.1 hc').2)
  null r hr c hc := by
    obtain ⟨r', hr', rfl⟩ := List.mem_map.1 hr
    rw [List.mem_append, List.mem_filter, List.mem_dedup, decide_eq_true_iff] at hc
    have hf : c ∉ f.columns := fun h ↦ hc (.inl h)
    have hnone : exprs.lookup c = none := List.lookup_eq_none_iff.2 fun e he ↦
      bne_iff_ne.2 fun heq ↦ hc (.inr ⟨List.mem_map.2 ⟨e, he, heq.symm⟩, hf⟩)
    show ((exprs.lookup c).map fun expr ↦ expr r').getD (r'.cells c) = .null
    rw [hnone]
    exact f.null r' hr' c hf

theorem mem_columns_withColumns {f : Frame τ} {exprs : List (PyStr × (Row τ → Value))} {c : PyStr} :
    c ∈ (f.withColumns exprs).columns ↔ c ∈ f.columns ∨ c ∈ exprs.map Prod.fst := by
  show c ∈ f.columns ++ (exprs.map Prod.fst).dedup.filter (fun c ↦ c ∉ f.columns) ↔ _
  rw [List.mem_append, List.mem_filter, List.mem_dedup, decide_eq_true_iff]
  by_cases hc : c ∈ f.columns
  · exact ⟨fun _ ↦ .inl hc, fun _ ↦ .inl hc⟩
  · exact or_congr_right (and_iff_left hc)

theorem length_rows_withColumns {f : Frame τ} {exprs : List (PyStr × (Row τ → Value))} :
    (f.withColumns exprs).rows.length = f.rows.length := List.length_map _

/-- `f.select(columns)`. -/
def select (f : Frame τ) (columns : List PyStr) : Option (Frame τ) :=
  if h : columns ≠ [] ∧ columns.Nodup ∧ ∀ c ∈ columns, c ∈ f.columns then
    some
      { columns
        rows := f.rows.map fun r ↦
          { r with cells := fun c ↦ if c ∈ columns then r.cells c else .null }
        columns_ne := h.1
        nodup := h.2.1
        null := by
          intro r hr c hc
          obtain ⟨r', -, rfl⟩ := List.mem_map.1 hr
          exact if_neg hc }
  else none

/-- A selection of columns that are there. -/
theorem exists_select {f : Frame τ} {columns : List PyStr} (hne : columns ≠ [])
    (hnodup : columns.Nodup) (hsub : ∀ c ∈ columns, c ∈ f.columns) :
    ∃ g, f.select columns = some g ∧ g.columns = columns ∧ g.rows.length = f.rows.length :=
  ⟨_, dif_pos ⟨hne, hnodup, hsub⟩, rfl, List.length_map _⟩

/-- `f.drop(c)`. -/
def drop (f : Frame τ) (c : PyStr) : Option (Frame τ) :=
  if c ∈ f.columns then f.select (f.columns.filter (· ≠ c)) else none

/-- `f.rename({old: new})`. -/
def rename (f : Frame τ) (old new : PyStr) : Option (Frame τ) :=
  if h : old ∈ f.columns ∧ new ∉ f.columns then
    some
      { columns := f.columns.map fun c ↦ if c = old then new else c
        rows := f.rows.map fun r ↦
          { r with
            cells := fun c ↦ if c = new then r.cells old else if c = old then .null else r.cells c }
        columns_ne := fun hnil ↦ f.columns_ne (List.map_eq_nil_iff.1 hnil)
        nodup := by
          refine (List.nodup_map_iff_inj_on f.nodup).2 fun c hc c' hc' heq ↦ ?_
          split_ifs at heq with hold hold' hold'
          · exact hold.trans hold'.symm
          · exact absurd (heq ▸ hc') h.2
          · exact absurd (heq ▸ hc) h.2
          · exact heq
        null := by
          intro r hr c hc
          obtain ⟨r', hr', rfl⟩ := List.mem_map.1 hr
          have hnew : c ≠ new := fun heq ↦ hc (List.mem_map.2 ⟨old, h.1, heq ▸ if_pos rfl⟩)
          show (if c = new then r'.cells old else if c = old then .null else r'.cells c) = .null
          rw [if_neg hnew]
          split_ifs with hold
          · rfl
          · exact f.null r' hr' c fun hmem ↦ hc (List.mem_map.2 ⟨c, hmem, if_neg hold⟩) }
  else if old ∈ f.columns ∧ new = old then some f
  else none

/-- **The old name is gone.** -/
theorem not_mem_columns_rename {f g : Frame τ} {old new : PyStr} (hne : new ≠ old)
    (h : f.rename old new = some g) : old ∉ g.columns := by
  rw [rename] at h
  split_ifs at h with hrename hsame
  · obtain rfl := Option.some.inj h
    intro hmem
    obtain ⟨c, -, hc⟩ := List.mem_map.1 hmem
    split_ifs at hc with hold
    · exact hne hc
    · exact hold hc
  · exact absurd hsame.2 hne

end Frame

/-- The column of a float. -/
def Value.isFloat : Value → Bool
  | .float _ => true
  | _ => false

/-- `pl.col(c).sum()` of numbers. Nulls count for nothing. -/
def Value.sum (values : List Value) : Value :=
  if values.any Value.isFloat then .float (values.filterMap Value.castFloat64).sum
  else .int (values.filterMap Value.castInt64).sum

/-- `f.group_by(key).agg(pl.col(c).sum().alias(name))`. -/
def Grouping.sumBy (G : Grouping Unit) (f : Frame Unit) (key c name : PyStr) :
    Option (Frame Unit) :=
  if h : key ∈ f.columns ∧ c ∈ f.columns ∧ key ≠ name then
    some (Frame.ofRows [key, name] (List.cons_ne_nil _ _) (List.nodup_cons.2
      ⟨fun hmem ↦ h.2.2 (List.mem_singleton.1 hmem), List.nodup_singleton _⟩)
      ((G.groups key f.rows).map fun e ↦
        ([e.1, Value.sum (e.2.map fun r ↦ r.cells c)], ())))
  else none

/-- Which of the rows that are nearest in a column `join_asof` takes. -/
structure Asof (τ : Type*) where
  /-- The row that is taken for an integer. -/
  nearest : PyStr → List (Row τ) → ℤ → Option (Row τ)
  /-- It is a row with an integer. -/
  nearest_mem : ∀ c rows t, ∀ r ∈ nearest c rows t, r ∈ rows ∧ ∃ n : ℤ, r.cells c = .int n
  /-- There is one where a row has an integer. -/
  nearest_isSome : ∀ c rows t, ∀ r ∈ rows, ∀ n : ℤ, r.cells c = .int n →
    (nearest c rows t).isSome
  /-- None is nearer. -/
  nearest_le : ∀ c rows t, ∀ r ∈ nearest c rows t, ∀ r' ∈ rows, ∀ m n : ℤ,
    r.cells c = .int m → r'.cells c = .int n → (t - m).natAbs ≤ (t - n).natAbs

/-- The row has an integer in the column. -/
def hasInt {τ : Type*} (c : PyStr) (r : Row τ) : Bool :=
  match r.cells c with
  | .int _ => true
  | _ => false

theorem exists_of_hasInt {τ : Type*} {c : PyStr} {r : Row τ} (h : hasInt c r = true) :
    ∃ n : ℤ, r.cells c = .int n := by
  rw [hasInt] at h
  split at h
  · exact ⟨_, ‹_›⟩
  · exact absurd h Bool.false_ne_true

/-- The first of the nearest rows. -/
def Asof.first {τ : Type*} : Asof τ where
  nearest c rows t :=
    (rows.filter (hasInt c)).argmin fun r ↦ (t - Engine.sortKey (r.cells c)).natAbs
  nearest_mem c rows t r hr := by
    obtain ⟨hmem, hint⟩ := List.mem_filter.1 (List.argmin_mem hr)
    exact ⟨hmem, exists_of_hasInt hint⟩
  nearest_isSome c rows t r hr n hn := by
    rw [Option.isSome_iff_ne_none]
    intro hnone
    have hmem : r ∈ rows.filter (hasInt c) := List.mem_filter.2 ⟨hr, by rw [hasInt, hn]⟩
    rw [List.argmin_eq_none.1 hnone] at hmem
    exact List.not_mem_nil hmem
  nearest_le c rows t r hr r' hr' m n hm hn := by
    have hmem : r' ∈ rows.filter (hasInt c) := List.mem_filter.2 ⟨hr', by rw [hasInt, hn]⟩
    have hle := List.le_of_mem_argmin hmem hr
    rwa [hm, hn] at hle

/-- The row for a cell, which has none unless it is an integer. -/
def Asof.rowFor {τ : Type*} (A : Asof τ) (c : PyStr) (rows : List (Row τ)) :
    Value → Option (Row τ)
  | .int t => A.nearest c rows t
  | _ => none

namespace Frame

variable {τ : Type*}

/-- The name of a column on the right next to the columns on the left. -/
def besides (columns : List PyStr) (c : PyStr) : PyStr :=
  if c ∈ columns then c ++ "_right".toList else c

/-- The columns that a join adds. -/
def addedColumns (right : Frame τ) (rightOn : PyStr) : List PyStr :=
  right.columns.filter (· ≠ rightOn)

/-- `left.join_asof(right, left_on=..., right_on=..., strategy="nearest")`; the key on the right is
left out. -/
def joinAsof (A : Asof τ) (left right : Frame τ) (leftOn rightOn : PyStr) : Option (Frame τ) :=
  let added := addedColumns right rightOn
  if h : leftOn ∈ left.columns ∧ rightOn ∈ right.columns ∧
      (left.columns ++ added.map (besides left.columns)).Nodup then
    some
      { columns := left.columns ++ added.map (besides left.columns)
        rows := left.rows.map fun r ↦
          { r with
            cells := fun c ↦
              if c ∈ left.columns then r.cells c
              else
                (added.find? fun c' ↦ besides left.columns c' = c).elim .null fun c' ↦
                  (A.rowFor rightOn right.rows (r.cells leftOn)).elim .null fun r' ↦ r'.cells c' }
        columns_ne := List.append_ne_nil_of_left_ne_nil left.columns_ne _
        nodup := h.2.2
        null := by
          intro r hr c hc
          obtain ⟨r', -, rfl⟩ := List.mem_map.1 hr
          rw [List.mem_append, not_or] at hc
          have hnone : (added.find? fun c' ↦ besides left.columns c' = c) = none :=
            List.find?_eq_none.2 fun c' hc' heq ↦
              hc.2 (List.mem_map.2 ⟨c', hc', of_decide_eq_true heq⟩)
          simp only [if_neg hc.1, hnone, Option.elim_none] }
  else none

/-- **A join of different columns** keeps the rows on the left and adds the columns on the right. -/
theorem exists_joinAsof {A : Asof τ} {left right : Frame τ} {leftOn rightOn : PyStr}
    (hleft : leftOn ∈ left.columns) (hright : rightOn ∈ right.columns)
    (hdisjoint : ∀ c ∈ right.columns, c ≠ rightOn → c ∉ left.columns) :
    ∃ g, joinAsof A left right leftOn rightOn = some g ∧
      g.columns = left.columns ++ addedColumns right rightOn ∧
      g.rows.length = left.rows.length := by
  have hmem : ∀ c ∈ addedColumns right rightOn, c ∉ left.columns := fun c hc ↦
    hdisjoint c (List.mem_filter.1 hc).1 (of_decide_eq_true (List.mem_filter.1 hc).2)
  have hnames : (addedColumns right rightOn).map (besides left.columns) =
      addedColumns right rightOn :=
    (List.map_congr_left fun c hc ↦ if_neg (hmem c hc)).trans (List.map_id _)
  have hnodup : (left.columns ++ addedColumns right rightOn).Nodup :=
    List.nodup_append'.2 ⟨left.nodup, right.nodup.filter _, fun c hc hc' ↦ hmem c hc' hc⟩
  refine ⟨_, dif_pos ⟨hleft, hright, by rwa [hnames]⟩, ?_, List.length_map _⟩
  show left.columns ++ (addedColumns right rightOn).map (besides left.columns) = _
  rw [hnames]

end Frame

end Polars
