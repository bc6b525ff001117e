import HugePageResearch.Library.Groups
import HugePageResearch.Polars.Frame

/-!
# Expressions and groups

What the analyses use of frames besides loading them: columns that are computed row by row, filters,
selections and `group_by`, which returns its groups in any order and keeps the order of the rows in
each.
-/

namespace Polars

open Groups

namespace Frame

variable {τ : Type*}

@[simp] theorem cells_setCell_self (c : PyStr) (v : Value) (r : Row τ) :
    (setCell c v r).cells c = v := by
  show Function.update r.cells c v c = v
  rw [Function.update_self]

theorem cells_setCell_of_ne {c c' : PyStr} (h : c' ≠ c) (v : Value) (r : Row τ) :
    (setCell c v r).cells c' = r.cells c' := by
  show Function.update r.cells c v c' = r.cells c'
  rw [Function.update_of_ne h]

/-- `f.filter(...)`. -/
def filter (f : Frame τ) (p : Row τ → Bool) : Frame τ :=
  f.withRows (f.rows.filter p) fun _ hr ↦ (List.mem_filter.1 hr).1

/-- `f.with_columns(expr.alias(c))`, for an expression of one row. -/
def withColumn (f : Frame τ) (c : PyStr) (expr : Row τ → Value) : Frame τ where
  columns := if c ∈ f.columns then f.columns else f.columns ++ [c]
  rows := f.rows.map fun r ↦ setCell c (expr r) r
  columns_ne := (f.withLit c .null).columns_ne
  nodup := (f.withLit c .null).nodup
  null r hr c' hc' := by
    obtain ⟨r', hr', rfl⟩ := List.mem_map.1 hr
    have hnull := (f.withLit c .null).null _ (List.mem_map_of_mem hr') c' hc'
    have hne : c' ≠ c := by
      rintro rfl
      refine hc' ?_
      split_ifs with hc
      · exact hc
      · exact List.mem_append_right _ (List.mem_singleton_self _)
    rw [cells_setCell_of_ne hne] at hnull ⊢
    exact hnull

@[simp] theorem rows_withColumn (f : Frame τ) (c : PyStr) (expr : Row τ → Value) :
    (f.withColumn c expr).rows = f.rows.map fun r ↦ setCell c (expr r) r := rfl

theorem mem_columns_withColumn {f : Frame τ} {c c' : PyStr} {expr : Row τ → Value} :
    c' ∈ (f.withColumn c expr).columns ↔ c' ∈ f.columns ∨ c' = c := by
  show c' ∈ (if c ∈ f.columns then f.columns else f.columns ++ [c]) ↔ _
  split_ifs with hc
  · exact ⟨.inl, fun h ↦ h.elim id fun heq ↦ heq ▸ hc⟩
  · rw [List.mem_append, List.mem_singleton]

end Frame

/-- `group_by(c)`, in the order of the engine. -/
structure Grouping (τ : Type*) where
  groups : PyStr → List (Row τ) → List (Value × List (Row τ))
  grouped : ∀ c rows, GroupedBy (fun r ↦ r.cells c) rows (groups c rows)

/-- The groups in the order of their first rows. -/
def Grouping.firstSeen {τ : Type*} : Grouping τ where
  groups c rows := Groups.grouped (fun r ↦ r.cells c) rows
  grouped _ rows := groupedBy_grouped _ rows

/-- `pl.Int64` of a number. -/
def Value.castInt64 : Value → Option ℤ
  | .bool b => some (if b then 1 else 0)
  | .int n => some n
  | .float q => some (q.num.tdiv q.den)
  | _ => none

/-- `pl.Float64` of a number, at its exact value. -/
def Value.castFloat64 : Value → Option ℚ
  | .bool b => some (if b then 1 else 0)
  | .int n => some n
  | .float q => some q
  | _ => none

end Polars
