import HugePageResearch.Python.Text
import Mathlib.Logic.Function.Basic
import Mathlib.Data.List.Nodup
import Mathlib.Data.List.Sort

/-!
# Data frames

What this program uses of Polars frames: named columns, rows of cells, the diagonal concatenation of
frames, the literal column and casts. A cell outside the columns of its frame is null, which is what
`diagonal_relaxed` fills in where a frame lacks a column of another.

A row carries a mark next to its cells that no operation looks at or changes, so that a result about
frames can say where the rows of a frame come from. The type of a column is not part of a frame, and
every frame has a column.
-/

namespace Polars

/-- The value of a cell. -/
inductive Value where
  /-- `None`. -/
  | null
  /-- A truth value. -/
  | bool (b : Bool)
  /-- An integer. -/
  | int (n : ℤ)
  /-- A float, at its exact value. -/
  | float (q : ℚ)
  /-- A string. -/
  | str (s : PyStr)
  deriving DecidableEq

/-- A row: its cells by column name, and a mark of type `τ`. -/
structure Row (τ : Type*) where
  /-- The cells. -/
  cells : PyStr → Value
  /-- What is known about the row besides its cells. -/
  mark : τ

/-- The row with the given values in the given columns. -/
def Row.ofValues {τ : Type*} (columns : List PyStr) (values : List Value) (mark : τ) : Row τ :=
  ⟨fun c ↦ ((columns.zip values).lookup c).getD .null, mark⟩

/-- What a cast makes of the values of each column. Null stays null; where the cast is not strict, a
value that does not fit becomes null. -/
structure CellCast where
  /-- The value in place of a value of a column. -/
  cell : PyStr → Value → Value
  /-- Null is of every type. -/
  null : ∀ c, cell c .null = .null

/-- The row with the cells that the cast makes of its own. -/
def CellCast.row {τ : Type*} (k : CellCast) (r : Row τ) : Row τ :=
  { r with cells := fun c ↦ k.cell c (r.cells c) }

/-- A frame. -/
structure Frame (τ : Type*) where
  /-- The columns, in order. -/
  columns : List PyStr
  /-- The rows, in order. -/
  rows : List (Row τ)
  /-- There is a column. -/
  columns_ne : columns ≠ []
  /-- No two columns share a name. -/
  nodup : columns.Nodup
  /-- There is nothing outside the columns. -/
  null : ∀ r ∈ rows, ∀ c ∉ columns, r.cells c = .null

namespace Frame

variable {τ : Type*}

/-- A frame with one column and one row, which is null. -/
def nullRow (c : PyStr) (mark : τ) : Frame τ where
  columns := [c]
  rows := [⟨fun _ ↦ .null, mark⟩]
  columns_ne := List.cons_ne_nil _ _
  nodup := List.nodup_singleton _
  null _ hr _ _ := by rw [List.mem_singleton.1 hr]

/-- `pl.concat([f, g], how="diagonal_relaxed")`. -/
def append (f g : Frame τ) : Frame τ where
  columns := f.columns ++ g.columns.filter fun c ↦ c ∉ f.columns
  rows := f.rows ++ g.rows
  columns_ne := List.append_ne_nil_of_left_ne_nil f.columns_ne _
  nodup := by
    refine List.nodup_append'.2 ⟨f.nodup, g.nodup.filter _, fun c hc hc' ↦ ?_⟩
    exact absurd hc (of_decide_eq_true (List.mem_filter.1 hc').2)
  null r hr c hc := by
    rw [List.mem_append, not_or] at hc
    rcases List.mem_append.1 hr with hr | hr
    · exact f.null r hr c hc.1
    · exact g.null r hr c fun hg ↦ hc.2 (List.mem_filter.2 ⟨hg, decide_eq_true hc.1⟩)

/-- `pl.concat([f, ...], how="diagonal_relaxed")`. -/
def concat (f : Frame τ) (fs : List (Frame τ)) : Frame τ := fs.foldl append f

@[simp] theorem rows_append (f g : Frame τ) : (f.append g).rows = f.rows ++ g.rows := rfl

theorem mem_columns_append {f g : Frame τ} {c : PyStr} :
    c ∈ (f.append g).columns ↔ c ∈ f.columns ∨ c ∈ g.columns := by
  show c ∈ f.columns ++ g.columns.filter (fun c ↦ c ∉ f.columns) ↔ _
  rw [List.mem_append, List.mem_filter, decide_eq_true_iff]
  constructor
  · rintro (h | ⟨h, -⟩)
    · exact Or.inl h
    · exact Or.inr h
  · rintro (h | h)
    · exact Or.inl h
    · by_cases hf : c ∈ f.columns
      · exact Or.inl hf
      · exact Or.inr ⟨h, hf⟩

/-- **Concatenation appends the rows.** -/
theorem rows_concat (f : Frame τ) (fs : List (Frame τ)) :
    (f.concat fs).rows = f.rows ++ fs.flatMap Frame.rows := by
  induction fs generalizing f with
  | nil => exact (List.append_nil _).symm
  | cons g gs ih =>
    show ((f.append g).concat gs).rows = _
    rw [ih, rows_append, List.flatMap_cons, List.append_assoc]

/-- **Concatenation unites the columns.** -/
theorem mem_columns_concat {f : Frame τ} {fs : List (Frame τ)} {c : PyStr} :
    c ∈ (f.concat fs).columns ↔ ∃ g ∈ f :: fs, c ∈ g.columns := by
  induction fs generalizing f with
  | nil =>
    show c ∈ f.columns ↔ _
    simp
  | cons g gs ih =>
    show c ∈ ((f.append g).concat gs).columns ↔ _
    rw [ih]
    simp only [List.mem_cons, exists_eq_or_imp, mem_columns_append, or_assoc]

/-- A row with one cell set. -/
def setCell (c : PyStr) (v : Value) (r : Row τ) : Row τ :=
  { r with cells := Function.update r.cells c v }

/-- `f.with_columns(pl.lit(v).alias(c))`. -/
def withLit (f : Frame τ) (c : PyStr) (v : Value) : Frame τ where
  columns := if c ∈ f.columns then f.columns else f.columns ++ [c]
  rows := f.rows.map (setCell c v)
  columns_ne := by
    split_ifs
    · exact f.columns_ne
    · exact List.append_ne_nil_of_left_ne_nil f.columns_ne _
  nodup := by
    split_ifs with hc
    · exact f.nodup
    · rw [← List.concat_eq_append]
      exact f.nodup.concat hc
  null r hr c' hc' := by
    obtain ⟨r', hr', rfl⟩ := List.mem_map.1 hr
    have hmem : c' ∉ f.columns ∧ c' ≠ c := by
      split_ifs at hc' with hc
      · exact ⟨hc', fun h ↦ hc' (h ▸ hc)⟩
      · rw [List.mem_append, not_or, List.mem_singleton] at hc'
        exact hc'
    show Function.update r'.cells c v c' = .null
    rw [Function.update_of_ne hmem.2]
    exact f.null r' hr' c' hmem.1

/-- `pl.DataFrame` of rows that are given by their values in the order of the columns. -/
def ofRows (columns : List PyStr) (hne : columns ≠ []) (hnd : columns.Nodup)
    (rows : List (List Value × τ)) : Frame τ where
  columns := columns
  rows := rows.map fun r ↦ Row.ofValues columns r.1 r.2
  columns_ne := hne
  nodup := hnd
  null r hr c hc := by
    obtain ⟨values, -, rfl⟩ := List.mem_map.1 hr
    have hnone : (columns.zip values.1).lookup c = none := by
      rw [List.lookup_eq_none_iff]
      intro e he
      refine bne_iff_ne.2 ?_
      rintro rfl
      exact hc (List.of_mem_zip he).1
    show ((columns.zip values.1).lookup c).getD .null = .null
    rw [hnone]
    rfl

/-- Some of the rows, in some order. -/
def withRows (f : Frame τ) (rows : List (Row τ)) (h : ∀ r ∈ rows, r ∈ f.rows) : Frame τ :=
  { f with
    rows := rows
    null := fun r hr ↦ f.null r (h r hr) }

/-- `f.with_columns(pl.col(c).cast(...))`; there is no frame where there is no such column or the
cast refuses a value. -/
def castColumn (f : Frame τ) (c : PyStr) (cast : Value → Option Value) : Option (Frame τ) :=
  if hc : c ∈ f.columns ∧ ∀ r ∈ f.rows, (cast (r.cells c)).isSome then
    some { f with
      rows := f.rows.map fun r ↦ setCell c ((cast (r.cells c)).getD .null) r
      null := by
        intro r hr c' hc'
        obtain ⟨r', hr', rfl⟩ := List.mem_map.1 hr
        have hne : c' ≠ c := fun h ↦ hc' (h ▸ hc.1)
        show Function.update r'.cells c _ c' = .null
        rw [Function.update_of_ne hne]
        exact f.null r' hr' c' hc' }
  else none

/-- A cast that changes no value changes no row. -/
theorem castColumn_of_fixed {f : Frame τ} {c : PyStr} {cast : Value → Option Value}
    (hc : c ∈ f.columns) (hfix : ∀ r ∈ f.rows, cast (r.cells c) = some (r.cells c)) :
    f.castColumn c cast = some f := by
  have hrows : (f.rows.map fun r ↦ setCell c ((cast (r.cells c)).getD .null) r) = f.rows := by
    refine (List.map_congr_left fun r hr ↦ ?_).trans (List.map_id _)
    rw [hfix r hr, Option.getD_some, setCell, Function.update_eq_self]
    rfl
  rw [castColumn, dif_pos ⟨hc, fun r hr ↦ by rw [hfix r hr]; rfl⟩]
  simp only [hrows]

/-- `f.cast(...)`: every cell becomes what the cast makes of it. -/
def cast (f : Frame τ) (k : CellCast) : Frame τ where
  columns := f.columns
  rows := f.rows.map k.row
  columns_ne := f.columns_ne
  nodup := f.nodup
  null r hr c hc := by
    obtain ⟨r', hr', rfl⟩ := List.mem_map.1 hr
    show k.cell c (r'.cells c) = .null
    rw [f.null r' hr' c hc, k.null]

/-- A cell with a value stands in a column. -/
theorem mem_columns_of_cell {f : Frame τ} {r : Row τ} {c : PyStr} (hr : r ∈ f.rows)
    (hc : r.cells c ≠ .null) : c ∈ f.columns := by
  by_contra h
  exact hc (f.null r hr c h)

end Frame

/-- What the documentation of Polars leaves open: which of the rows with one value of a column
`unique` keeps and in which order it returns them, how `sort` orders rows of one key, and the text
of a float. -/
structure Engine (τ : Type*) where
  /-- The rows that `unique(c)` keeps. -/
  unique : PyStr → List (Row τ) → List (Row τ)
  /-- They are rows of the frame. -/
  unique_subset : ∀ c rows, ∀ r ∈ unique c rows, r ∈ rows
  /-- No value is left twice. -/
  unique_nodup : ∀ c rows, ((unique c rows).map fun r ↦ r.cells c).Nodup
  /-- Every value is left. -/
  unique_covers : ∀ c rows, ∀ r ∈ rows, ∃ r' ∈ unique c rows, r'.cells c = r.cells c
  /-- The rows in the order of `sort(c)`. -/
  sort : PyStr → List (Row τ) → List (Row τ)
  /-- They are the rows of the frame. -/
  sort_perm : ∀ c rows, (sort c rows).Perm rows
  /-- Integers come in increasing order. -/
  sort_sorted : ∀ c rows, (sort c rows).Pairwise fun r r' ↦ ∀ m n : ℤ,
    r.cells c = .int m → r'.cells c = .int n → m ≤ n
  /-- `pl.Float64` to `pl.String`. -/
  floatText : ℚ → PyStr

namespace Engine

variable {τ : Type*} (E : Engine τ)

/-- The strict cast to `pl.String`. -/
def castString : Value → Option Value
  | .null => some .null
  | .bool b => some (.str (if b then "true".toList else "false".toList))
  | .int n => some (.str (PyStr.ofInt n))
  | .float q => some (.str (E.floatText q))
  | .str s => some (.str s)

/-- `f.unique(c)`. -/
def uniqueBy (f : Frame τ) (c : PyStr) : Option (Frame τ) :=
  if c ∈ f.columns then some (f.withRows (E.unique c f.rows) (E.unique_subset c f.rows)) else none

/-- `f.sort(c)`. -/
def sortBy (f : Frame τ) (c : PyStr) : Option (Frame τ) :=
  if c ∈ f.columns then
    some (f.withRows (E.sort c f.rows) fun _ hr ↦ (E.sort_perm c f.rows).mem_iff.1 hr)
  else none

/-- The number by which a value is sorted. -/
def sortKey : Value → ℤ
  | .int n => n
  | _ => 0

/-- An engine that keeps the last row of each value and sorts stably. -/
def lastKept : Engine τ where
  unique c rows := rows.pwFilter fun r r' ↦ r.cells c ≠ r'.cells c
  unique_subset c rows r hr := List.pwFilter_subset _ hr
  unique_nodup c rows := by
    rw [List.Nodup, List.pairwise_map]
    exact List.pairwise_pwFilter _
  unique_covers c rows r hr := by
    by_contra h
    push Not at h
    have hne : ∀ r' ∈ rows, r.cells c ≠ r'.cells c :=
      (List.forall_mem_pwFilter (fun {x y z} hxz ↦ by
        by_contra hxy
        rw [not_or, not_not, not_not] at hxy
        exact hxz (hxy.1.trans hxy.2)) r rows).1 fun r' hr' heq ↦ h r' hr' heq.symm
    exact hne r hr rfl
  sort c rows := rows.insertionSort fun r r' ↦ sortKey (r.cells c) ≤ sortKey (r'.cells c)
  sort_perm _ _ := List.perm_insertionSort _ _
  sort_sorted c rows := by
    have htotal : Std.Total fun r r' : Row τ ↦ sortKey (r.cells c) ≤ sortKey (r'.cells c) :=
      ⟨fun _ _ ↦ le_total _ _⟩
    have htrans : IsTrans _ fun r r' : Row τ ↦ sortKey (r.cells c) ≤ sortKey (r'.cells c) :=
      ⟨fun _ _ _ ↦ le_trans⟩
    refine (List.pairwise_insertionSort _ rows).imp fun {r r'} hle m n hm hn ↦ ?_
    rwa [hm, hn] at hle
  floatText q := (Int.repr q.num).toList

end Engine

/-- The strict cast to `pl.Boolean`, which texts do not have. -/
def Value.castBoolean : Value → Option Value
  | .null => some .null
  | .bool b => some (.bool b)
  | .int n => some (.bool (n ≠ 0))
  | .float q => some (.bool (q ≠ 0))
  | .str _ => none

end Polars
