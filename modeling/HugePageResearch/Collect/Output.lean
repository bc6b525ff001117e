import HugePageResearch.Collect.Polling
import HugePageResearch.Library.Lists
import HugePageResearch.Python.Dict
import HugePageResearch.Schema.ChunkFile

/-!
# Writing one chunk

`output_collections_to_file` of `cli/collect.py`: pop every hook, then write every table to
`<table>.<name>.parquet`. A hook's `pop_data` builds its tables from its buffers and clears the
buffers, so the rows of all hooks are out of the buffers before the first file is written.

The call can raise at every hook, before its buffers are cleared, and at every table, before or
after its file holds the rows. `outputChunk_noLoss_iff` says of which calls that raise
every row is still in a buffer or in a file.

What a table's columns are plays no role here: a table stands for the buffered rows that it holds. A
table that is filtered, joined from two buffers or made unique holds some of them only, and which
these are is given with its source (`TableSource.kept`).
-/

namespace Collect

open Lists
open Schema (chunkFile chunkFile_inj)

variable {Row : Type*}

/-- A table under its name. -/
structure CollectionTable (Row : Type*) where
  /-- `name()`. -/
  name : PyStr
  /-- The buffered rows that the frame holds. -/
  rows : List Row

/-! ### Hooks -/

/-- What `data()` does where a table would be built from an empty buffer. -/
inductive OnEmpty where
  /-- The table is left out, as in the THP hooks. -/
  | leaveOut
  /-- No table of the hook is built, as in the hook for collapsed huge pages. -/
  | returnNothing
  /-- The empty frame has no column to rename or to cast, as in QuantaRuntime and BlockIO. -/
  | raise
  /-- The table is built all the same and holds nothing of a buffer, as for the memory usage. -/
  | build
  deriving DecidableEq

/-- The buffers that one table is built from. -/
structure TableSource (Row : Type*) where
  /-- The name of the table. -/
  name : PyStr
  /-- More than one for a merged table. -/
  buffers : List (List Row)
  /-- The buffered rows that are in a row of the table. -/
  kept : List Row
  /-- Those that a filter, a join or `unique` drops. -/
  dropped : List Row
  /-- These are all. -/
  perm : buffers.flatten.Perm (kept ++ dropped)

/-- A hook at the time of the call. -/
structure Hook (Row : Type*) where
  /-- Its tables, in the order of `data()`. -/
  sources : List (TableSource Row)
  /-- What `data()` makes of an empty buffer. -/
  onEmpty : OnEmpty
  /-- An exception that building the tables raises for another reason, such as a failing cast. -/
  fault : Option PyException

namespace TableSource

/-- Some buffer of the table is empty. -/
def hasEmpty (s : TableSource Row) : Bool := s.buffers.any List.isEmpty

/-- The rows of the table's buffers. -/
def rows (s : TableSource Row) : List Row := s.buffers.flatten

/-- A table of one buffer that holds all of it. -/
def plain (name : PyStr) (buffer : List Row) : TableSource Row :=
  ⟨name, [buffer], buffer, [], .refl _⟩

/-- The table that is built from the buffers. -/
def table (s : TableSource Row) : CollectionTable Row := ⟨s.name, s.kept⟩

/-- `buffer.clear()` for each buffer. -/
def clear (s : TableSource Row) : TableSource Row where
  name := s.name
  buffers := s.buffers.map fun _ ↦ []
  kept := []
  dropped := []
  perm := .of_eq (flatten_map_nil s.buffers)

@[simp] theorem rows_clear (s : TableSource Row) : s.clear.rows = [] := flatten_map_nil s.buffers

end TableSource

namespace Hook

/-- `ColumnNotFoundError` of a rename. -/
def columnNotFound : PyException := .exception "ColumnNotFoundError".toList

/-- Some buffer of the hook is empty. -/
def hasEmpty (h : Hook Row) : Bool := h.sources.any TableSource.hasEmpty

/-- The rows of all buffers. -/
def rows (h : Hook Row) : List Row := h.sources.flatMap TableSource.rows

/-- The tables that the buffers make. -/
def tables (h : Hook Row) : List (CollectionTable Row) :=
  match h.onEmpty with
  | .leaveOut => (h.sources.filter fun s ↦ !s.hasEmpty).map TableSource.table
  | .returnNothing => if h.hasEmpty then [] else h.sources.map TableSource.table
  | .raise | .build => h.sources.map TableSource.table

/-- `data()`. -/
def data (h : Hook Row) : Call (List (CollectionTable Row)) :=
  match h.fault with
  | some e => .error e
  | none => if h.onEmpty = .raise ∧ h.hasEmpty then .error columnNotFound else .ok h.tables

/-- `clear()`. -/
def clear (h : Hook Row) : Hook Row := { h with sources := h.sources.map TableSource.clear }

/-- `pop_data()`: the tables, then the cleared buffers; the buffers stay where `data()` raises. -/
def popData (h : Hook Row) : Call (List (CollectionTable Row)) × Hook Row :=
  match h.data with
  | .ok tables => (.ok tables, h.clear)
  | .error e => (.error e, h)

end Hook

/-! ### The call -/

/-- How writing one table ends. -/
inductive WriteOutcome where
  /-- The file holds the table. -/
  | written
  /-- An exception before the file is touched, such as a missing directory. -/
  | notOpened (e : PyException)
  /-- An exception while the file is written, such as a full disk: it can no longer be read. -/
  | torn (e : PyException)
  /-- The file holds the table and `os.chown` raises. -/
  | notOwned (e : PyException)

/-- The files of a run directory, by name. -/
abbrev Files (Row : Type*) := Dict PyStr (List Row)

/-- The first loop: `collection_tables.extend(bpf_program.pop_data())`. -/
def popAll : List (Hook Row) → List (CollectionTable Row) →
    List (Hook Row) × Call (List (CollectionTable Row))
  | [], tables => ([], .ok tables)
  | h :: hs, tables =>
    match h.popData with
    | (.error e, h') => (h' :: hs, .error e)
    | (.ok ts, h') => (h' :: (popAll hs (tables ++ ts)).1, (popAll hs (tables ++ ts)).2)

/-- Write a table over what its name held. -/
def Files.write (name : PyStr) (files : Files Row) (t : CollectionTable Row) : Files Row :=
  files.set (chunkFile t.name name) t.rows

/-- The second loop; `outcome j` is how its `j`-th pass ends. -/
def writeTables (name : PyStr) (ids : Option (ℤ × ℤ)) :
    (ℕ → WriteOutcome) → List (CollectionTable Row) → Files Row → Files Row × Call Unit
  | _, [], files => (files, .ok ())
  | outcome, t :: ts, files =>
    match outcome 0 with
    | .written => writeTables name ids (fun j ↦ outcome (j + 1)) ts (files.write name t)
    | .notOpened e => (files, .error e)
    | .torn e => (files.erase (chunkFile t.name name), .error e)
    | .notOwned e =>
      if ids.isSome then (files.write name t, .error e)
      else writeTables name ids (fun j ↦ outcome (j + 1)) ts (files.write name t)

/-- What a call leaves behind. -/
structure Output (Row : Type*) where
  /-- The hooks with their buffers. -/
  bpfPrograms : List (Hook Row)
  /-- The files written by the call. -/
  files : Files Row
  /-- The returned tables or the exception. -/
  result : Call (List (CollectionTable Row))

/-- `output_collections_to_file`. -/
def outputCollectionsToFile (collectionTables : List (CollectionTable Row))
    (bpfPrograms : List (Hook Row)) (name : PyStr) (ids : Option (ℤ × ℤ))
    (outcome : ℕ → WriteOutcome) : Output Row :=
  match popAll bpfPrograms collectionTables with
  | (hooks, .error e) => ⟨hooks, .empty, .error e⟩
  | (hooks, .ok tables) =>
    match writeTables name ids outcome tables .empty with
    | (files, .error e) => ⟨hooks, files, .error e⟩
    | (files, .ok ()) => ⟨hooks, files, .ok tables⟩

/-- The call in `output_data_thread`, for chunk `num`. -/
def outputChunk (bpfPrograms : List (Hook Row)) (num : ℕ) (userId groupId : ℤ)
    (outcome : ℕ → WriteOutcome) : Output Row :=
  outputCollectionsToFile [] bpfPrograms (PyStr.ofInt num) (some (userId, groupId)) outcome

/-- Every row buffered before the call is in a file of the call or in a buffer after it. -/
def Output.NoLoss (before : List (Hook Row)) (out : Output Row) : Prop :=
  (before.flatMap Hook.rows).Subperm (out.files.rows ++ out.bpfPrograms.flatMap Hook.rows)

/-! ### What popping a hook moves -/

namespace Hook

/-- `data()` raises nothing. -/
def poppable (h : Hook Row) : Bool := h.fault.isNone && !(h.onEmpty = .raise && h.hasEmpty)

/-- The buffered rows that `data()` puts into no table. -/
def leftOut (h : Hook Row) : List Row :=
  match h.onEmpty with
  | .leaveOut => h.sources.flatMap fun s ↦ if s.hasEmpty then s.rows else s.dropped
  | .returnNothing => if h.hasEmpty then h.rows else h.sources.flatMap TableSource.dropped
  | .raise | .build => h.sources.flatMap TableSource.dropped

@[simp] theorem rows_clear (h : Hook Row) : h.clear.rows = [] := by
  refine List.flatMap_eq_nil_iff.2 fun s hs ↦ ?_
  obtain ⟨s', -, rfl⟩ := List.mem_map.1 hs
  exact s'.rows_clear

theorem data_of_poppable {h : Hook Row} (hp : h.poppable = true) : h.data = .ok h.tables := by
  rcases hfault : h.fault with - | e
  · rw [poppable, hfault, Option.isNone_none, Bool.true_and] at hp
    rw [data, hfault]
    exact if_neg fun ⟨h1, h2⟩ ↦ by simp [h1, h2] at hp
  · rw [poppable, hfault] at hp
    exact absurd hp (by simp)

theorem data_of_not_poppable {h : Hook Row} (hp : h.poppable = false) :
    ∃ e, h.data = .error e := by
  rcases hfault : h.fault with - | e
  · rw [poppable, hfault, Option.isNone_none, Bool.true_and] at hp
    refine ⟨columnNotFound, ?_⟩
    rw [data, hfault]
    exact if_pos (by simpa using hp)
  · exact ⟨e, by rw [data, hfault]⟩

/-- The rows of some sources are those that they keep and those that they drop. -/
theorem rows_map_table (ss : List (TableSource Row)) :
    (ss.flatMap TableSource.rows).Perm ((ss.map TableSource.table).flatMap CollectionTable.rows ++
      ss.flatMap TableSource.dropped) := by
  rw [List.flatMap_map]
  exact (List.Perm.flatMap_left ss fun s _ ↦ s.perm).trans (List.flatMap_append_perm ss _ _).symm

/-- Where the sources with an empty buffer are left out, all their rows are. -/
theorem rows_filter_table (ss : List (TableSource Row)) :
    (ss.flatMap TableSource.rows).Perm
      (((ss.filter fun s ↦ !s.hasEmpty).map TableSource.table).flatMap CollectionTable.rows ++
        ss.flatMap fun s ↦ if s.hasEmpty then s.rows else s.dropped) := by
  have hkept : ((ss.filter fun s ↦ !s.hasEmpty).map TableSource.table).flatMap
      CollectionTable.rows = ss.flatMap fun s ↦ if s.hasEmpty then [] else s.kept := by
    induction ss with
    | nil => rfl
    | cons s ss ih =>
      rw [List.filter_cons, List.flatMap_cons, ← ih]
      cases s.hasEmpty with
      | true => rfl
      | false => rfl
  rw [hkept]
  refine (List.Perm.flatMap_left ss fun s _ ↦ ?_).trans (List.flatMap_append_perm ss _ _).symm
  split_ifs
  · exact .refl _
  · exact s.perm

/-- **A hook's rows** are those of its tables and those left out. -/
theorem rows_perm (h : Hook Row) :
    h.rows.Perm (h.tables.flatMap CollectionTable.rows ++ h.leftOut) := by
  rw [tables, leftOut]
  cases h.onEmpty with
  | leaveOut => exact rows_filter_table h.sources
  | returnNothing =>
    cases h.hasEmpty with
    | true => exact .refl _
    | false => exact rows_map_table h.sources
  | raise | build => exact rows_map_table h.sources

end Hook

/-! ### The first loop -/

/-- All hooks are popped. -/
theorem popAll_of_poppable {hooks : List (Hook Row)} (hp : ∀ h ∈ hooks, h.poppable = true)
    (tables : List (CollectionTable Row)) : popAll hooks tables =
      (hooks.map Hook.clear, .ok (tables ++ hooks.flatMap Hook.tables)) := by
  induction hooks generalizing tables with
  | nil => simp [popAll]
  | cons h hs ih =>
    obtain ⟨hh, hhs⟩ := List.forall_mem_cons.1 hp
    have hpop : h.popData = (.ok h.tables, h.clear) := by rw [Hook.popData, h.data_of_poppable hh]
    simp only [popAll, hpop, ih hhs, List.map_cons, List.flatMap_cons, List.append_assoc]

/-- A hook that raises keeps its buffers, as do the hooks after it; those before it are cleared. -/
theorem popAll_of_not_poppable {pre : List (Hook Row)} {h : Hook Row}
    (post : List (Hook Row)) (hpre : ∀ g ∈ pre, g.poppable = true) (hh : h.poppable = false)
    (tables : List (CollectionTable Row)) :
    ∃ e, popAll (pre ++ h :: post) tables = (pre.map Hook.clear ++ h :: post, .error e) := by
  induction pre generalizing tables with
  | nil =>
    obtain ⟨e, he⟩ := h.data_of_not_poppable hh
    have hpop : h.popData = (.error e, h) := by rw [Hook.popData, he]
    exact ⟨e, by simp only [popAll, hpop, List.nil_append, List.map_nil]⟩
  | cons g gs ih =>
    obtain ⟨hg, hgs⟩ := List.forall_mem_cons.1 hpre
    have hpop : g.popData = (.ok g.tables, g.clear) := by rw [Hook.popData, g.data_of_poppable hg]
    obtain ⟨e, he⟩ := ih hgs (tables ++ g.tables)
    exact ⟨e, by simp only [popAll, hpop, he, List.cons_append, List.map_cons]⟩

theorem flatMap_rows_clear (hooks : List (Hook Row)) :
    (hooks.map Hook.clear).flatMap Hook.rows = [] := by
  refine List.flatMap_eq_nil_iff.2 fun h hh ↦ ?_
  obtain ⟨g, -, rfl⟩ := List.mem_map.1 hh
  exact g.rows_clear

/-- **The rows of all hooks** are those of their tables and those left out. -/
theorem flatMap_rows_perm (hooks : List (Hook Row)) :
    (hooks.flatMap Hook.rows).Perm
      ((hooks.flatMap Hook.tables).flatMap CollectionTable.rows ++ hooks.flatMap Hook.leftOut) := by
  rw [List.flatMap_assoc]
  exact (List.Perm.flatMap_left hooks fun h _ ↦ h.rows_perm).trans
    (List.flatMap_append_perm hooks _ _).symm

/-! ### The second loop -/

/-- Write tables in order. -/
def Files.writeAll (name : PyStr) (files : Files Row) (ts : List (CollectionTable Row)) :
    Files Row :=
  ts.foldl (Files.write name) files

/-- The files after a write that fails. -/
def Files.fail (name : PyStr) (files : Files Row) (t : CollectionTable Row) :
    WriteOutcome → Files Row
  | .written => files
  | .notOpened _ => files
  | .torn _ => files.erase (chunkFile t.name name)
  | .notOwned _ => files.write name t

variable (name : PyStr) (ids : ℤ × ℤ) {outcome : ℕ → WriteOutcome}

/-- All tables are written. -/
theorem writeTables_of_written {ts : List (CollectionTable Row)}
    (h : ∀ i < ts.length, outcome i = .written) (files : Files Row) :
    writeTables name (some ids) outcome ts files = (files.writeAll name ts, .ok ()) := by
  induction ts generalizing outcome files with
  | nil => rfl
  | cons t ts ih =>
    have h0 : outcome 0 = .written := h 0 (Nat.succ_pos _)
    have hs : ∀ i < ts.length, outcome (i + 1) = .written :=
      fun i hi ↦ h (i + 1) (Nat.succ_lt_succ hi)
    rw [writeTables, h0]
    exact ih hs (files.write name t)

/-- A write that fails ends the loop. -/
theorem writeTables_of_fail {pre : List (CollectionTable Row)} (t : CollectionTable Row)
    (post : List (CollectionTable Row)) (hpre : ∀ i < pre.length, outcome i = .written)
    (ht : outcome pre.length ≠ .written) (files : Files Row) :
    ∃ e, writeTables name (some ids) outcome (pre ++ t :: post) files =
      ((files.writeAll name pre).fail name t (outcome pre.length), .error e) := by
  induction pre generalizing outcome files with
  | nil =>
    rw [List.length_nil] at ht ⊢
    rw [List.nil_append]
    rcases h0 : outcome 0 with - | e | e | e
    · exact absurd h0 ht
    · exact ⟨e, by rw [writeTables, h0]; rfl⟩
    · exact ⟨e, by rw [writeTables, h0]; rfl⟩
    · exact ⟨e, by rw [writeTables, h0]; rfl⟩
  | cons s ss ih =>
    have h0 : outcome 0 = .written := hpre 0 (Nat.succ_pos _)
    have hs : ∀ i < ss.length, outcome (i + 1) = .written :=
      fun i hi ↦ hpre (i + 1) (Nat.succ_lt_succ hi)
    obtain ⟨e, he⟩ := ih hs ht (files.write name s)
    refine ⟨e, ?_⟩
    rw [List.cons_append, writeTables, h0]
    exact he

/-! ### What the files hold -/

/-- A table with rows is not written over by a later one of its name. -/
def NotOverwritten (ts : List (CollectionTable Row)) : Prop :=
  ts.Pairwise fun t t' ↦ t.name = t'.name → t.rows = []

theorem notOverwritten_cons {t : CollectionTable Row} {ts : List (CollectionTable Row)} :
    NotOverwritten (t :: ts) ↔ (∀ s ∈ ts, t.name = s.name → t.rows = []) ∧ NotOverwritten ts :=
  List.pairwise_cons

theorem rowsAt_write (files : Files Row) (t : CollectionTable Row) (n : PyStr) :
    (files.write name t).rowsAt (chunkFile n name) =
      if t.name = n then t.rows else files.rowsAt (chunkFile n name) := by
  rw [Files.write, Dict.rowsAt_set]
  simp only [chunkFile_inj]

theorem rows_write_perm (files : Files Row) (t : CollectionTable Row) :
    ((files.write name t).rows ++ files.rowsAt (chunkFile t.name name)).Perm
      (files.rows ++ t.rows) :=
  files.rows_set _ _

/-- **Nothing is written twice.** -/
theorem rows_writeAll_subperm (ts : List (CollectionTable Row)) (files : Files Row) :
    (files.writeAll name ts).rows.Subperm (files.rows ++ ts.flatMap CollectionTable.rows) := by
  induction ts generalizing files with
  | nil =>
    rw [List.flatMap_nil, List.append_nil]
    exact List.Subperm.refl _
  | cons t ts ih =>
    have hstep : (files.write name t).rows.Subperm (files.rows ++ t.rows) :=
      (List.sublist_append_left _ _).subperm.trans (rows_write_perm name files t).subperm
    rw [List.flatMap_cons, ← List.append_assoc]
    exact (ih (files.write name t)).trans ((List.subperm_append_right _).2 hstep)

/-- **When everything written is there at the end.** The induction is on the tables; a write keeps
the count exactly when its name held no row. -/
theorem length_rows_writeAll_iff (ts : List (CollectionTable Row)) (files : Files Row) :
    (files.writeAll name ts).rows.length =
        files.rows.length + (ts.flatMap CollectionTable.rows).length ↔
      NotOverwritten ts ∧ ∀ t ∈ ts, files.rowsAt (chunkFile t.name name) = [] := by
  induction ts generalizing files with
  | nil => simp [Files.writeAll, NotOverwritten]
  | cons t ts ih =>
    have hwrite := (rows_write_perm name files t).length_eq
    have hle := (rows_writeAll_subperm name ts (files.write name t)).length_le
    have hih := ih (files.write name t)
    simp only [List.length_append] at hwrite hle
    have hsplit : (files.writeAll name (t :: ts)).rows.length =
          files.rows.length + ((t :: ts).flatMap CollectionTable.rows).length ↔
        ((files.write name t).writeAll name ts).rows.length =
          (files.write name t).rows.length + (ts.flatMap CollectionTable.rows).length ∧
        files.rowsAt (chunkFile t.name name) = [] := by
      rw [← List.length_eq_zero_iff, List.flatMap_cons, List.length_append]
      show ((files.write name t).writeAll name ts).rows.length = _ ↔ _
      omega
    rw [hsplit, hih, notOverwritten_cons, List.forall_mem_cons]
    simp only [rowsAt_write]
    constructor
    · rintro ⟨⟨hts, hfiles⟩, ht⟩
      refine ⟨⟨fun s hs hname ↦ ?_, hts⟩, ht, fun s hs ↦ ?_⟩
      · have := hfiles s hs
        rwa [if_pos hname] at this
      · by_cases hname : t.name = s.name
        · rwa [← hname]
        · have := hfiles s hs
          rwa [if_neg hname] at this
    · rintro ⟨⟨hover, hts⟩, ht, hfiles⟩
      refine ⟨⟨hts, fun s hs ↦ ?_⟩, ht⟩
      by_cases hname : t.name = s.name
      · rw [if_pos hname]
        exact hover s hs hname
      · rw [if_neg hname]
        exact hfiles s hs

theorem notOverwritten_concat {t : CollectionTable Row} {ts : List (CollectionTable Row)} :
    NotOverwritten (ts ++ [t]) ↔ NotOverwritten ts ∧ ∀ s ∈ ts, s.name = t.name → s.rows = [] := by
  rw [NotOverwritten, List.pairwise_append]
  constructor
  · rintro ⟨hts, -, ht⟩
    exact ⟨hts, fun s hs ↦ ht s hs t List.mem_cons_self⟩
  · rintro ⟨hts, ht⟩
    refine ⟨hts, List.pairwise_singleton _ _, fun s hs t' ht' ↦ ?_⟩
    obtain rfl := List.mem_singleton.1 ht'
    exact ht s hs

theorem writeAll_concat (files : Files Row) (ts : List (CollectionTable Row))
    (t : CollectionTable Row) :
    files.writeAll name (ts ++ [t]) = (files.writeAll name ts).write name t := by
  rw [Files.writeAll, List.foldl_append]
  rfl

/-- Starting from no file, everything written is there exactly when nothing was written over. -/
theorem length_rows_writeAll_empty_iff (ts : List (CollectionTable Row)) :
    (Files.writeAll name .empty ts).rows.length = (ts.flatMap CollectionTable.rows).length ↔
      NotOverwritten ts := by
  have h := length_rows_writeAll_iff name ts .empty
  rw [Dict.rows_empty, List.length_nil, Nat.zero_add] at h
  rw [h]
  exact and_iff_left fun _ _ ↦ rfl

/-- A torn file counts as one with no rows. -/
theorem length_rows_erase (files : Files Row) (t : CollectionTable Row) :
    (files.erase (chunkFile t.name name)).rows.length =
      (files.write name ⟨t.name, []⟩).rows.length := by
  have herase := (files.rows_erase (chunkFile t.name name)).length_eq
  have hwrite := (rows_write_perm name files ⟨t.name, []⟩).length_eq
  simp only [List.length_append, List.length_nil] at herase hwrite
  omega

/-! ### Which calls lose no row -/

/-- A write that fails at `t` loses no row of the tables. -/
def WriteSafe (pre : List (CollectionTable Row)) (t : CollectionTable Row)
    (post : List (CollectionTable Row)) : WriteOutcome → Prop
  | .written => True
  | .notOpened _ => (∀ s ∈ t :: post, s.rows = []) ∧ NotOverwritten pre
  | .torn _ => (∀ s ∈ t :: post, s.rows = []) ∧ NotOverwritten (pre ++ [t])
  | .notOwned _ => (∀ s ∈ post, s.rows = []) ∧ NotOverwritten (pre ++ [t])

/-- The inputs on which a call that raises loses no row.

Where a hook raises, the hooks before it have nothing buffered. Where a write fails, the tables of
the hooks hold all that was buffered, those that are not on disk have no rows, and none with rows is
written over. -/
def OutputSafe (hooks : List (Hook Row)) (outcome : ℕ → WriteOutcome) : Prop :=
  if hooks.all Hook.poppable then
    ∀ pre t post, hooks.flatMap Hook.tables = pre ++ t :: post →
      (∀ i < pre.length, outcome i = .written) → outcome pre.length ≠ .written →
        (∀ h ∈ hooks, h.leftOut = []) ∧ WriteSafe pre t post (outcome pre.length)
  else ∀ h ∈ hooks.takeWhile Hook.poppable, h.rows = []

theorem flatMap_rows_subperm_append (ts post : List (CollectionTable Row)) :
    (ts.flatMap CollectionTable.rows).Subperm ((ts ++ post).flatMap CollectionTable.rows) := by
  rw [List.flatMap_append]
  exact (List.sublist_append_left _ _).subperm

/-- A failing write writes nothing twice. -/
theorem rows_fail_subperm (pre post : List (CollectionTable Row)) (t : CollectionTable Row)
    (o : WriteOutcome) : ((Files.writeAll name .empty pre).fail name t o).rows.Subperm
      ((pre ++ t :: post).flatMap CollectionTable.rows) := by
  have hpre := rows_writeAll_subperm name pre .empty
  have hsub := flatMap_rows_subperm_append pre (t :: post)
  cases o with
  | written => exact hpre.trans hsub
  | notOpened e => exact hpre.trans hsub
  | torn e =>
    refine List.Subperm.trans ?_ (hpre.trans hsub)
    exact (List.sublist_append_left _ _).subperm.trans (Dict.rows_erase _ _).subperm
  | notOwned e =>
    show ((Files.writeAll name .empty pre).write name t).rows.Subperm _
    rw [← writeAll_concat]
    have hcons : pre ++ t :: post = (pre ++ [t]) ++ post := (List.append_cons pre t post)
    rw [hcons]
    exact (rows_writeAll_subperm name (pre ++ [t]) .empty).trans
      (flatMap_rows_subperm_append (pre ++ [t]) post)

/-- **When a failing write loses no row of the tables.** -/
theorem length_rows_fail_iff (pre post : List (CollectionTable Row)) (t : CollectionTable Row)
    {o : WriteOutcome} (ho : o ≠ .written) :
    ((Files.writeAll name .empty pre).fail name t o).rows.length =
        ((pre ++ t :: post).flatMap CollectionTable.rows).length ↔ WriteSafe pre t post o := by
  have hlen : ((pre ++ t :: post).flatMap CollectionTable.rows).length =
      (pre.flatMap CollectionTable.rows).length + (t.rows.length +
        (post.flatMap CollectionTable.rows).length) := by
    rw [List.flatMap_append, List.flatMap_cons, List.length_append, List.length_append]
  have hle : ∀ ts : List (CollectionTable Row), (Files.writeAll name .empty ts).rows.length ≤
      (ts.flatMap CollectionTable.rows).length :=
    fun ts ↦ (rows_writeAll_subperm name ts .empty).length_le
  have hconcat : ∀ s : CollectionTable Row, ((pre ++ [s]).flatMap CollectionTable.rows).length =
      (pre.flatMap CollectionTable.rows).length + s.rows.length := by
    intro s
    rw [List.flatMap_append, List.length_append, List.flatMap_singleton]
  have hpost := length_flatMap_eq_zero CollectionTable.rows post
  have ht : t.rows.length = 0 ↔ t.rows = [] := List.length_eq_zero_iff
  rw [hlen]
  cases o with
  | written => exact absurd rfl ho
  | notOpened e =>
    have hpre := length_rows_writeAll_empty_iff name pre
    have := hle pre
    simp only [Files.fail, WriteSafe, List.forall_mem_cons]
    rw [← hpre, ← hpost, ← ht]
    omega
  | torn e =>
    -- the torn file counts as the table written with no rows
    have hpre := length_rows_writeAll_empty_iff name (pre ++ [⟨t.name, []⟩])
    have hover : NotOverwritten (pre ++ [⟨t.name, []⟩]) ↔ NotOverwritten (pre ++ [t]) := by
      rw [notOverwritten_concat, notOverwritten_concat]
    have := hle (pre ++ [⟨t.name, []⟩])
    rw [hconcat] at this hpre
    simp only [Files.fail, WriteSafe, List.forall_mem_cons]
    rw [length_rows_erase, ← writeAll_concat, ← hover, ← hpre, ← hpost, ← ht]
    simp only [List.length_nil] at this ⊢
    omega
  | notOwned e =>
    have hpre := length_rows_writeAll_empty_iff name (pre ++ [t])
    have := hle (pre ++ [t])
    rw [hconcat] at this hpre
    simp only [Files.fail, WriteSafe]
    rw [← writeAll_concat, ← hpre, ← hpost]
    omega

/-- The first table that is not written, if any. -/
theorem exists_fail_or_written (ts : List (CollectionTable Row)) (outcome : ℕ → WriteOutcome) :
    (∀ i < ts.length, outcome i = .written) ∨ ∃ pre t post, ts = pre ++ t :: post ∧
      (∀ i < pre.length, outcome i = .written) ∧ outcome pre.length ≠ .written := by
  induction ts generalizing outcome with
  | nil => exact Or.inl fun i hi ↦ absurd hi (Nat.not_lt_zero i)
  | cons t ts ih =>
    by_cases h0 : outcome 0 = .written
    · have hzero : ∀ n, (∀ i < n, outcome (i + 1) = .written) →
          ∀ i < n + 1, outcome i = .written := by
        intro n hn i hi
        cases i with
        | zero => exact h0
        | succ i => exact hn i (Nat.lt_of_succ_lt_succ hi)
      rcases ih (fun j ↦ outcome (j + 1)) with hw | ⟨pre, s, post, rfl, hpre, hs⟩
      · exact Or.inl (hzero ts.length hw)
      · exact Or.inr ⟨t :: pre, s, post, rfl, hzero pre.length hpre, hs⟩
    · exact Or.inr ⟨[], t, ts, rfl, fun i hi ↦ absurd hi (Nat.not_lt_zero i), h0⟩

variable {hooks : List (Hook Row)} (num : ℕ) (userId groupId : ℤ)

/-- A call in which the first `pre` hooks are popped and the next raises. -/
theorem noLoss_of_not_poppable (outcome : ℕ → WriteOutcome) {pre : List (Hook Row)}
    {h : Hook Row} (post : List (Hook Row)) (hpre : ∀ g ∈ pre, g.poppable = true)
    (hh : h.poppable = false) :
    let out := outputChunk (pre ++ h :: post) num userId groupId outcome
    (∃ e, out.result = .error e) ∧
      (out.NoLoss (pre ++ h :: post) ↔ ∀ g ∈ pre, g.rows = []) := by
  intro out
  obtain ⟨e, he⟩ := popAll_of_not_poppable post hpre hh []
  have hout : out = ⟨pre.map Hook.clear ++ h :: post, .empty, .error e⟩ := by
    show outputCollectionsToFile _ _ _ _ _ = _
    rw [outputCollectionsToFile, he]
  rw [hout]
  refine ⟨⟨e, rfl⟩, ?_⟩
  rw [Output.NoLoss, Dict.rows_empty, List.nil_append, List.flatMap_append, List.flatMap_append,
    flatMap_rows_clear, List.nil_append, ← length_flatMap_eq_zero]
  constructor
  · intro hloss
    have hle := hloss.length_le
    rw [List.length_append] at hle
    omega
  · intro hnil
    rw [List.length_eq_zero_iff.1 hnil, List.nil_append]

/-- A call in which all hooks are popped, `pre` is written and writing `t` fails. -/
theorem noLoss_of_fail (hhooks : ∀ h ∈ hooks, h.poppable = true)
    {pre post : List (CollectionTable Row)} {t : CollectionTable Row}
    (htables : hooks.flatMap Hook.tables = pre ++ t :: post)
    (hpre : ∀ i < pre.length, outcome i = .written) (ht : outcome pre.length ≠ .written) :
    let out := outputChunk hooks num userId groupId outcome
    (∃ e, out.result = .error e) ∧
      (out.NoLoss hooks ↔
        (∀ h ∈ hooks, h.leftOut = []) ∧ WriteSafe pre t post (outcome pre.length)) := by
  intro out
  obtain ⟨e, he⟩ := writeTables_of_fail (PyStr.ofInt num) (userId, groupId)
    t post hpre ht .empty
  have hout : out = ⟨hooks.map Hook.clear, (Files.writeAll (PyStr.ofInt num) .empty pre).fail
      (PyStr.ofInt num) t (outcome pre.length), .error e⟩ := by
    show outputCollectionsToFile _ _ _ _ _ = _
    rw [outputCollectionsToFile, popAll_of_poppable hhooks, List.nil_append, htables]
    simp only [he]
  rw [hout]
  refine ⟨⟨e, rfl⟩, ?_⟩
  have hrows := flatMap_rows_perm hooks
  rw [htables] at hrows
  have hsub := rows_fail_subperm (PyStr.ofInt num) pre post t (outcome pre.length)
  rw [Output.NoLoss, flatMap_rows_clear, List.append_nil,
    ← length_rows_fail_iff (PyStr.ofInt num) pre post t ht,
    ← length_flatMap_eq_zero Hook.leftOut]
  show (hooks.flatMap Hook.rows).Subperm ((Files.writeAll (PyStr.ofInt num) .empty pre).fail
      (PyStr.ofInt num) t (outcome pre.length)).rows ↔ _
  constructor
  · intro hloss
    have hle := hloss.length_le
    have hle' := hsub.length_le
    have heq := hrows.length_eq
    rw [List.length_append] at heq
    omega
  · rintro ⟨hleft, hlen⟩
    rw [List.length_eq_zero_iff.1 hleft, List.append_nil] at hrows
    exact hrows.subperm.trans (hsub.perm_of_length_le hlen.ge).symm.subperm

/-- **A call that raises loses no row if and only if** nothing was buffered before the hook that
raised, or everything popped was on disk before the write that failed. -/
theorem outputChunk_noLoss_iff (hooks : List (Hook Row)) (num : ℕ) (userId groupId : ℤ)
    (outcome : ℕ → WriteOutcome) :
    ((∃ e, (outputChunk hooks num userId groupId outcome).result = .error e) →
      (outputChunk hooks num userId groupId outcome).NoLoss hooks) ↔
    OutputSafe hooks outcome := by
  rcases hall : hooks.all Hook.poppable with - | -
  · rw [OutputSafe, hall, if_neg Bool.false_ne_true]
    have hsplit := List.takeWhile_append_dropWhile (p := Hook.poppable) (l := hooks)
    rcases hdrop : hooks.dropWhile Hook.poppable with - | ⟨h, post⟩
    · rw [hdrop, List.append_nil] at hsplit
      refine absurd hall (Bool.not_eq_false _ ▸ List.all_eq_true.2 fun g hg ↦ ?_)
      rw [← hsplit] at hg
      exact List.mem_takeWhile_imp hg
    · have hh : h.poppable = false := by
        have := List.head_dropWhile_not Hook.poppable (l := hooks) (by rw [hdrop]; simp)
        simpa [hdrop] using this
      rw [hdrop] at hsplit
      have key := noLoss_of_not_poppable num userId groupId outcome post
        (fun g (hg : g ∈ hooks.takeWhile Hook.poppable) ↦ List.mem_takeWhile_imp hg) hh
      rw [hsplit] at key
      exact ⟨fun hloss ↦ key.2.1 (hloss key.1), fun hsafe _ ↦ key.2.2 hsafe⟩
  · rw [OutputSafe, hall, if_pos rfl]
    have hpop := List.all_eq_true.1 hall
    constructor
    · intro hloss pre t post htables hpre ht
      obtain ⟨hraised, hiff⟩ := noLoss_of_fail num userId groupId hpop htables hpre ht
      exact hiff.1 (hloss hraised)
    · rintro hsafe ⟨e, he⟩
      rcases exists_fail_or_written (hooks.flatMap Hook.tables) outcome with
        hw | ⟨pre, t, post, htables, hpre, ht⟩
      · rw [outputChunk, outputCollectionsToFile, popAll_of_poppable hpop, List.nil_append] at he
        simp only [writeTables_of_written _ _ hw] at he
        exact absurd he (by simp)
      · exact (noLoss_of_fail num userId groupId hpop htables hpre ht).2.2
          (hsafe pre t post htables hpre ht)

/-- A hook with one sample, and QuantaRuntime before any event. -/
def drainedHooks : List (Hook ℕ) :=
  [⟨[.plain "proc_maps".toList [0]], .leaveOut, none⟩,
    ⟨[.plain "quanta_runtime".toList [], .plain "quanta_queued".toList []], .raise, none⟩]

/-- QuantaRuntime's `data()` raises on its empty buffers after the first hook was drained: its row
is in no file and in no buffer. -/
theorem outputChunk_drainedHooks_lost :
    let out := outputChunk drainedHooks 0 1000 1000 fun _ ↦ .written
    out.result = .error Hook.columnNotFound ∧ ¬ out.NoLoss drainedHooks := by
  refine ⟨rfl, fun hloss ↦ ?_⟩
  exact absurd hloss.length_le (by decide)

end Collect
