import HugePageResearch.Library.Lists
import HugePageResearch.Schema.FromData

/-!
# Whose rows a collection holds

The mark of a row is the collection that wrote it. A run directory of the current layout belongs to
one collection, so loading one run mixes nothing, and several matching runs are an error. In the
older layout the files of all collections lie side by side, and a prefix takes every file it
matches: `fromData_oneOrigin_iff` says when the result is nevertheless the work of one collection.
-/

namespace Schema

open Lists Polars

variable {τ : Type*}

/-- A data directory in which every run directory was written by one collection. -/
structure OwnedDir (τ : Type*) extends DataDir τ where
  /-- The owner of a run directory. -/
  owner : ∀ d ∈ dirs.items, ∀ r ∈ d.2.runDirs.items, ∃ m, ∀ e ∈ r.2.items, ∀ row ∈ e.2.rows,
    row.mark = m

/-- All rows of the collection were written by one and the same collection. -/
def OneOrigin (data : CollectionData τ) : Prop :=
  ∃ m, ∀ n f, data.tables.get? n = some f → ∀ row ∈ f.rows, row.mark = m

/-- `e` is a file of the known table `n` in the older layout that the prefix matches. -/
def LegacyMatch (dataDir : DataDir τ) (collectionId : PyStr) (tys : List (TableType τ))
    (n : PyStr) (e : PyStr × Frame τ) : Prop :=
  n ∈ tys.map TableType.name ∧ ∃ d, (n, d) ∈ dataDir.dirs.items ∧ e ∈ d.files.items ∧
    isLegacyFile collectionId e.1 = true

/-- The older layout loads: the files of `system_info` that match hold one row in all, and the
casts accept the files of their tables that match. -/
structure LegacyLoads (dataDir : DataDir τ) (collectionId : PyStr) (tys : List (TableType τ)) :
    Prop where
  known : systemInfoName ∈ tys.map TableType.name
  systemInfo : ∃ d, (systemInfoName, d) ∈ dataDir.dirs.items ∧
    ((legacyFiles collectionId d).flatMap fun e ↦ e.2.rows).length = 1
  accepts : ∀ n ty d e rest, (typeMap tys).get? n = some ty → (n, d) ∈ dataDir.dirs.items →
    legacyFiles collectionId d = e :: rest →
      ty.Accepts (ensureCollectionId (e.2.concat (rest.map Prod.snd)) collectionId)

/-- The inputs on which the result is never mixed. -/
def Unmixed (dataDir : DataDir τ) (collectionId : PyStr) (tys : List (TableType τ)) : Prop :=
  matchingRuns dataDir collectionId ≠ [] ∨ ¬ LegacyLoads dataDir collectionId tys ∨
    ∃ m, ∀ n e, LegacyMatch dataDir collectionId tys n e → ∀ row ∈ e.2.rows, row.mark = m

/-! ### Where the rows of a table come from -/

variable {dataDir : DataDir τ} {collectionId rid n : PyStr} {tys : List (TableType τ)}

/-- **Loading a table changes no mark.** -/
theorem marks_loadTable {types : Dict PyStr (TableType τ)} {fs : List (Frame τ)} {f : Frame τ}
    (h : loadTable types rid n fs = .ok f) :
    f.rows.map Row.mark = (fs.flatMap Frame.rows).map Row.mark := by
  obtain ⟨-, ty, k, -, -, hrows, -⟩ := loadTable_ok h
  rw [hrows, List.map_map, rowsWithId]
  split_ifs
  · rfl
  · rw [List.map_map]
    rfl

theorem forall_mark_loadTable {types : Dict PyStr (TableType τ)} {fs : List (Frame τ)}
    {f : Frame τ} (h : loadTable types rid n fs = .ok f) (m : τ) :
    (∀ row ∈ f.rows, row.mark = m) ↔ ∀ g ∈ fs, ∀ row ∈ g.rows, row.mark = m := by
  have hall : ∀ l : List (Row τ), (∀ row ∈ l, row.mark = m) ↔ ∀ m' ∈ l.map Row.mark, m' = m := by
    intro l
    rw [List.forall_mem_map]
  rw [hall, marks_loadTable h, ← hall]
  constructor
  · exact fun h g hg row hrow ↦ h row (List.mem_flatMap.2 ⟨g, hg, hrow⟩)
  · intro h row hrow
    obtain ⟨g, hg, hrow⟩ := List.mem_flatMap.1 hrow
    exact h g hg row hrow

/-- The tables come from the groups and from nowhere else. -/
theorem exists_group {types : Dict PyStr (TableType τ)} {groups : List (PyStr × List (Frame τ))}
    {tables : Dict PyStr (Frame τ)} (hnd : (groups.map Prod.fst).Nodup)
    (h : loadTables types rid groups .empty = .ok tables) {f : Frame τ}
    (hf : tables.get? n = some f) : ∃ fs, (n, fs) ∈ groups ∧ loadTable types rid n fs = .ok f := by
  obtain ⟨hin, hout⟩ := loadTables_ok hnd h
  by_cases hn : n ∈ groups.map Prod.fst
  · obtain ⟨g, hg, rfl⟩ := List.mem_map.1 hn
    obtain ⟨f', hload, hget⟩ := hin g hg
    rw [hget] at hf
    obtain rfl := Option.some.inj hf
    exact ⟨g.2, hg, hload⟩
  · rw [hout n hn] at hf
    cases hf

/-- The frames of a group are files that were sorted. -/
theorem mem_of_mem_groupFiles {types : Dict PyStr (TableType τ)} {files : List (PyStr × Frame τ)}
    {fs : List (Frame τ)} (h : (n, fs) ∈ (groupFiles types files).items) {g : Frame τ}
    (hg : g ∈ fs) : ∃ e ∈ files, e.2 = g := by
  have hget := Dict.get?_eq_some.2 h
  rw [groupFiles_get?] at hget
  split_ifs at hget
  obtain rfl := Option.some.inj hget
  obtain ⟨e, he, rfl⟩ := List.mem_map.1 hg
  exact ⟨e, List.mem_of_mem_filter he, rfl⟩

/-! ### The older layout -/

theorem mem_legacyGroups {types : Dict PyStr (TableType τ)} {g : PyStr × List (Frame τ)} :
    g ∈ legacyGroups types dataDir collectionId ↔ ∃ d, (g.1, d) ∈ dataDir.dirs.items ∧
      g.1 ∈ types.keys ∧ g.2 = (legacyFiles collectionId d).map Prod.snd ∧ g.2 ≠ [] := by
  rw [legacyGroups, List.mem_filter, decide_eq_true_iff, List.mem_map]
  constructor
  · rintro ⟨⟨e, he, rfl⟩, hne⟩
    obtain ⟨hmem, hkey⟩ := List.mem_filter.1 he
    exact ⟨e.2, hmem, of_decide_eq_true hkey, rfl, hne⟩
  · rintro ⟨d, hmem, hkey, hfs, hne⟩
    refine ⟨⟨(g.1, d), List.mem_filter.2 ⟨hmem, decide_eq_true hkey⟩, ?_⟩, hne⟩
    exact Prod.ext rfl hfs.symm

theorem nodup_legacyGroups (types : Dict PyStr (TableType τ)) (dataDir : DataDir τ)
    (collectionId : PyStr) :
    ((legacyGroups types dataDir collectionId).map Prod.fst).Nodup := by
  refine List.Nodup.sublist (List.filter_sublist.map Prod.fst) ?_
  rw [List.map_map]
  exact dataDir.dirs.nodupKeys.sublist (List.filter_sublist.map Prod.fst)

theorem mem_legacyFiles {d : SubDir τ} {e : PyStr × Frame τ} :
    e ∈ legacyFiles collectionId d ↔ e ∈ d.files.items ∧ isLegacyFile collectionId e.1 = true := by
  rw [legacyFiles, List.mem_insertionSort, List.mem_filter]

/-- The files of the groups are the matching files. -/
theorem forall_legacyMatch {P : Frame τ → Prop} :
    (∀ n e, LegacyMatch dataDir collectionId tys n e → P e.2) ↔
      ∀ g ∈ legacyGroups (typeMap tys) dataDir collectionId, ∀ f ∈ g.2, P f := by
  constructor
  · intro h g hg f hf
    obtain ⟨d, hmem, hkey, hfs, -⟩ := mem_legacyGroups.1 hg
    rw [hfs] at hf
    obtain ⟨e, he, rfl⟩ := List.mem_map.1 hf
    obtain ⟨hfile, hmatch⟩ := mem_legacyFiles.1 he
    exact h g.1 e ⟨mem_keys_typeMap.1 hkey, d, hmem, hfile, hmatch⟩
  · rintro h n e ⟨hn, d, hmem, hfile, hmatch⟩
    have he : e.2 ∈ (legacyFiles collectionId d).map Prod.snd :=
      List.mem_map_of_mem (mem_legacyFiles.2 ⟨hfile, hmatch⟩)
    exact h (n, (legacyFiles collectionId d).map Prod.snd)
      (mem_legacyGroups.2 ⟨d, hmem, mem_keys_typeMap.2 hn, rfl, List.ne_nil_of_mem he⟩) e.2 he

/-- **When the older layout loads.** -/
theorem exists_legacy_iff :
    (∃ data, (loadTables (typeMap tys) collectionId
      (legacyGroups (typeMap tys) dataDir collectionId) .empty).bind CollectionData.init =
        .ok data) ↔
    LegacyLoads dataDir collectionId tys := by
  have hnd := nodup_legacyGroups (typeMap tys) dataDir collectionId
  constructor
  · rintro ⟨data, hdata⟩
    have hload := bind_init_ok hdata
    have hlen := data.length_systemInfo
    obtain ⟨fs, hgroup, hfs⟩ := exists_group hnd hload data.get_systemInfo
    obtain ⟨d, hmem, hkey, rfl, -⟩ := mem_legacyGroups.1 hgroup
    refine ⟨mem_keys_typeMap.1 hkey, ⟨d, hmem, ?_⟩, fun n ty d' e rest hty hmem' hfiles ↦ ?_⟩
    · rw [length_rows_loadTable hfs, List.flatMap_map] at hlen
      exact hlen
    · have hkey' : n ∈ (typeMap tys).keys :=
        List.mem_map_of_mem (f := Prod.fst) (Dict.get?_eq_some.1 hty)
      obtain ⟨g, hg, -⟩ := (loadTables_ok hnd hload).1
        (n, (legacyFiles collectionId d').map Prod.snd) (mem_legacyGroups.2
          ⟨d', hmem', hkey', rfl, by rw [hfiles]; exact List.cons_ne_nil _ _⟩)
      rw [hfiles, List.map_cons] at hg
      exact ((exists_loadTable_iff hty _ _).1 ⟨g, hg⟩).1
  · rintro ⟨hn, ⟨d, hmem, hlen⟩, haccepts⟩
    have hload : ∀ g ∈ legacyGroups (typeMap tys) dataDir collectionId,
        ∃ f, loadTable (typeMap tys) collectionId g.1 g.2 = .ok f := by
      intro g hg
      obtain ⟨d', hmem', hkey, hfs, hne⟩ := mem_legacyGroups.1 hg
      obtain ⟨ty, -, -, hget⟩ := typeMap_get? (mem_keys_typeMap.1 hkey)
      rcases hfiles : legacyFiles collectionId d' with - | ⟨e, rest⟩
      · rw [hfs, hfiles] at hne
        exact absurd rfl hne
      rw [hfs, hfiles, List.map_cons]
      refine (exists_loadTable_iff hget _ _).2
        ⟨haccepts g.1 ty d' e rest hget hmem' hfiles, fun hname ↦ ?_⟩
      rw [hname] at hmem'
      obtain ⟨-, rfl⟩ := Prod.mk.inj
        (List.inj_on_of_nodup_map dataDir.dirs.nodupKeys hmem' hmem rfl)
      rw [← List.map_cons (f := Prod.snd), ← hfiles, List.flatMap_map]
      exact hlen
    obtain ⟨tables, htables⟩ := exists_loadTables hload .empty
    rw [htables]
    refine exists_init_iff.2 ?_
    have hne : (legacyFiles collectionId d).map Prod.snd ≠ [] := fun hnil ↦ by
      rw [List.map_eq_nil_iff.1 hnil] at hlen
      cases hlen
    obtain ⟨f, hf, hget⟩ := (loadTables_ok hnd htables).1
      (systemInfoName, (legacyFiles collectionId d).map Prod.snd)
      (mem_legacyGroups.2 ⟨d, hmem, mem_keys_typeMap.2 hn, rfl, hne⟩)
    exact ⟨f, hget, length_systemInfo_of_loadTable hf⟩

/-! ### The result -/

section Loading

variable [Python]

/-- The rows of a run directory keep its owner. -/
theorem marks_loadRunDir {run : RunDir τ} {runName : PyStr} {tables : Dict PyStr (Frame τ)}
    {types : Dict PyStr (TableType τ)} (h : loadRunDir types runName run = .ok tables) {m : τ}
    (hm : ∀ e ∈ run.items, ∀ row ∈ e.2.rows, row.mark = m) {f : Frame τ}
    (hf : tables.get? n = some f) : ∀ row ∈ f.rows, row.mark = m := by
  obtain ⟨files, hsort, h⟩ := exists_of_bind_eq_ok h
  obtain ⟨fs, hgroup, hload⟩ := exists_group (groupFiles types files).nodupKeys h hf
  refine (forall_mark_loadTable hload m).2 fun g hg ↦ ?_
  obtain ⟨e, he, rfl⟩ := mem_of_mem_groupFiles hgroup hg
  exact hm e (List.mem_of_mem_filter ((sortChunks_ok hsort).1.mem_iff.1 he))

/-- **One matching run is never mixed.** -/
theorem oneOrigin_of_matchingRuns (dataDir : OwnedDir τ)
    (h : matchingRuns dataDir.toDataDir collectionId ≠ []) {data : CollectionData τ}
    (hdata : fromData dataDir.toDataDir collectionId tys = .ok data) : OneOrigin data := by
  rcases hruns : matchingRuns dataDir.toDataDir collectionId with - | ⟨⟨bench, runName, run⟩, rest⟩
  · exact absurd hruns h
  cases rest with
  | cons r rs =>
    rw [fromData, hruns] at hdata
    cases hdata
  | nil =>
    rw [fromData, hruns] at hdata
    have hmem : (bench, runName, run) ∈ matchingRuns dataDir.toDataDir collectionId := by
      rw [hruns]
      exact List.mem_cons_self
    obtain ⟨d, hd, hr⟩ := List.mem_flatMap.1 hmem
    obtain ⟨r, hr, heq⟩ := List.mem_map.1 hr
    obtain ⟨m, hm⟩ := dataDir.owner d hd r (List.mem_of_mem_filter hr)
    obtain ⟨-, heq⟩ := Prod.mk.inj heq
    obtain ⟨-, rfl⟩ := Prod.mk.inj heq
    exact ⟨m, fun n f hf ↦ marks_loadRunDir (bind_init_ok hdata) hm hf⟩

omit [Python] in
/-- **In the older layout** the result is not mixed exactly if the matching files are not. -/
theorem oneOrigin_legacy_iff {data : CollectionData τ}
    (hdata : (loadTables (typeMap tys) collectionId
      (legacyGroups (typeMap tys) dataDir collectionId) .empty).bind CollectionData.init =
        .ok data) :
    OneOrigin data ↔
      ∃ m, ∀ n e, LegacyMatch dataDir collectionId tys n e → ∀ row ∈ e.2.rows, row.mark = m := by
  have hnd := nodup_legacyGroups (typeMap tys) dataDir collectionId
  have hload := bind_init_ok hdata
  refine exists_congr fun m ↦ ?_
  rw [forall_legacyMatch (P := fun f ↦ ∀ row ∈ f.rows, row.mark = m)]
  constructor
  · intro h g hg
    obtain ⟨f, hf, hget⟩ := (loadTables_ok hnd hload).1 g hg
    exact (forall_mark_loadTable hf m).1 (h g.1 f hget)
  · intro h n f hf
    obtain ⟨fs, hgroup, hfs⟩ := exists_group hnd hload hf
    exact (forall_mark_loadTable hfs m).2 (h _ hgroup)

/-- **`from_data` never mixes collections if and only if** a run directory matches, or the older
layout does not load, or all files that the prefix matches in it are the work of one collection. -/
theorem fromData_oneOrigin_iff (dataDir : OwnedDir τ) (collectionId : PyStr)
    (tys : List (TableType τ)) :
    (∀ data, fromData dataDir.toDataDir collectionId tys = .ok data → OneOrigin data) ↔
      Unmixed dataDir.toDataDir collectionId tys := by
  by_cases hruns : matchingRuns dataDir.toDataDir collectionId = []
  · have hfrom : fromData dataDir.toDataDir collectionId tys =
        (loadTables (typeMap tys) collectionId
          (legacyGroups (typeMap tys) dataDir.toDataDir collectionId) .empty).bind
            CollectionData.init := by
      rw [fromData, hruns]
    rw [hfrom, Unmixed, or_iff_right (not_not.2 hruns)]
    constructor
    · intro h
      by_cases hloads : LegacyLoads dataDir.toDataDir collectionId tys
      · obtain ⟨data, hdata⟩ := exists_legacy_iff.2 hloads
        exact Or.inr ((oneOrigin_legacy_iff hdata).1 (h data hdata))
      · exact Or.inl hloads
    · rintro (hrefused | hone) data hdata
      · exact absurd (exists_legacy_iff.1 ⟨data, hdata⟩) hrefused
      · exact (oneOrigin_legacy_iff hdata).2 hone
  · exact ⟨fun _ ↦ Or.inl hruns, fun _ _ hdata ↦ oneOrigin_of_matchingRuns dataDir hruns hdata⟩

end Loading

/-! ### Examples -/

/-- A frame with one row of the given collection. -/
def rowOf (m : ℕ) : Frame ℕ := .nullRow "pid".toList m

/-- The older layout with the system information of collection `1` and the maps of `1` and `2`. -/
def legacyDir : OwnedDir ℕ where
  path := "data".toList
  dirs :=
    ⟨[("system_info".toList, ⟨.empty, ⟨[("abc1.parquet".toList, rowOf 1)], by decide⟩⟩),
      ("proc_maps".toList, ⟨.empty,
        ⟨[("abc1.parquet".toList, rowOf 1), ("abc2.parquet".toList, rowOf 2)], by decide⟩⟩)],
      by decide⟩
  owner d hd r hr := by
    simp only [List.mem_cons, List.not_mem_nil, or_false] at hd
    rcases hd with rfl | rfl
    · cases hr
    · cases hr

/-- The prefix `abc` yields one table with rows of both collections, and no error. -/
theorem fromData_legacyDir_mixed :
    ∃ data, @fromData ℕ Python.ascii legacyDir.toDataDir "abc".toList
        [.systemInfo, .other "proc_maps".toList (by decide) fun _ ↦ .ok .same] = .ok data ∧
      ¬ OneOrigin data := by
  refine ⟨_, rfl, ?_⟩
  rintro ⟨m, hm⟩
  have h1 := hm "proc_maps".toList _ rfl ⟨_, 1⟩ List.mem_cons_self
  have h2 := hm "proc_maps".toList _ rfl ⟨_, 2⟩ (List.mem_cons_of_mem _ List.mem_cons_self)
  exact absurd (h1.trans h2.symm) (by decide)

end Schema
