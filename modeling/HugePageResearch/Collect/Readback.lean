import HugePageResearch.Collect.Delivery
import HugePageResearch.Library.Lists
import HugePageResearch.Schema.RunLayout

/-!
# From the buffers of the hooks to the loaded tables

`run_collect` writes a collection and `CollectionData.from_data` reads it. The chunks of a finished
run of the three threads are put into a run directory, table by table, under the names that
`output_collections_to_file` gives them; the directory is listed in any order and loaded. No pop and
no write raises here, and a table is made of its samples, one row each: these are the tables of
`proc_maps`, `proc_smaps`, `vaptr`, `vmstat` and of the intervention hook, not those that are
joined, filtered or made unique (`Collect.Output` has these).

`fromData_of_collect` connects the two ends. The numbers of the chunks are the order in which they
were written, and `_chunk_sort_key` compares them as numbers, so that loading puts the rows back in
the order in which they were polled. A chunk that the output thread writes after `end` would come
out of order, but it is empty: the main thread left no row in the buffers.
-/

namespace Collect

open Lists Schema Polars

/-! ### The order of the chunks -/

section Order

variable {Row : Type*} {hooks : ℕ} {s s' t : State Row} {l : Label Row} {ls : List (Label Row)}

/-- Numbered chunks by their number, `end` last. -/
def ChunkName.lt : ChunkName → ChunkName → Prop
  | .number m, .number n => m < n
  | .number _, .last => True
  | .last, _ => False

/-- **The order of writing is the order of the names**: a chunk is written after those before it,
and what is written after `end` has no rows. -/
def Ordered (hooks : ℕ) (files : List (ChunkName × Rows Row)) : Prop :=
  files.Pairwise fun e e' ↦ e.1.lt e'.1 ∨ e.1 = .last ∧ ∀ k < hooks, e'.2 k = []

theorem Ordered.concat {files : List (ChunkName × Rows Row)} (h : Ordered hooks files)
    {c : ChunkName} {tables : Rows Row}
    (hc : ∀ e ∈ files, e.1.lt c ∨ e.1 = .last ∧ ∀ k < hooks, tables k = []) :
    Ordered hooks (files ++ [(c, tables)]) := by
  refine List.pairwise_append.2 ⟨h, List.pairwise_singleton _ _, fun e he e' he' ↦ ?_⟩
  rw [List.mem_singleton.1 he']
  exact hc e he

theorem mem_keys_files {e : ChunkName × Rows Row} (he : e ∈ s.files.items) : e.1 ∈ s.files.keys :=
  List.mem_map_of_mem he

/-- The output thread numbers its chunks upwards. -/
theorem Ordered.outputStep (hs : Inv hooks s) (hord : Ordered hooks s.files.items)
    (h : OutputStep hooks s s') : Ordered hooks s'.files.items := by
  cases h with
  | write p h hp hk =>
    show Ordered hooks (s.writeChunk hooks p.tables).items
    have hrel : s.output ≠ .releasing := fun hrel ↦ by rw [h] at hrel; cases hrel
    rw [State.writeChunk]
    split_ifs with hhooks
    · exact hord
    have hnew : .number s.num ∉ s.files.keys := fun hn ↦ Nat.lt_irrefl _ (hs.number_lt hrel hn)
    rw [Dict.items_set_of_not_mem p.tables hnew]
    refine hord.concat fun e he ↦ ?_
    cases hc : e.1 with
    | number n => exact .inl (hs.number_lt hrel (hc ▸ mem_keys_files he))
    | last =>
      refine .inr ⟨rfl, fun k hk' ↦ ?_⟩
      have hpend := (hs.empty (hs.last (hc ▸ mem_keys_files he)) k hk').2
      rwa [h] at hpend
  | _ => exact hord

/-- The main thread writes `end` once, after numbered chunks only. -/
theorem Ordered.mainStep (hs : Inv hooks s) (hord : Ordered hooks s.files.items)
    (h : MainStep hooks s s') : Ordered hooks s'.files.items := by
  cases h with
  | write p h hp hk =>
    show Ordered hooks (s.files.set .last p.tables).items
    have hnew : ChunkName.last ∉ s.files.keys := hs.last_not_mem (by rw [h]; rfl)
    rw [Dict.items_set_of_not_mem p.tables hnew]
    refine hord.concat fun e he ↦ .inl ?_
    cases hc : e.1 with
    | number n => trivial
    | last => exact absurd (hc ▸ mem_keys_files he) hnew
  | _ => exact hord

/-- **Every run writes its chunks in order.** -/
theorem ordered_of_exec (h : Run.exec (step hooks) .init ls = some t) :
    Ordered hooks t.files.items := by
  refine (Run.exec_invariant (I := fun s : State Row ↦
    Inv hooks s ∧ Ordered hooks s.files.items) ?_ ⟨inv_init, List.Pairwise.nil⟩ h).2
  rintro s l s' ⟨hs, hord⟩ hstep
  refine ⟨hs.step hstep, ?_⟩
  cases step_iff.1 hstep with
  | append k r hpoll hk => exact hord
  | pollEnd hpoll => exact hord
  | signal => exact hord
  | output h => exact hord.outputStep hs h
  | main h => exact hord.mainStep hs h

/-- The main thread does not get past writing without the chunk `end`. -/
theorem last_mem_of_exec (h : Run.exec (step hooks) .init ls = some t)
    (hafter : t.main.after = true) : .last ∈ t.files.keys := by
  have hinit : (State.init : State Row).main.after = true →
      .last ∈ (State.init : State Row).files.keys := fun h ↦ absurd h Bool.false_ne_true
  refine Run.exec_invariant (I := fun s : State Row ↦ s.main.after = true → .last ∈ s.files.keys)
    ?_ hinit h hafter
  rintro s l s' hlast hstep
  cases step_iff.1 hstep with
  | append k r hpoll hk => exact hlast
  | pollEnd hpoll => exact hlast
  | signal => exact hlast
  | output h =>
    cases h with
    | write p h hp hk =>
      intro hafter
      show ChunkName.last ∈ (s.writeChunk hooks p.tables).keys
      rw [State.writeChunk]
      split_ifs
      · exact hlast hafter
      · exact (Dict.mem_keys_set _ _ _ _).2 (.inl (hlast hafter))
    | _ => exact hlast
  | main h =>
    cases h with
    | write p h hp hk => exact fun _ ↦ (Dict.mem_keys_set _ _ _ _).2 (.inr rfl)
    | release h => exact fun _ ↦ hlast (by rw [h]; rfl)
    | _ => exact fun hafter ↦ absurd hafter Bool.false_ne_true

/-! ### What is kept, in order -/

/-- **No run invents or reorders rows**: what is kept is a part of what was appended, in order. -/
theorem kept_sublist (h : Run.exec (step hooks) .init ls = some t) {k : ℕ} (hk : k < hooks) :
    (kept t k).Sublist (t.appended k) := by
  refine (Run.exec_invariant (I := fun s : State Row ↦
    Inv hooks s ∧ (kept s k).Sublist (s.appended k)) ?_ ⟨inv_init, List.Sublist.refl _⟩ h).2
  rintro s l s' ⟨hs, hsub⟩ hstep
  refine ⟨hs.step hstep, ?_⟩
  rw [appended_step hstep k]
  by_cases hrace : NoRace s l
  · rw [kept_step hs hstep hrace hk]
    exact hsub.append_right _
  · cases l with
    | append k' r =>
      by_cases hk' : k' = k
      · subst hk'
        rw [kept_step_of_race hstep (Bool.ne_false_iff.1 hrace)]
        exact hsub.trans (List.sublist_append_left _ _)
      · -- the race is one of another hook
        have hsame : kept s' k = kept s k := by
          cases step_iff.1 hstep
          show fileRows s k ++ (Pop.pending s.output.pop? k ++ (Pop.pending s.main.pop? k ++
            live (popGap s k) (Function.update s.buffers k' (s.buffers k' ++ [r]) k))) = _
          rw [Function.update_of_ne (Ne.symm hk')]
          rfl
        rw [hsame]
        exact hsub.trans (List.sublist_append_left _ _)
    | _ => exact absurd trivial hrace

/-- A run that has kept as many rows as were appended had no race. -/
theorem noRace_of_kept (h : Run.exec (step hooks) .init ls = some t)
    (hkept : ∀ k < hooks, kept t k = t.appended k) : Run.Always (step hooks) NoRace .init ls := by
  by_contra hrace
  obtain ⟨pre, l, post, s₁, s₂, -, hpre, hl, hstep, hpost, -⟩ :=
    Run.exists_step_of_not_always h hrace
  cases l with
  | append k r =>
    have hk : k < hooks := by
      cases step_iff.1 hstep
      assumption
    have hgap : popGap s₁ k = true := Bool.ne_false_iff.1 hl
    have hlost : (kept s₂ k).length < (s₂.appended k).length := by
      have hle := length_kept_le hpre hk
      rw [kept_step_of_race hstep hgap, appended_step hstep k, newRows, if_pos rfl,
        List.length_append, List.length_singleton]
      omega
    have hfinal := length_kept_lt ((inv_of_exec hpre).step hstep) hk hlost hpost
    rw [hkept k hk] at hfinal
    exact absurd hfinal (Nat.lt_irrefl _)
  | _ => exact hl trivial

end Order

/-! ### The run directory -/

section Files

variable {τ : Type*} {hooks : ℕ}

/-- What the poll of a hook appends: the table it is for, its cells, and a mark. -/
structure Sample (τ : Type*) where
  /-- The table. -/
  table : PyStr
  /-- The cells. -/
  cells : PyStr → Value
  /-- What is known about the sample besides its cells. -/
  mark : τ

/-- A table of a hook that makes a row of each sample and no table without samples
(`if not self.samples: return []`). -/
structure HookTable where
  /-- `name()`. -/
  name : PyStr
  /-- The columns of the samples. -/
  columns : List PyStr
  dot_not_mem : '.' ∉ name
  name_ne : name ≠ systemInfoName
  nodup : columns.Nodup
  /-- `from_df_id` adds the column. -/
  collectionId_not_mem : collectionIdColumn ∉ columns

/-- The tables of the hooks; no two share a name. -/
structure HookTables (hooks : ℕ) where
  /-- The tables of each hook. -/
  tables : ℕ → List HookTable
  nodup : (((List.range hooks).flatMap tables).map HookTable.name).Nodup

/-- The table `system_info` of a run: one row, with its `collection_id`. -/
structure InfoFrame (τ : Type*) extends Frame τ where
  length_rows : rows.length = 1
  collectionId_mem : collectionIdColumn ∈ columns

/-- `str(num)` or `"end"`, as the middle part of a file name. -/
def ChunkName.chunk : ChunkName → Chunk
  | .number num => .number (PyStr.zeroFilled 10 0 num) (PyStr.zeroFilled_ne_nil 0 num)
      fun _ hc ↦ Nat.isDigit_of_mem_toDigits (by decide) (by decide) hc
  | .last => .last

namespace HookTable

variable (T : HookTable) (collectionId : PyStr)

/-- The row of a sample, with the id that `from_df_id` adds. -/
def row (s : Sample τ) : Polars.Row τ where
  cells c :=
    if c = collectionIdColumn then .str collectionId
    else if c ∈ T.columns then s.cells c else .null
  mark := s.mark

/-- `from_df_id(pl.DataFrame(samples), collection_id)`. -/
def frame (samples : List (Sample τ)) : Frame τ where
  columns := T.columns ++ [collectionIdColumn]
  rows := samples.map (T.row collectionId)
  columns_ne := List.append_ne_nil_of_right_ne_nil _ (List.cons_ne_nil _ _)
  nodup := by
    rw [← List.concat_eq_append]
    exact T.nodup.concat T.collectionId_not_mem
  null r hr c hc := by
    obtain ⟨s, -, rfl⟩ := List.mem_map.1 hr
    rw [List.mem_append, List.mem_singleton, not_or] at hc
    show (if c = _ then _ else if c ∈ T.columns then _ else _) = _
    rw [if_neg hc.2, if_neg hc.1]

/-- The samples for this table. -/
def samples (rows : List (Sample τ)) : List (Sample τ) :=
  rows.filter fun s ↦ s.table = T.name

/-- The file of this table in a chunk. -/
def files (c : ChunkName) (rows : List (Sample τ)) : List (PyStr × Frame τ) :=
  if (T.samples rows).isEmpty then []
  else [(chunkFile T.name c.chunk.text, T.frame collectionId (T.samples rows))]

/-- The rows that this table should have. -/
def expected (rows : List (Sample τ)) : List (Polars.Row τ) :=
  (T.samples rows).map (T.row collectionId)

end HookTable

namespace HookTables

variable (H : HookTables hooks) (collectionId : PyStr) (info : InfoFrame τ)

/-- `output_collections_to_file` of a chunk: `collection_tables` starts with the system information
in the chunk `end`, and is extended by the tables of every hook. -/
def chunkFiles (e : ChunkName × Rows (Sample τ)) : List (PyStr × Frame τ) :=
  (if e.1 = .last then [(chunkFile systemInfoName e.1.chunk.text, info.toFrame)] else []) ++
    (List.range hooks).flatMap fun k ↦
      (H.tables k).flatMap fun T ↦ T.files collectionId e.1 (e.2 k)

/-- The files of the run directory, in the order of writing. -/
def runFiles (s : State (Sample τ)) : List (PyStr × Frame τ) :=
  s.files.items.flatMap (H.chunkFiles collectionId info)

end HookTables

/-! ### Names -/

theorem ChunkName.decimalValue_text (num : ℕ) :
    PyStr.decimalValue 0 (PyStr.zeroFilled 10 0 num) = num := by
  show PyStr.decimalValue 0 (Nat.toDigits 10 num) = num
  rw [← PyStr.digitsValue_of_isDigit fun _ hc ↦
    Nat.isDigit_of_mem_toDigits (by decide) (by decide) hc]
  exact (PyStr.toDigits_spec (by decide) (by decide) num).2

/-- **Numbers are compared as numbers**, not as texts. -/
theorem ChunkName.le_of_lt {c c' : ChunkName} (h : c.lt c') : c.chunk.le c'.chunk := by
  cases c with
  | number m =>
    cases c' with
    | number n =>
      show PyStr.decimalValue 0 _ ≤ PyStr.decimalValue 0 _
      rw [decimalValue_text, decimalValue_text]
      exact Nat.le_of_lt h
    | last => trivial
  | last => exact h.elim

theorem ChunkName.eq_of_le {c c' : ChunkName} (h : c.chunk.le c'.chunk)
    (h' : c'.chunk.le c.chunk) : c = c' := by
  cases c with
  | number m =>
    cases c' with
    | number n =>
      change PyStr.decimalValue 0 _ ≤ PyStr.decimalValue 0 _ at h h'
      rw [decimalValue_text, decimalValue_text] at h h'
      rw [Nat.le_antisymm h h']
    | last => exact h'.elim
  | last =>
    cases c' with
    | number n => exact h.elim
    | last => rfl

/-- A number is not `end`. -/
theorem ChunkName.text_number_ne (num : ℕ) : (number num).chunk.text ≠ last.chunk.text := by
  intro h
  have he : 'e' ∈ Nat.toDigits 10 num := by
    show 'e' ∈ (number num).chunk.text
    rw [h]
    exact List.mem_cons_self
  exact absurd (Nat.isDigit_of_mem_toDigits (by decide) (by decide) he) (by decide)

theorem ChunkName.text_inj {c c' : ChunkName} (h : c.chunk.text = c'.chunk.text) : c = c' := by
  cases c with
  | number m =>
    cases c' with
    | number n =>
      have hvalue : PyStr.decimalValue 0 (PyStr.zeroFilled 10 0 m) =
          PyStr.decimalValue 0 (PyStr.zeroFilled 10 0 n) := congrArg (PyStr.decimalValue 0) h
      rw [decimalValue_text, decimalValue_text] at hvalue
      rw [hvalue]
    | last => exact absurd h (text_number_ne m)
  | last =>
    cases c' with
    | number n => exact absurd h.symm (text_number_ne n)
    | last => rfl

variable (H : HookTables hooks) {collectionId : PyStr} {info : InfoFrame τ}

/-- A table is the only one of its name. -/
theorem HookTables.eq_of_name {k k' : ℕ} (hk : k < hooks) (hk' : k' < hooks) {T T' : HookTable}
    (hT : T ∈ H.tables k) (hT' : T' ∈ H.tables k') (hname : T.name = T'.name) :
    k = k' ∧ T = T' := by
  have hmem : ∀ {k T}, k < hooks → T ∈ H.tables k → T ∈ (List.range hooks).flatMap H.tables :=
    fun hk hT ↦ List.mem_flatMap.2 ⟨_, List.mem_range.2 hk, hT⟩
  refine ⟨?_, List.inj_on_of_nodup_map H.nodup (hmem hk hT) (hmem hk' hT') hname⟩
  by_contra hne
  have hnd := H.nodup
  rw [List.map_flatMap] at hnd
  have : Std.Symm (Function.onFun List.Disjoint fun k ↦ (H.tables k).map HookTable.name) :=
    ⟨fun _ _ h _ ha hb ↦ h hb ha⟩
  have hdisj := (List.nodup_flatMap.1 hnd).2.forall (List.mem_range.2 hk) (List.mem_range.2 hk') hne
  exact hdisj (List.mem_map_of_mem hT) (hname ▸ List.mem_map_of_mem hT')

theorem HookTable.mem_files {T : HookTable} {c : ChunkName} {rows : List (Sample τ)}
    {f : PyStr × Frame τ} (hf : f ∈ T.files collectionId c rows) :
    f = (chunkFile T.name c.chunk.text, T.frame collectionId (T.samples rows)) := by
  rw [files] at hf
  split_ifs at hf
  · exact absurd hf List.not_mem_nil
  · exact List.mem_singleton.1 hf

theorem HookTable.map_fst_files_sublist (T : HookTable) (c : ChunkName) (rows : List (Sample τ)) :
    ((T.files collectionId c rows).map Prod.fst).Sublist [chunkFile T.name c.chunk.text] := by
  rw [files]
  split_ifs
  · exact List.nil_sublist _
  · exact List.Sublist.refl _

/-- The names of the tables of a chunk: at most all, in order. -/
theorem HookTables.map_fst_chunkFiles_sublist (e : ChunkName × Rows (Sample τ)) :
    ((H.chunkFiles collectionId info e).map Prod.fst).Sublist
      ((systemInfoName :: ((List.range hooks).flatMap H.tables).map HookTable.name).map
        fun n ↦ chunkFile n e.1.chunk.text) := by
  rw [chunkFiles, List.map_append, List.map_cons]
  refine List.Sublist.append (?_ : List.Sublist _ [chunkFile systemInfoName e.1.chunk.text]) ?_
  · split_ifs
    · exact List.Sublist.refl _
    · exact List.nil_sublist _
  · rw [List.map_flatMap, List.map_map, List.map_flatMap]
    refine List.Sublist.flatMap_right _ fun k _ ↦ ?_
    rw [List.map_flatMap, ← List.flatMap_singleton' ((H.tables k).map _), List.flatMap_map]
    exact List.Sublist.flatMap_right _ fun T _ ↦ T.map_fst_files_sublist _ _

/-- The name of `system_info` is not the name of a table of a hook. -/
theorem HookTables.nodup_names :
    (systemInfoName :: ((List.range hooks).flatMap H.tables).map HookTable.name).Nodup := by
  refine List.nodup_cons.2 ⟨fun hmem ↦ ?_, H.nodup⟩
  obtain ⟨T, -, hname⟩ := List.mem_map.1 hmem
  exact T.name_ne hname

/-- **No file is written twice.** -/
theorem HookTables.nodup_runFiles (s : State (Sample τ)) :
    ((H.runFiles collectionId info s).map Prod.fst).Nodup := by
  rw [runFiles, List.map_flatMap, List.nodup_flatMap]
  constructor
  · intro e _
    refine List.Nodup.sublist (H.map_fst_chunkFiles_sublist e) ?_
    exact H.nodup_names.map fun _ _ h ↦ chunkFile_inj.1 h
  · -- the chunk can be read off the name
    have hchunk : ∀ {e : ChunkName × Rows (Sample τ)} {n : PyStr},
        n ∈ (H.chunkFiles collectionId info e).map Prod.fst →
          ∃ t, n = chunkFile t e.1.chunk.text := by
      intro e n hn
      obtain ⟨t, -, ht⟩ := List.mem_map.1 ((H.map_fst_chunkFiles_sublist e).subset hn)
      exact ⟨t, ht.symm⟩
    refine (List.pairwise_map.1 s.files.nodupKeys).imp fun hne n hn hn' ↦ ?_
    obtain ⟨t, ht⟩ := hchunk hn
    obtain ⟨t', ht'⟩ := hchunk hn'
    exact hne (ChunkName.text_inj (chunkFile_text_inj (ht.symm.trans ht')).2)

/-- The run directory, listed in some order. -/
def HookTables.runDir (s : State (Sample τ)) {listing : List (PyStr × Frame τ)}
    (hlist : listing.Perm (H.runFiles collectionId info s)) : RunDir τ :=
  ⟨listing, ((hlist.map Prod.fst).nodup_iff).2 (H.nodup_runFiles s)⟩

/-! ### One table -/

/-- The files of a table, in the order of writing. -/
def HookTable.allFiles (T : HookTable) (collectionId : PyStr) (k : ℕ) (s : State (Sample τ)) :
    List (PyStr × Frame τ) :=
  s.files.items.flatMap fun e ↦ T.files collectionId e.1 (e.2 k)

variable {s : State (Sample τ)} {T : HookTable} {k : ℕ}

theorem HookTable.rows_files (c : ChunkName) (rows : List (Sample τ)) :
    (T.files collectionId c rows).flatMap (fun f ↦ f.2.rows) = T.expected collectionId rows := by
  rw [files]
  split_ifs with hempty
  · rw [expected, List.isEmpty_iff.1 hempty]
    rfl
  · exact List.flatMap_singleton _ _

/-- **The files of a table** have its rows of all chunks. -/
theorem HookTable.rows_allFiles (T : HookTable) (k : ℕ) (s : State (Sample τ)) :
    (T.allFiles collectionId k s).flatMap (fun f ↦ f.2.rows) =
      T.expected collectionId (fileRows s k) := by
  rw [allFiles, List.flatMap_assoc]
  simp only [rows_files]
  rw [expected, samples, fileRows, List.filter_flatMap, List.map_flatMap]
  rfl

theorem HookTables.allFiles_sublist (hk : k < hooks) (hT : T ∈ H.tables k) :
    (T.allFiles collectionId k s).Sublist (H.runFiles collectionId info s) := by
  refine List.Sublist.flatMap_right _ fun e _ ↦
    List.Sublist.trans ?_ (List.sublist_append_right _ _)
  have hone : ∀ {α β : Type _} {l : List α} {a : α} (f : α → List β), a ∈ l →
      (f a).Sublist (l.flatMap f) := by
    intro α β l a f ha
    exact List.sublist_flatten_of_mem (List.mem_map_of_mem ha)
  exact (hone _ hT).trans (hone (fun k ↦ (H.tables k).flatMap fun T ↦
    T.files collectionId e.1 (e.2 k)) (List.mem_range.2 hk))

/-- A file of the run directory that is named after a table is one of its chunks. -/
theorem HookTables.mem_allFiles (hk : k < hooks) (hT : T ∈ H.tables k) {f : PyStr × Frame τ} :
    f ∈ T.allFiles collectionId k s ↔
      f ∈ H.runFiles collectionId info s ∧ ∃ c : Chunk, f.1 = chunkFile T.name c.text := by
  constructor
  · intro hf
    refine ⟨(H.allFiles_sublist hk hT).subset hf, ?_⟩
    obtain ⟨e, -, he⟩ := List.mem_flatMap.1 hf
    exact ⟨e.1.chunk, congrArg Prod.fst (T.mem_files he)⟩
  · rintro ⟨hf, c, hc⟩
    obtain ⟨e, he, hf⟩ := List.mem_flatMap.1 hf
    refine List.mem_flatMap.2 ⟨e, he, ?_⟩
    rcases List.mem_append.1 hf with hf | hf
    · split_ifs at hf
      · rw [List.mem_singleton.1 hf] at hc
        exact absurd (chunkFile_text_inj hc).1.symm T.name_ne
      · exact absurd hf List.not_mem_nil
    · obtain ⟨k', hk', hf⟩ := List.mem_flatMap.1 hf
      obtain ⟨T', hT', hf⟩ := List.mem_flatMap.1 hf
      have hname := (chunkFile_text_inj ((congrArg Prod.fst (T'.mem_files hf)).symm.trans hc)).1
      obtain ⟨rfl, rfl⟩ := H.eq_of_name (List.mem_range.1 hk') hk hT' hT hname
      exact hf

/-- Two chunks of a table, one written after the other, are in the order of their names unless the
later one has no rows. -/
theorem HookTable.pairwise_allFiles (hk : k < hooks) (hord : Ordered hooks s.files.items) :
    (T.allFiles collectionId k s).Pairwise fun f f' ↦ f.2.rows ≠ [] → f'.2.rows ≠ [] →
      ∃ c c' : ChunkName, f.1 = chunkFile T.name c.chunk.text ∧
        f'.1 = chunkFile T.name c'.chunk.text ∧ c.lt c' := by
  refine List.pairwise_flatMap.2 ⟨fun e _ ↦ ?_, hord.imp fun {e e'} hlt f hf f' hf' _ hne ↦ ?_⟩
  · rw [files]
    split_ifs
    · exact List.Pairwise.nil
    · exact List.pairwise_singleton _ _
  · have hfile := T.mem_files hf
    have hfile' := T.mem_files hf'
    rcases hlt with hlt | ⟨-, hempty⟩
    · exact ⟨e.1, e'.1, congrArg Prod.fst hfile, congrArg Prod.fst hfile', hlt⟩
    · rw [hfile', hempty k hk] at hne
      exact absurd rfl hne

/-- **A listing of the chunks of a table** has the rows of the table in the order of writing. -/
theorem HookTables.rows_of_isListing {run : RunDir τ} (hk : k < hooks) (hT : T ∈ H.tables k)
    (hord : Ordered hooks s.files.items)
    (hrun : run.items.Perm (H.runFiles collectionId info s)) {ordered : List (PyStr × Frame τ)}
    (hlist : IsListing run T.name ordered) :
    (ordered.flatMap fun f ↦ f.2.rows) = T.expected collectionId (fileRows s k) := by
  rw [← T.rows_allFiles]
  have hsub : (T.allFiles collectionId k s).Sublist (H.runFiles collectionId info s) :=
    H.allFiles_sublist hk hT
  have hnd : ((T.allFiles collectionId k s).map Prod.fst).Nodup :=
    (H.nodup_runFiles s).sublist (hsub.map Prod.fst)
  have hperm : ordered.Perm (T.allFiles collectionId k s) := by
    refine (List.perm_ext_iff_of_nodup hlist.nodup.of_map hnd.of_map).2 fun f ↦ ?_
    rw [hlist.mem_iff, hrun.mem_iff, H.mem_allFiles hk hT]
  -- a file of the table is the chunk of one name
  have hname : ∀ f ∈ ordered, ∃ c : ChunkName, f.1 = chunkFile T.name c.chunk.text := by
    intro f hf
    obtain ⟨e, -, he⟩ := List.mem_flatMap.1 (hperm.mem_iff.1 hf)
    exact ⟨e.1, congrArg Prod.fst (T.mem_files he)⟩
  refine flatMap_eq_of_perm (r := fun f f' ↦ ∀ c c' : ChunkName,
    f.1 = chunkFile T.name c.chunk.text → f'.1 = chunkFile T.name c'.chunk.text →
      c.chunk.le c'.chunk) hperm ?_ ?_ ?_
  · intro f hf f' hf' _ _ hle hle'
    obtain ⟨c, hc⟩ := hname f hf
    obtain ⟨c', hc'⟩ := hname f' hf'
    have hsame : c = c' := ChunkName.eq_of_le (hle c c' hc hc') (hle' c' c hc' hc)
    exact List.inj_on_of_nodup_map hlist.nodup hf hf' (by rw [hc, hc', hsame])
  · exact hlist.sorted.imp fun hle _ _ (c c' : ChunkName) hc hc' ↦ hle c.chunk c'.chunk hc hc'
  · refine (T.pairwise_allFiles hk hord).imp fun hlt hne hne' c c' hc hc' ↦ ?_
    obtain ⟨d, d', hd, hd', hlt⟩ := hlt hne hne'
    rw [ChunkName.text_inj (chunkFile_text_inj (hc.symm.trans hd)).2,
      ChunkName.text_inj (chunkFile_text_inj (hc'.symm.trans hd')).2]
    exact ChunkName.le_of_lt hlt

/-- Every parquet file of the run directory is a chunk of a table. -/
theorem HookTables.chunkNamed {run : RunDir τ}
    (hrun : run.items.Perm (H.runFiles collectionId info s)) : ChunkNamed run := by
  intro f hf _
  obtain ⟨e, -, hf⟩ := List.mem_flatMap.1 (hrun.mem_iff.1 hf)
  rcases List.mem_append.1 hf with hf | hf
  · split_ifs at hf
    · exact ⟨systemInfoName, e.1.chunk, by decide, congrArg Prod.fst (List.mem_singleton.1 hf)⟩
    · exact absurd hf List.not_mem_nil
  · obtain ⟨k, -, hf⟩ := List.mem_flatMap.1 hf
    obtain ⟨T, -, hf⟩ := List.mem_flatMap.1 hf
    exact ⟨T.name, e.1.chunk, T.dot_not_mem, congrArg Prod.fst (T.mem_files hf)⟩

/-- **The system information** is one file, once the main thread is done. -/
theorem HookTables.isListing_systemInfo {run : RunDir τ}
    (hrun : run.items.Perm (H.runFiles collectionId info s)) {tables : Rows (Sample τ)}
    (hlast : (.last, tables) ∈ s.files.items) :
    IsListing run systemInfoName [(chunkFile systemInfoName Chunk.last.text, info.toFrame)] where
  nodup := List.nodup_singleton _
  mem_iff f := by
    rw [hrun.mem_iff, List.mem_singleton]
    constructor
    · rintro rfl
      refine ⟨List.mem_flatMap.2 ⟨_, hlast, List.mem_append_left _ ?_⟩, .last, rfl⟩
      rw [if_pos rfl]
      exact List.mem_singleton_self _
    · rintro ⟨hf, c, hc⟩
      obtain ⟨e, -, hf⟩ := List.mem_flatMap.1 hf
      rcases List.mem_append.1 hf with hf | hf
      · split_ifs at hf with he
        · rw [List.mem_singleton.1 hf, he]
          rfl
        · exact absurd hf List.not_mem_nil
      · obtain ⟨k, -, hf⟩ := List.mem_flatMap.1 hf
        obtain ⟨T, -, hf⟩ := List.mem_flatMap.1 hf
        have hname := (T.mem_files hf ▸ hc : chunkFile T.name e.1.chunk.text = _)
        exact absurd (chunkFile_text_inj hname).1 T.name_ne
  sorted := List.pairwise_singleton _ _

end Files

/-! ### The loaded collection -/

section Loading

variable {τ : Type*} {hooks : ℕ} [Python] {H : HookTables hooks} {collectionId : PyStr}
  {info : InfoFrame τ} {t : State (Sample τ)} {ls : List (Label (Sample τ))}

/-- The rows of a table of the loaded collection. -/
def loadedRows (data : CollectionData τ) (n : PyStr) : List (Polars.Row τ) :=
  ((data.tables.get? n).elim [] Frame.rows)

omit [Python] in
/-- Chunks with a `collection_id` and with the schema of their table are loaded as they are. -/
theorem loadedRows_of_loadsChunks {run : RunDir τ} {data : CollectionData τ} {ty : TableType τ}
    (h : LoadsChunks ty run collectionId (data.tables.get? ty.name))
    (hid : ∀ f ∈ run.items, collectionIdColumn ∈ f.2.columns)
    (hkeep : ∀ e rest, IsListing run ty.name (e :: rest) →
      ty.Keeps (ensureCollectionId (e.2.concat (rest.map Prod.snd)) collectionId)) :
    ∃ ordered, IsListing run ty.name ordered ∧
      loadedRows data ty.name = ordered.flatMap fun f ↦ f.2.rows := by
  obtain ⟨ordered, hlist, ⟨rfl, hnone⟩ | ⟨hne, hsome⟩⟩ := h
  · exact ⟨[], hlist, by rw [loadedRows, hnone]; rfl⟩
  · obtain ⟨e, rest, rfl⟩ := List.exists_cons_of_ne_nil hne
    obtain ⟨f, k, hsome, hcast, hrows, -⟩ := hsome
    refine ⟨e :: rest, hlist, ?_⟩
    have he : ∃ g ∈ (e :: rest).map Prod.snd, collectionIdColumn ∈ g.columns :=
      ⟨e.2, List.mem_cons_self, hid e ((hlist.mem_iff e).1 List.mem_cons_self).1⟩
    rw [loadedRows, hsome, Option.elim_some, hrows, rowsWithId, if_pos he, List.flatMap_map]
    refine (List.map_congr_left fun r hr ↦ hkeep e rest hlist k (hcast e rest rfl) r ?_).trans
      (List.map_id _)
    rwa [(ensureCollectionId_concat collectionId e.2 (rest.map Prod.snd)).1, rowsWithId,
      ← List.map_cons (f := Prod.snd), if_pos he, List.flatMap_map]

omit [Python] in
/-- Every file of a run carries the id of the collection. -/
theorem HookTables.collectionId_mem {s : State (Sample τ)} {f : PyStr × Frame τ}
    (hf : f ∈ H.runFiles collectionId info s) : collectionIdColumn ∈ f.2.columns := by
  obtain ⟨e, -, hf⟩ := List.mem_flatMap.1 hf
  rcases List.mem_append.1 hf with hf | hf
  · split_ifs at hf
    · rw [List.mem_singleton.1 hf]
      exact info.collectionId_mem
    · exact absurd hf List.not_mem_nil
  · obtain ⟨k, -, hf⟩ := List.mem_flatMap.1 hf
    obtain ⟨T, -, hf⟩ := List.mem_flatMap.1 hf
    rw [T.mem_files hf]
    exact List.mem_append_right _ (List.mem_singleton_self _)

omit [Python] in
/-- The rows that a table should have, of a part of the samples. -/
theorem HookTable.expected_sublist (T : HookTable) {rows rows' : List (Sample τ)}
    (h : rows.Sublist rows') :
    (T.expected collectionId rows).Sublist (T.expected collectionId rows') :=
  (h.filter _).map _

/-- Every sample that was appended is for a table of its hook. -/
def ForOwnTable (H : HookTables hooks) (s : State (Sample τ)) : Prop :=
  ∀ k < hooks, ∀ r ∈ s.appended k, ∃ T ∈ H.tables k, r.table = T.name

omit [Python] in
/-- Tables that have all their rows leave no row out. -/
theorem eq_of_expected_eq (hown : ForOwnTable H t) {k : ℕ} (hk : k < hooks)
    {rows : List (Sample τ)} (hsub : rows.Sublist (t.appended k))
    (heq : ∀ T ∈ H.tables k,
      T.expected collectionId rows = T.expected collectionId (t.appended k)) :
    rows = t.appended k := by
  have hcover : ∀ r ∈ t.appended k, ∃ T ∈ H.tables k, decide (r.table = T.name) = true := by
    intro r hr
    obtain ⟨T, hT, hname⟩ := hown k hk r hr
    exact ⟨T, hT, decide_eq_true hname⟩
  refine eq_of_sublist_of_length_filter (p := fun (T : HookTable) s ↦ decide (s.table = T.name))
    hsub hcover fun T hT ↦ ?_
  · have hlen := congrArg List.length (heq T hT)
    simp only [HookTable.expected, HookTable.samples, List.length_map] at hlen
    exact Nat.le_of_eq hlen.symm

/-- **From the buffers to the loaded tables.** A finished collection, whose run directory is listed
in any order, is loaded by `from_data`: with its system information, and with tables that have only
rows that were polled, in the order in which they were polled. The tables have all of them if and
only if no row was appended to a hook between the two steps of a pop of that hook. -/
theorem fromData_of_collect (h : Run.exec (step hooks) .init ls = some t)
    (hdone : t.main = .done) {listing : List (PyStr × Frame τ)}
    (hlist : listing.Perm (H.runFiles collectionId info t)) {dataDir : DataDir τ}
    {prefixId bench : PyStr}
    (hmatch : matchingRuns dataDir prefixId = [(bench, collectionId, H.runDir t hlist)])
    {tys : List (TableType τ)} (hinfo : systemInfoName ∈ tys.map TableType.name)
    (hknown : ∀ k < hooks, ∀ T ∈ H.tables k, T.name ∈ tys.map TableType.name)
    (hcast : CastsAccept tys collectionId (H.runDir t hlist))
    (hkeep : CastsKeep tys collectionId (H.runDir t hlist)) (hown : ForOwnTable H t) :
    ∃ data, fromData dataDir prefixId tys = .ok data ∧ data.systemInfo.rows = info.rows ∧
      (∀ k < hooks, ∀ T ∈ H.tables k,
        (loadedRows data T.name).Sublist (T.expected collectionId (t.appended k))) ∧
      ((∀ k < hooks, ∀ T ∈ H.tables k,
          loadedRows data T.name = T.expected collectionId (t.appended k)) ↔
        Run.Always (step hooks) NoRace .init ls) := by
  have hinv := inv_of_exec h
  have hord := ordered_of_exec h
  have hchunk : ChunkNamed (H.runDir t hlist) := H.chunkNamed hlist
  obtain ⟨e, he, hlast⟩ := List.mem_map.1 (last_mem_of_exec h (by rw [hdone]; rfl))
  have hsystem : IsListing (H.runDir t hlist) systemInfoName
      [(chunkFile systemInfoName Chunk.last.text, info.toFrame)] :=
    H.isListing_systemInfo hlist (hlast ▸ he : (ChunkName.last, e.2) ∈ t.files.items)
  obtain ⟨data, hdata⟩ := (exists_fromData_iff hmatch hchunk hcast).2
    ⟨hinfo, _, hsystem, by rw [List.flatMap_singleton, info.length_rows]⟩
  have hloads := (fromData_ok hmatch hchunk hdata).known
  have hid : ∀ f ∈ (H.runDir t hlist).items, collectionIdColumn ∈ f.2.columns :=
    fun f hf ↦ H.collectionId_mem (hlist.mem_iff.1 hf)
  -- what is loaded is what the chunks have
  have hrows : ∀ k < hooks, ∀ T ∈ H.tables k,
      loadedRows data T.name = T.expected collectionId (fileRows t k) := by
    intro k hk T hT
    obtain ⟨ty, hty, hname, hchunks⟩ := hloads _ (hknown k hk T hT)
    rw [← hname] at hchunks ⊢
    obtain ⟨ordered, hordered, heq⟩ := loadedRows_of_loadsChunks hchunks hid (hkeep ty hty)
    rw [heq]
    exact H.rows_of_isListing hk hT hord hlist (hname ▸ hordered)
  have hsub : ∀ k < hooks, (fileRows t k).Sublist (t.appended k) := fun k hk ↦
    kept_eq_fileRows hinv hdone hk ▸ kept_sublist h hk
  refine ⟨data, hdata, ?_, fun k hk T hT ↦ ?_, ?_⟩
  · obtain ⟨ty, hty, hname, hchunks⟩ := hloads _ hinfo
    rw [← hname] at hchunks
    obtain ⟨ordered, hordered, heq⟩ := loadedRows_of_loadsChunks hchunks hid (hkeep ty hty)
    rw [hname] at hordered heq
    have hget : loadedRows data systemInfoName = data.systemInfo.rows := by
      rw [loadedRows, data.get_systemInfo, Option.elim_some]
    rw [← hget, heq, List.perm_singleton.1 (hordered.perm hsystem)]
    exact List.flatMap_singleton _ _
  · rw [hrows k hk T hT]
    exact T.expected_sublist (hsub k hk)
  · constructor
    · intro hall
      refine noRace_of_kept h fun k hk ↦ ?_
      rw [kept_eq_fileRows hinv hdone hk]
      exact eq_of_expected_eq hown hk (hsub k hk) fun T hT ↦
        (hrows k hk T hT).symm.trans (hall k hk T hT)
    · intro hrace k hk T hT
      rw [hrows k hk T hT, ← kept_eq_fileRows hinv hdone hk, kept_eq_appended h hrace hk]

end Loading

/-! ### Example -/

theorem procMaps_plain : '.' ∉ "proc_maps".toList ∧ "proc_maps".toList ≠ systemInfoName :=
  ⟨by decide, by decide⟩

theorem collectionId_not_mem_pid : collectionIdColumn ∉ ["pid".toList] := by decide

/-- `proc_maps` with the one column `pid`. -/
def mapsTable : HookTable where
  name := "proc_maps".toList
  columns := ["pid".toList]
  dot_not_mem := procMaps_plain.1
  name_ne := procMaps_plain.2
  nodup := List.nodup_singleton _
  collectionId_not_mem := collectionId_not_mem_pid

/-- One hook with this table. -/
def mapsHook : HookTables 1 where
  tables _ := [mapsTable]
  nodup := List.nodup_singleton _

/-- A row of system information. -/
def infoRow : InfoFrame Unit where
  toFrame := .nullRow collectionIdColumn ()
  length_rows := rfl
  collectionId_mem := List.mem_singleton_self _

/-- One sample in the chunk `0` and one in the chunk `end`. -/
def sampledRun : List (Label (Sample Unit)) :=
  [.append 0 ⟨mapsTable.name, fun _ ↦ .int 7, ()⟩] ++ List.replicate 8 .output ++
    [.append 0 ⟨mapsTable.name, fun _ ↦ .int 8, ()⟩, .pollEnd] ++ List.replicate 7 .main

/-- A data directory with the run `redis/run-abc`. -/
def collectDir (s : State (Sample Unit)) : DataDir Unit :=
  redisDir (mapsHook.runDir s (List.Perm.refl (mapsHook.runFiles "run-abc".toList infoRow s)))

theorem sampledRun_loaded : ∃ t, Run.exec (step 1) .init sampledRun = some t ∧
    ∃ data, @fromData Unit Python.ascii (collectDir t) "run-".toList
        [.systemInfo, .other mapsTable.name mapsTable.name_ne fun _ ↦ .ok .same] = .ok data ∧
      data.systemInfo.rows = infoRow.rows ∧
      (∀ k < 1, ∀ T ∈ mapsHook.tables k,
        (loadedRows data T.name).Sublist (T.expected "run-abc".toList (t.appended k))) ∧
      ((∀ k < 1, ∀ T ∈ mapsHook.tables k,
          loadedRows data T.name = T.expected "run-abc".toList (t.appended k)) ↔
        Run.Always (step 1) NoRace .init sampledRun) := by
  refine ⟨_, rfl, @fromData_of_collect Unit 1 Python.ascii mapsHook "run-abc".toList infoRow _
    sampledRun rfl rfl _ (List.Perm.refl _) (collectDir _) "run-".toList "redis".toList rfl _
    (by decide) ?_ (castsAccept_of_total mapsTable.name_ne _ _)
    (castsKeep_of_total mapsTable.name_ne _ _) ?_⟩
  · intro k _ T hT
    rw [List.mem_singleton.1 hT]
    decide
  · intro k hk r hr
    obtain rfl : k = 0 := by omega
    refine ⟨mapsTable, List.mem_singleton_self _, ?_⟩
    rcases List.mem_cons.1 hr with rfl | hr
    · rfl
    · rw [List.mem_singleton.1 hr]

end Collect
