import HugePageResearch.Analysis.Harness

/-!
# Reading a processed run back

What `from_data` returns for `thp_candidates` after `process_thp_harness_run` has run on a directory
some number of times. Each call writes every id of a candidate or a scan event once to the `end`
chunk (`After`), and touches no other chunk of the table. The reader concatenates all chunks, so the
rows of a numbered chunk come back twice.
-/

namespace Analysis

open Polars Schema

/-! ### What a call writes -/

/-- A table that is derived from the candidates. -/
def Derived (t : PyStr) : Prop :=
  (∃ window, t = windowTable window) ∨ t = "thp_intervention_match".toList ∨
    t = "thp_decision_dataset_v1".toList

/-- A table whose `end` chunk a call may write. -/
def Output (t : PyStr) : Prop := t = candidatesTable.text ∨ Derived t

/-- At most the `end` chunks of the tables in `P` differ. -/
def OnlyWrites (P : PyStr → Prop) (run run' : RunDir Unit) : Prop :=
  ∀ name, (∀ t, P t → name ≠ outputFile t) → run'.get? name = run.get? name

variable {P Q : PyStr → Prop} {run run' run'' : RunDir Unit} {n : TableName}

namespace OnlyWrites

theorem refl (P : PyStr → Prop) (run : RunDir Unit) : OnlyWrites P run run := fun _ _ ↦ rfl

theorem trans (h : OnlyWrites P run run') (h' : OnlyWrites P run' run'') :
    OnlyWrites P run run'' := fun name hname ↦ (h' name hname).trans (h name hname)

theorem mono (h : OnlyWrites P run run') (hPQ : ∀ t, P t → Q t) : OnlyWrites Q run run' :=
  fun name hname ↦ h name fun t ht ↦ hname t (hPQ t ht)

/-- The other files are the same. -/
theorem mem_items (h : OnlyWrites P run run') {e : PyStr × Frame Unit}
    (he : ∀ t, P t → e.1 ≠ outputFile t) : e ∈ run'.items ↔ e ∈ run.items := by
  have hget := h e.1 he
  constructor
  · intro hmem
    exact Dict.get?_eq_some.1 (hget ▸ Dict.get?_eq_some.2 hmem)
  · intro hmem
    exact Dict.get?_eq_some.1 (hget.symm ▸ Dict.get?_eq_some.2 hmem)

/-- A file of another table is none of those that are written. -/
theorem ne_outputFile (hdot : ∀ t, P t → '.' ∉ t) (hn : '.' ∉ n.text) (hP : ¬ P n.text)
    {mid : PyStr} : ∀ t, P t → chunkFile n.text mid ≠ outputFile t := by
  intro t ht heq
  have htable := congrArg tableOf heq
  rw [tableOf_chunkFile hn, outputFile, tableOf_chunkFile (hdot t ht)] at htable
  exact hP (htable ▸ ht)

/-- **Another table is read as before.** -/
theorem loadTable_eq (h : OnlyWrites P run run') (hdot : ∀ t, P t → '.' ∉ t)
    (hn : '.' ∉ n.text) (hP : ¬ P n.text) : loadTable run' n = loadTable run n := by
  have hmem : ∀ e, e ∈ tableFiles run' n ↔ e ∈ tableFiles run n := by
    intro e
    rw [tableFiles, tableFiles, List.mem_insertionSort, List.mem_insertionSort, List.mem_filter,
      List.mem_filter]
    refine and_congr_left fun hfile ↦ ?_
    obtain ⟨mid, hmid⟩ := isFileOf_iff.1 hfile
    refine h.mem_items fun t ht ↦ ?_
    rw [hmid]
    exact ne_outputFile hdot hn hP t ht
  have hperm : (tableFiles run' n).Perm (tableFiles run n) :=
    (List.perm_ext_iff_of_nodup (nodup_tableFiles run' n) (nodup_tableFiles run n)).2 hmem
  have heq : tableFiles run' n = tableFiles run n := by
    refine hperm.eq_of_pairwise (fun e e' he he' hle hge ↦ ?_) (pairwise_tableFiles run' n)
      (pairwise_tableFiles run n)
    -- two files of one directory with one name are the same file
    have hitem := List.mem_of_mem_filter (List.mem_insertionSort _ |>.1 he)
    have hitem' := List.mem_of_mem_filter (List.mem_insertionSort _ |>.1 ((hmem e').2 he'))
    exact List.inj_on_of_nodup_map run'.nodupKeys hitem hitem' (le_antisymm hle hge)
  rw [loadTable, loadTable, heq]

theorem chunkNamed (h : OnlyWrites P run run') (hdot : ∀ t, P t → '.' ∉ t)
    (hrun : ChunkNamed run) : ChunkNamed run' := by
  intro e he hsuffix
  rcases em (∃ t, P t ∧ e.1 = outputFile t) with ⟨t, ht, hname⟩ | hnot
  · exact ⟨t, .last, hdot t ht, hname⟩
  · push Not at hnot
    exact hrun e ((h.mem_items hnot).1 he) hsuffix

theorem hasSystemInfo_iff (h : OnlyWrites P run run') (hdot : ∀ t, P t → '.' ∉ t)
    (hP : ¬ P systemInfoName) {tys : List (TableType Unit)} :
    HasSystemInfo tys run' ↔ HasSystemInfo tys run := by
  have hlist : ∀ ordered, IsListing run' systemInfoName ordered ↔
      IsListing run systemInfoName ordered := by
    intro ordered
    have hmem : ∀ e : PyStr × Frame Unit,
        (e ∈ run'.items ∧ ∃ c : Chunk, e.1 = chunkFile systemInfoName c.text) ↔
          e ∈ run.items ∧ ∃ c : Chunk, e.1 = chunkFile systemInfoName c.text := by
      intro e
      refine and_congr_left ?_
      rintro ⟨c, hc⟩
      refine h.mem_items fun t ht ↦ ?_
      rw [hc]
      exact ne_outputFile (n := systemInfoTable) hdot (by decide) hP t ht
    exact ⟨fun hl ↦ ⟨hl.nodup, fun e ↦ (hl.mem_iff e).trans (hmem e), hl.sorted⟩,
      fun hl ↦ ⟨hl.nodup, fun e ↦ (hl.mem_iff e).trans (hmem e).symm, hl.sorted⟩⟩
  simp only [HasSystemInfo, hlist]

end OnlyWrites

theorem writeParquet_onlyWrites (run : RunDir Unit) {name : PyStr} (hname : P name) (df : Table) :
    OnlyWrites P run (writeParquet run name df) := by
  rcases df with - | f
  · exact OnlyWrites.refl P run
  · intro file hfile
    rw [writeParquet]
    split_ifs
    · rfl
    · rw [Dict.get?_set, if_neg (hfile name hname).symm]

theorem writeWindows_onlyWrites (call : Call) (run₀ : RunDir Unit) (candidates : Frame Unit)
    (collectionId : PyStr) (windows : List ℤ) (features : Dict ℤ Table) (run : RunDir Unit) :
    OnlyWrites Derived run
      (writeWindows call run₀ candidates collectionId windows features run).1 := by
  induction windows generalizing features run with
  | nil => exact OnlyWrites.refl _ run
  | cons window windows ih =>
    rw [writeWindows]
    rcases call.windowFeatures run₀ candidates window collectionId with e | t
    · exact OnlyWrites.refl _ run
    · exact (writeParquet_onlyWrites run (Or.inl ⟨window, rfl⟩) t).trans (ih _ _)

theorem writeDerived_onlyWrites (call : Call) (collectionId : PyStr) (interventions : Table)
    (candidates : Frame Unit) (run : RunDir Unit) :
    OnlyWrites Derived run (writeDerived call collectionId interventions candidates run) := by
  have hwindows := writeWindows_onlyWrites call run candidates collectionId call.windowMs .empty run
  rw [writeDerived]
  rcases hw : writeWindows call run candidates collectionId call.windowMs .empty run with
    ⟨r, features⟩
  rw [hw] at hwindows
  rcases features with - | features
  · exact hwindows
  simp only
  rcases call.decisionDataset candidates ((features.get? 1000).getD none) collectionId with e | d
  · exact hwindows
  simp only
  split
  · exact hwindows
  · exact (hwindows.trans (writeParquet_onlyWrites _ (Or.inr (Or.inl rfl)) _)).trans
      (writeParquet_onlyWrites _ (Or.inr (Or.inr rfl)) _)

theorem dot_not_mem_windowTable (window : ℤ) : '.' ∉ windowTable window := by
  rw [windowTable]
  split_ifs
  · decide
  · decide
  · decide
  · rw [List.mem_append, List.mem_append, not_or, not_or]
    refine ⟨⟨by decide, fun h ↦ ?_⟩, by decide⟩
    rcases PyStr.mem_ofInt h with h | h
    · exact absurd h (by decide)
    · exact absurd h (by decide)

theorem take_windowTable (window : ℤ) :
    (windowTable window).take 10 = "thp_window".toList := by
  rw [windowTable]
  split_ifs
  · rfl
  · rfl
  · rfl
  · rw [List.append_assoc]
    rfl

/-- **The names of the derived tables.** -/
theorem Derived.facts {t : PyStr} (h : Derived t) : '.' ∉ t ∧
    t ∉ [systemInfoTable.text, candidatesTable.text, scansTable.text, collapsesTable.text] := by
  rcases h with ⟨window, rfl⟩ | rfl | rfl
  · refine ⟨dot_not_mem_windowTable window, fun h ↦ ?_⟩
    have hmem := List.mem_map_of_mem (f := List.take 10) h
    rw [take_windowTable] at hmem
    exact absurd hmem (by decide)
  · decide
  · decide

theorem Output.dot {t : PyStr} (h : Output t) : '.' ∉ t := by
  rcases h with rfl | h
  · decide
  · exact h.facts.1

theorem not_output {t : PyStr}
    (h : t ∈ [systemInfoTable.text, scansTable.text, collapsesTable.text]) : ¬ Output t := by
  rintro (rfl | hderived)
  · exact absurd h (by decide)
  · refine hderived.facts.2 ?_
    simp only [List.mem_cons, List.not_mem_nil, or_false] at h ⊢
    exact h.imp_right Or.inr

/-! ### The candidates of a directory -/

/-- The files of `thp_candidates` apart from `end`. -/
def numberedFiles (run : RunDir Unit) : List (PyStr × Frame Unit) :=
  (tableFiles run candidatesTable).filter fun e ↦ e.1 ≠ outputFile candidatesTable.text

/-- Their rows. -/
def numberedRows (run : RunDir Unit) : List (Row Unit) :=
  (numberedFiles run).flatMap fun e ↦ e.2.rows

/-- The rows of the `end` chunk. -/
def endRows (run : RunDir Unit) : List (Row Unit) :=
  Table.rows (run.get? (outputFile candidatesTable.text))

/-- The ids of the candidates. -/
def candidateIds (run : RunDir Unit) : List Value :=
  ids (Table.rows (loadTable run candidatesTable))

theorem mem_numberedFiles {e : PyStr × Frame Unit} : e ∈ numberedFiles run ↔
    e ∈ run.items ∧ isFileOf candidatesTable e.1 = true ∧
      e.1 ≠ outputFile candidatesTable.text := by
  rw [numberedFiles, List.mem_filter, tableFiles, List.mem_insertionSort, List.mem_filter,
    decide_eq_true_iff, and_assoc]

theorem mem_tableFiles_end {e : PyStr × Frame Unit} :
    (e ∈ tableFiles run candidatesTable ∧ e.1 = outputFile candidatesTable.text) ↔
      run.get? (outputFile candidatesTable.text) = some e.2 ∧
        e.1 = outputFile candidatesTable.text := by
  obtain ⟨name, f⟩ := e
  rw [tableFiles, List.mem_insertionSort, List.mem_filter, Dict.get?_eq_some]
  constructor
  · rintro ⟨⟨he, -⟩, rfl⟩
    exact ⟨he, rfl⟩
  · rintro ⟨he, rfl⟩
    exact ⟨⟨he, isFileOf_iff.2 ⟨_, rfl⟩⟩, rfl⟩

/-- The file that `end` names, if there is one. -/
theorem rows_endFile (run : RunDir Unit) :
    ((tableFiles run candidatesTable).filter fun e ↦
      !decide (e.1 ≠ outputFile candidatesTable.text)).flatMap (fun e ↦ e.2.rows) =
      endRows run := by
  have hmem : ∀ e, e ∈ (tableFiles run candidatesTable).filter (fun e ↦
      !decide (e.1 ≠ outputFile candidatesTable.text)) ↔
      run.get? (outputFile candidatesTable.text) = some e.2 ∧
        e.1 = outputFile candidatesTable.text := by
    intro e
    rw [List.mem_filter, Bool.not_eq_true', decide_eq_false_iff_not, not_not]
    exact mem_tableFiles_end
  rw [endRows]
  rcases hget : run.get? (outputFile candidatesTable.text) with - | f
  · have hnil := List.eq_nil_iff_forall_not_mem.2 fun e he ↦ by
      have hsome := ((hmem e).1 he).1
      rw [hget] at hsome
      exact Option.some_ne_none _ hsome.symm
    rw [hnil]
    rfl
  · have hperm : ((tableFiles run candidatesTable).filter fun e ↦
        !decide (e.1 ≠ outputFile candidatesTable.text)).Perm
          [(outputFile candidatesTable.text, f)] := by
      refine (List.perm_ext_iff_of_nodup ((nodup_tableFiles run candidatesTable).filter _)
        (List.nodup_singleton _)).2 fun e ↦ ?_
      rw [hmem, hget, List.mem_singleton, Option.some.injEq, Prod.ext_iff, and_comm,
        eq_comm (a := f)]
    rw [List.perm_singleton.1 hperm]
    exact List.append_nil _

/-- **The rows of the table** are those of the numbered chunks and those of `end`. -/
theorem perm_candidates (run : RunDir Unit) :
    (Table.rows (loadTable run candidatesTable)).Perm (numberedRows run ++ endRows run) := by
  have hrows : Table.rows (loadTable run candidatesTable) =
      (tableFiles run candidatesTable).flatMap fun e ↦ e.2.rows :=
    rows_loadTable run candidatesTable
  have hsplit := List.filter_append_perm
    (fun e ↦ decide (e.1 ≠ outputFile candidatesTable.text)) (tableFiles run candidatesTable)
  rw [hrows, ← rows_endFile, numberedRows, numberedFiles, ← List.flatMap_append]
  exact (hsplit.flatMap_right _).symm

theorem perm_candidateIds (run : RunDir Unit) :
    (candidateIds run).Perm (ids (numberedRows run) ++ ids (endRows run)) := by
  rw [← ids_append]
  exact (perm_candidates run).map _

/-- **The numbered chunks stay.** -/
theorem OnlyWrites.numberedRows_perm (h : OnlyWrites Output run run') :
    (numberedRows run').Perm (numberedRows run) := by
  refine ((List.perm_ext_iff_of_nodup ((nodup_tableFiles run' candidatesTable).filter _)
    ((nodup_tableFiles run candidatesTable).filter _)).2 fun e ↦ ?_).flatMap_right _
  show e ∈ numberedFiles run' ↔ e ∈ numberedFiles run
  rw [mem_numberedFiles, mem_numberedFiles]
  refine and_congr_left fun ⟨hfile, hname⟩ ↦ h.mem_items fun t ht heq ↦ ?_
  obtain ⟨mid, hmid⟩ := isFileOf_iff.1 hfile
  have htable := congrArg tableOf (hmid.symm.trans heq)
  rw [tableOf_chunkFile (by decide), outputFile, tableOf_chunkFile ht.dot] at htable
  exact hname (htable ▸ heq)

/-! ### One call -/

section Calls

variable [Python]

/-- The ids of the scan events. -/
def eventIds (runName : PyStr) (run : RunDir Unit) : List Value :=
  scanIds (collectionIdOf runName (loadTable run systemInfoTable))
    (Table.rows (loadTable run scansTable)).length

/-- What holds of the directory after a call: only output files changed, and `end` has every id of
a candidate or a scan event of the directory before, once. -/
structure After (runName : PyStr) (run run' : RunDir Unit) : Prop where
  writes : OnlyWrites Output run run'
  nodup : (ids (endRows run')).Nodup
  mem_iff : ∀ id, id ∈ ids (endRows run') ↔ id ∈ candidateIds run ∨ id ∈ eventIds runName run
  typed : ∀ r ∈ endRows run', IsCandidate r

omit [Python] in
/-- The `end` chunk of the candidates is not a derived file. -/
theorem get?_writeDerived (call : Call) (collectionId : PyStr) (interventions : Table)
    (candidates : Frame Unit) (run : RunDir Unit) :
    (writeDerived call collectionId interventions candidates run).get?
      (outputFile candidatesTable.text) = run.get? (outputFile candidatesTable.text) := by
  refine writeDerived_onlyWrites call collectionId interventions candidates run _ fun t ht heq ↦ ?_
  have htable := congrArg tableOf heq
  rw [outputFile, outputFile, tableOf_chunkFile (by decide), tableOf_chunkFile ht.facts.1] at htable
  exact ht.facts.2 (htable ▸ by decide)

/-- **One call.** -/
theorem processThpHarnessRun_after (call : Call) (runName : PyStr)
    (hsys : Table.rows (loadTable run systemInfoTable) ≠ []) (hrun : Collected run) :
    After runName run (processThpHarnessRun call runName run) := by
  have hne : ¬ Table.isEmpty (loadTable run systemInfoTable) = true := fun h ↦
    hsys (List.isEmpty_iff.1 h)
  obtain ⟨t, ht, htyped, hnodup, hmem⟩ := augmentCandidatesWithScan_ok call
    (collectionIdOf runName (loadTable run systemInfoTable)) hrun.candidates hrun.scans
      hrun.collapses
  have hempty : t.rows = [] → After runName run run := fun hrows ↦ by
    rw [hrows] at hmem
    have hids : ids (endRows run) = [] := by
      refine List.eq_nil_iff_forall_not_mem.2 fun id hid ↦ ?_
      have hcand : id ∈ candidateIds run :=
        (perm_candidateIds run).mem_iff.2 (List.mem_append_right _ hid)
      exact absurd ((hmem id).2 (Or.inl hcand)) List.not_mem_nil
    have hend : endRows run = [] := List.map_eq_nil_iff.1 hids
    refine ⟨OnlyWrites.refl _ run, ?_, ?_, ?_⟩
    · rw [hend]
      exact List.nodup_nil
    · rw [hend]
      exact hmem
    · rw [hend]
      exact fun _ h ↦ absurd h List.not_mem_nil
  rw [processThpHarnessRun, if_neg hne]
  simp only [ht]
  rcases t with - | f
  · exact hempty rfl
  dsimp only
  rcases em (f.rows = []) with hf | hf
  · rw [if_pos hf, writeParquet, if_pos hf]
    exact hempty hf
  · rw [if_neg hf, writeParquet, if_neg hf]
    have hend : endRows (writeDerived call
        (collectionIdOf runName (loadTable run systemInfoTable))
          (loadTable run interventionsTable) f (run.set (outputFile candidatesTable.text) f)) =
        Table.rows (some f) := by
      rw [endRows, get?_writeDerived, Dict.get?_set, if_pos rfl]
    refine ⟨?_, hend ▸ hnodup, hend ▸ hmem, hend ▸ htyped⟩
    have hset : OnlyWrites Output run (run.set (outputFile candidatesTable.text) f) := by
      intro name hname
      rw [Dict.get?_set, if_neg (hname _ (Or.inl rfl)).symm]
    exact hset.trans ((writeDerived_onlyWrites _ _ _ _ _).mono fun _ h ↦ Or.inr h)

/-! ### Any number of calls -/

namespace After

variable {runName : PyStr}

omit [Python] in
theorem loadTable_eq (h : OnlyWrites Output run run') {n : TableName}
    (hn : n.text ∈ [systemInfoTable.text, scansTable.text, collapsesTable.text]) :
    loadTable run' n = loadTable run n := by
  refine h.loadTable_eq (fun _ ↦ Output.dot) ?_ (not_output hn)
  simp only [List.mem_cons, List.not_mem_nil, or_false] at hn
  rcases hn with hn | hn | hn <;> rw [hn] <;> decide

theorem eventIds_eq (h : After runName run run') :
    eventIds runName run' = eventIds runName run := by
  rw [eventIds, eventIds, loadTable_eq (n := systemInfoTable) h.writes (by decide),
    loadTable_eq (n := scansTable) h.writes (by decide)]

/-- The candidates are now the numbered chunks of before and the `end` chunk of now. -/
theorem perm_candidates (h : After runName run run') :
    (Table.rows (loadTable run' candidatesTable)).Perm (numberedRows run ++ endRows run') :=
  (Analysis.perm_candidates run').trans (h.writes.numberedRows_perm.append_right _)

/-- The tables still hold what their schemas say. -/
theorem collected (h : After runName run run') (hrun : Collected run) : Collected run' := by
  refine ⟨fun r hr ↦ ?_, ?_, ?_⟩
  · rcases List.mem_append.1 (h.perm_candidates.mem_iff.1 hr) with hr | hr
    · exact hrun.candidates r ((Analysis.perm_candidates run).mem_iff.2 (List.mem_append_left _ hr))
    · exact h.typed r hr
  · rw [loadTable_eq (n := scansTable) h.writes (by decide)]
    exact hrun.scans
  · rw [loadTable_eq (n := collapsesTable) h.writes (by decide)]
    exact hrun.collapses

/-- **No candidate is gained or lost** by a call but for the scan events. -/
theorem mem_candidateIds (h : After runName run run') (id : Value) :
    id ∈ candidateIds run' ↔ id ∈ candidateIds run ∨ id ∈ eventIds runName run := by
  have hperm : (candidateIds run').Perm (ids (numberedRows run) ++ ids (endRows run')) := by
    rw [← ids_append]
    exact h.perm_candidates.map _
  rw [hperm.mem_iff, List.mem_append, h.mem_iff]
  refine ⟨fun hid ↦ hid.elim (fun hid ↦ Or.inl ?_) (fun hid ↦ hid), Or.inr⟩
  exact (perm_candidateIds run).mem_iff.2 (List.mem_append_left _ hid)

/-- A further call. -/
theorem trans {run'' : RunDir Unit} (h : After runName run run') (h' : After runName run' run'') :
    After runName run run'' := by
  refine ⟨h.writes.trans h'.writes, h'.nodup, fun id ↦ ?_, h'.typed⟩
  rw [h'.mem_iff, h.eventIds_eq, h.mem_candidateIds, or_assoc, or_self]

end After

/-- Some calls, one after the other. -/
def processRuns (calls : List Call) (runName : PyStr) (run : RunDir Unit) : RunDir Unit :=
  calls.foldl (fun run call ↦ processThpHarnessRun call runName run) run

/-- **Some calls** leave the directory as one call does. -/
theorem processRuns_after {calls : List Call} (hcalls : calls ≠ []) (runName : PyStr)
    (hsys : Table.rows (loadTable run systemInfoTable) ≠ []) (hrun : Collected run) :
    After runName run (processRuns calls runName run) := by
  have further : ∀ (calls : List Call) (run' : RunDir Unit), After runName run run' →
      After runName run (processRuns calls runName run') := by
    intro calls
    induction calls with
    | nil => exact fun _ h ↦ h
    | cons call calls ih =>
      intro run' h
      refine ih _ (h.trans (processThpHarnessRun_after call runName ?_ (h.collected hrun)))
      rwa [After.loadTable_eq (n := systemInfoTable) h.writes (by decide)]
  obtain ⟨call, calls, rfl⟩ := List.exists_cons_of_ne_nil hcalls
  exact further calls _ (processThpHarnessRun_after call runName hsys hrun)

/-! ### Reading back -/

/-- `candidate_type`. -/
def candidateTypeColumn : PyStr := "candidate_type".toList

/-- The row that an earlier call wrote for a scan event of the directory. -/
def FromScan (runName : PyStr) (run : RunDir Unit) (r : Row Unit) : Prop :=
  r.cells candidateTypeColumn = .str "scan".toList ∧ r.cells decisionIdColumn ∈ eventIds runName run

instance (runName : PyStr) (run : RunDir Unit) (r : Row Unit) :
    Decidable (FromScan runName run r) := inferInstanceAs (Decidable (_ ∧ _))

/-- The candidates of the hook: those that are not the row of a scan event. -/
def hookRows (runName : PyStr) (run : RunDir Unit) : List (Row Unit) :=
  (Table.rows (loadTable run candidatesTable)).filter fun r ↦ ¬ FromScan runName run r

/-- The candidates that `from_data` reads from the directory are each hook candidate and each scan
event of `run`, once. -/
def ReadsBackOnce (dataDir : DataDir Unit) (collectionId : PyStr)
    (tableTypes : List (TableType Unit)) (runName : PyStr) (run : RunDir Unit) : Prop :=
  ∃ data, fromData dataDir collectionId tableTypes = .ok data ∧
    (ids (Table.rows (data.tables.get? candidatesTable.text))).Nodup ∧
    (ids (Table.rows (data.tables.get? candidatesTable.text))).Perm
      (ids (hookRows runName run) ++ eventIds runName run)

/-- A hook candidate has an id of its own, and not that of a scan event. -/
def HookIdsApart (runName : PyStr) (run : RunDir Unit) : Prop :=
  ∀ r ∈ Table.rows (loadTable run candidatesTable),
    r.cells candidateTypeColumn ≠ .str "scan".toList →
      r.cells decisionIdColumn ∉ eventIds runName run

instance (runName : PyStr) (run : RunDir Unit) : Decidable (HookIdsApart runName run) :=
  inferInstanceAs (Decidable (∀ r ∈ _, _ → _))

/-- In the types of the candidates `decision_id` is a `pl.String`: the cast leaves a text. -/
def KeepsIds (tys : List (TableType Unit)) : Prop :=
  ∀ ty ∈ tys, ty.name = candidatesTable.text → ∀ f k, ty.cast f = .ok k →
    ∀ s, k.cell decisionIdColumn (.str s) = .str s

/-- The ids of the hook candidates and those of the scan events are all. -/
theorem mem_ids_hookRows_or {runName : PyStr} {run : RunDir Unit} (id : Value) :
    id ∈ ids (hookRows runName run) ∨ id ∈ eventIds runName run ↔
      id ∈ candidateIds run ∨ id ∈ eventIds runName run := by
  refine or_congr_left' fun hevent ↦ ?_
  rw [ids, hookRows, candidateIds, ids, List.mem_map, List.mem_map]
  constructor
  · rintro ⟨r, hr, rfl⟩
    exact ⟨r, List.mem_of_mem_filter hr, rfl⟩
  · rintro ⟨r, hr, rfl⟩
    exact ⟨r, List.mem_filter.2 ⟨hr, decide_eq_true fun hscan ↦ hevent hscan.2⟩, rfl⟩

/-- **They are apart** exactly where no hook candidate has the id of a scan event. -/
theorem hookIdsApart_iff {runName : PyStr} {run : RunDir Unit} : HookIdsApart runName run ↔
    ∀ id ∈ ids (hookRows runName run), id ∉ eventIds runName run := by
  rw [ids, hookRows, List.forall_mem_map]
  constructor
  · intro h r hr hevent
    obtain ⟨hr, hscan⟩ := List.mem_filter.1 hr
    exact of_decide_eq_true hscan
      ⟨not_not.1 fun htype ↦ h r hr htype hevent, hevent⟩
  · intro h r hr htype
    exact h r (List.mem_filter.2 ⟨hr, decide_eq_true fun hscan ↦ htype hscan.1⟩)

omit [Python] in
/-- The numbered chunks of the candidates have no rows. -/
theorem numberedRows_eq_nil_iff (hrun : ChunkNamed run) : numberedRows run = [] ↔
    ∀ e ∈ run.items, IsChunkOf candidatesTable e.1 → e.1 ≠ endFile candidatesTable →
      e.2.rows = [] := by
  rw [numberedRows, List.flatMap_eq_nil_iff]
  constructor
  · exact fun h e he hchunk hname ↦
      h e (mem_numberedFiles.2 ⟨he, (isFileOf_iff_isChunkOf hrun he).2 hchunk, hname⟩)
  · intro h e he
    obtain ⟨hmem, hfile, hname⟩ := mem_numberedFiles.1 he
    exact h e hmem ((isFileOf_iff_isChunkOf hrun hmem).1 hfile) hname

omit [Python] in
theorem nodup_scanIds (collectionId : PyStr) (n : ℕ) : (scanIds collectionId n).Nodup := by
  refine List.Nodup.map (fun i j h ↦ ?_) List.nodup_range'
  exact scanId_injective collectionId (Value.str.inj h)

omit [Python] in
/-- The casts and the name of the run leave the ids of candidates as they are. -/
theorem ids_recast {k : CellCast} (hk : ∀ s, k.cell decisionIdColumn (.str s) = .str s)
    {runName : PyStr} {fs : List (Frame Unit)} (hfs : ∀ r ∈ fs.flatMap Frame.rows, IsCandidate r) :
    ids ((rowsWithId runName fs).map k.row) = ids (fs.flatMap Frame.rows) := by
  have hne : decisionIdColumn ≠ collectionIdColumn := by decide
  have hcell : ∀ r ∈ fs.flatMap Frame.rows,
      k.cell decisionIdColumn (r.cells decisionIdColumn) = r.cells decisionIdColumn := by
    intro r hr
    obtain ⟨s, hs⟩ := (hfs r hr).id
    rw [hs, hk]
  rw [rowsWithId]
  split_ifs
  · rw [ids, ids, List.map_map]
    exact List.map_congr_left hcell
  · rw [ids, ids, List.map_map, List.map_map]
    refine List.map_congr_left fun r hr ↦ ?_
    show k.cell decisionIdColumn
      (Function.update r.cells collectionIdColumn (.str runName) decisionIdColumn) = _
    rw [Function.update_of_ne hne]
    exact hcell r hr

/-- **What is read back**: the ids of the numbered chunks and those of the `end` chunk. -/
theorem readBack_perm {dataDir : DataDir Unit} {collectionId bench runName : PyStr}
    {tys : List (TableType Unit)}
    (hmatch : matchingRuns dataDir collectionId = [(bench, runName, run')])
    (hrun' : ChunkNamed run') (hcollected : Collected run')
    (hknown : candidatesTable.text ∈ tys.map TableType.name) (hkeeps : KeepsIds tys)
    (h : After runName run run') {data : CollectionData Unit}
    (hdata : fromData dataDir collectionId tys = .ok data) :
    (ids (Table.rows (data.tables.get? candidatesTable.text))).Perm
      (ids (numberedRows run) ++ ids (endRows run')) := by
  obtain ⟨ty, hty, hname, ordered, hlist, hloaded⟩ :=
    (fromData_ok hmatch hrun' hdata).known _ hknown
  have hperm : (ordered.flatMap fun e ↦ e.2.rows).Perm
      (Table.rows (loadTable run' candidatesTable)) := by
    have hrows : Table.rows (loadTable run' candidatesTable) =
        (tableFiles run' candidatesTable).flatMap fun e ↦ e.2.rows := rows_loadTable run' _
    rw [hrows]
    exact (perm_tableFiles hrun' (hname ▸ hlist)).flatMap_right _
  have hread : ids (Table.rows (data.tables.get? candidatesTable.text)) =
      ids (ordered.flatMap fun e ↦ e.2.rows) := by
    rcases hloaded with ⟨rfl, hnone⟩ | ⟨hne, f, k, hf, hcast, hrows, -⟩
    · rw [hnone]
      rfl
    · obtain ⟨e, rest, rfl⟩ := List.exists_cons_of_ne_nil hne
      rw [hf]
      show ids f.rows = _
      rw [hrows, ids_recast (hkeeps ty hty hname _ k (hcast e rest rfl)) fun r hr ↦ ?_,
        List.flatMap_map]
      rw [List.flatMap_map] at hr
      exact hcollected.candidates r (hperm.mem_iff.1 hr)
  rw [hread, ← ids_append]
  exact (hperm.trans h.perm_candidates).map _

/-- **When each candidate is read back once.** The calls are any number of calls, each with its own
arguments. `from_data` has to return, which takes one row of `system_info`; the numbered chunks of
the candidates must have no rows, since they are read next to the `end` chunk that now holds their
rows too; and no hook candidate may carry the id of a scan event. -/
theorem processRuns_readsBackOnce_iff {dataDir : DataDir Unit}
    {collectionId bench runName : PyStr} {tys : List (TableType Unit)} {calls : List Call}
    (hcalls : calls ≠ []) (hrun : ChunkNamed run)
    (hsys : Table.rows (loadTable run systemInfoTable) ≠ []) (hcollected : Collected run)
    (hids : (candidateIds run).Nodup)
    (hmatch : matchingRuns dataDir collectionId =
      [(bench, runName, processRuns calls runName run)])
    (htys : CastsAccept tys runName (processRuns calls runName run)) (hkeeps : KeepsIds tys)
    (hknown : candidatesTable.text ∈ tys.map TableType.name) :
    ReadsBackOnce dataDir collectionId tys runName run ↔
      HasSystemInfo tys run ∧
        (∀ e ∈ run.items, IsChunkOf candidatesTable e.1 → e.1 ≠ endFile candidatesTable →
          e.2.rows = []) ∧
        HookIdsApart runName run := by
  have h := processRuns_after hcalls runName hsys hcollected
  have hrun' := h.writes.chunkNamed (fun _ ↦ Output.dot) hrun
  have hcollected' := h.collected hcollected
  have hinfo : HasSystemInfo tys (processRuns calls runName run) ↔ HasSystemInfo tys run :=
    h.writes.hasSystemInfo_iff (fun _ ↦ Output.dot) (not_output (t := systemInfoName) (by decide))
  rw [← hinfo, ← exists_fromData_iff hmatch hrun' htys, ← numberedRows_eq_nil_iff hrun,
    hookIdsApart_iff]
  constructor
  · rintro ⟨data, hdata, hnodup, hperm⟩
    have hread := readBack_perm hmatch hrun' hcollected' hknown hkeeps h hdata
    refine ⟨⟨data, hdata⟩, ?_, fun id hid hevent ↦ ?_⟩
    · have hdisjoint := (List.nodup_append'.1 (hread.nodup_iff.1 hnodup)).2.2
      refine List.map_eq_nil_iff.1 (List.eq_nil_iff_forall_not_mem.2 fun id hid ↦ ?_ :
        ids (numberedRows run) = [])
      have hcand := (perm_candidateIds run).mem_iff.2 (List.mem_append_left _ hid)
      exact hdisjoint hid ((h.mem_iff id).2 (Or.inl hcand))
    · exact (List.nodup_append'.1 (hperm.nodup_iff.1 hnodup)).2.2 hid hevent
  · rintro ⟨⟨data, hdata⟩, hnumbered, hdisjoint⟩
    have hread := readBack_perm hmatch hrun' hcollected' hknown hkeeps h hdata
    rw [hnumbered] at hread
    have hend : (ids ([] : List (Row Unit)) ++
        ids (endRows (processRuns calls runName run))).Nodup := h.nodup
    have hnodup := hread.nodup_iff.2 hend
    refine ⟨data, hdata, hnodup, (List.perm_ext_iff_of_nodup hnodup ?_).2 fun id ↦ ?_⟩
    · exact List.nodup_append'.2 ⟨hids.sublist (List.filter_sublist.map _), nodup_scanIds _ _,
        fun id hid hevent ↦ hdisjoint id hid hevent⟩
    · rw [List.mem_append, mem_ids_hookRows_or, ← h.mem_iff]
      exact hread.mem_iff

end Calls

/-! ### Examples -/

/-- `THPCandidateTable`. -/
def thpCandidates : TableType Unit := .other candidatesTable.text (by decide) fun _ ↦ .ok .same

theorem keepsIds_thpCandidates : KeepsIds [.systemInfo, thpCandidates] := by
  intro ty hty hname f k hk s
  rcases List.mem_pair.1 hty with rfl | rfl
  · exact absurd hname (by decide)
  · obtain rfl := Except.ok.inj hk
    rfl

/-- The columns of a candidate that are used. -/
def usedColumns : List PyStr :=
  [decisionIdColumn, candidateTypeColumn, "age_censored".toList, "ts_ns".toList]

/-- A chunk with one candidate. -/
def oneCandidate : Frame Unit :=
  Frame.ofRows usedColumns (by decide) (by decide)
    [([.str "run-abc-1".toList, .str "sampled".toList, .bool false, .int 5], ())]

/-- The chunk that a call writes of one candidate and one scan event. -/
def oneOfEach : Frame Unit :=
  Frame.ofRows usedColumns (by decide) (by decide)
    [([.str "run-abc-1".toList, .str "sampled".toList, .bool false, .int 5], ()),
      ([.str "run-abc-scan-1".toList, .str "scan".toList, .bool true, .int 7], ())]

/-- A scan event. -/
def oneEvent : Frame Unit :=
  Frame.ofRows scanIntColumns (by decide) (by decide)
    [([.int 4, .int 4, .int 7, .int 9, .int 0, .int 0, .int 1, .int 1], ())]

/-- A call without windows. -/
def plainCall : Call where
  engine := Engine.lastKept
  seconds n := n / 10 ^ 9
  windowFeatures _ _ _ _ := .ok none
  decisionDataset _ _ _ := .ok none
  matchInterventions _ _ := .ok (none, none)
  windowMs := []
  matchingEnabled := false

/-- A directory that was processed before: the `end` chunk holds the row of the scan event. -/
def processedRun : RunDir Unit where
  items := [("thp_candidates.end.parquet".toList, oneOfEach),
    ("thp_scan_events.end.parquet".toList, oneEvent), ("system_info.end.parquet".toList, oneRow)]
  nodupKeys := by decide

/-- The candidate is in a numbered chunk. -/
def numberedRun : RunDir Unit where
  items := [("thp_candidates.0.parquet".toList, oneCandidate),
    ("system_info.end.parquet".toList, oneRow)]
  nodupKeys := by decide

theorem processedRun_chunkNamed : ChunkNamed processedRun := by
  intro e he _
  simp only [processedRun, List.mem_cons, List.not_mem_nil, or_false] at he
  rcases he with rfl | rfl | rfl
  · exact ⟨"thp_candidates".toList, .last, by decide, by decide⟩
  · exact ⟨"thp_scan_events".toList, .last, by decide, by decide⟩
  · exact ⟨"system_info".toList, .last, by decide, by decide⟩

theorem numberedRun_chunkNamed : ChunkNamed numberedRun := by
  intro e he _
  simp only [numberedRun, List.mem_cons, List.not_mem_nil, or_false] at he
  rcases he with rfl | rfl
  · exact ⟨"thp_candidates".toList, .number ['0'] (by decide) (List.all_eq_true.1 rfl), by decide,
      by decide⟩
  · exact ⟨"system_info".toList, .last, by decide, by decide⟩

theorem processedRun_collected : Collected processedRun := by
  refine ⟨fun r hr ↦ ?_, fun r hr ↦ ?_, fun _ h ↦ absurd h List.not_mem_nil⟩
  · rcases List.mem_pair.1 hr with rfl | rfl
    · exact ⟨⟨_, rfl⟩, ⟨_, rfl⟩, ⟨_, rfl⟩⟩
    · exact ⟨⟨_, rfl⟩, ⟨_, rfl⟩, ⟨_, rfl⟩⟩
  · rw [List.mem_singleton.1 hr]
    intro c hc
    simp only [scanIntColumns, List.mem_cons, List.not_mem_nil, or_false] at hc
    rcases hc with rfl | rfl | rfl | rfl | rfl | rfl | rfl | rfl
    all_goals exact ⟨_, rfl⟩

theorem numberedRun_collected : Collected numberedRun := by
  refine ⟨fun r hr ↦ ?_, fun _ h ↦ absurd h List.not_mem_nil, fun _ h ↦ absurd h List.not_mem_nil⟩
  rw [List.mem_singleton.1 hr]
  exact ⟨⟨_, rfl⟩, ⟨_, rfl⟩, ⟨_, rfl⟩⟩

/-- Processed twice more, the directory still has each candidate once. -/
theorem processedRun_readsBackOnce :
    @ReadsBackOnce Python.ascii
      (redisDir (@processRuns Python.ascii [plainCall, plainCall] "run-abc".toList processedRun))
      "run-".toList [.systemInfo, thpCandidates] "run-abc".toList processedRun := by
  refine (@processRuns_readsBackOnce_iff processedRun Python.ascii _ "run-".toList "redis".toList
    "run-abc".toList [.systemInfo, thpCandidates] [plainCall, plainCall] (List.cons_ne_nil _ _)
      processedRun_chunkNamed (List.cons_ne_nil _ _) processedRun_collected (by decide) rfl
        (castsAccept_of_total (by decide) _ _) keepsIds_thpCandidates (by decide)).2
    ⟨?_, fun e he hchunk hname ↦ ?_, by decide⟩
  · exact (@exists_fromData_iff Unit processedRun "run-abc".toList [.systemInfo, thpCandidates]
      Python.ascii (redisDir processedRun) "run-".toList "redis".toList rfl processedRun_chunkNamed
        (castsAccept_of_total (by decide) _ _)).1 ⟨_, rfl⟩
  · simp only [processedRun, List.mem_cons, List.not_mem_nil, or_false] at he
    rcases he with rfl | rfl | rfl
    · exact absurd rfl hname
    all_goals
      obtain ⟨c, hc⟩ := hchunk
      exact absurd (isFileOf_iff.2 ⟨c.text, hc⟩) (by decide)

/-- The candidate of a numbered chunk is read back twice. -/
theorem numberedRun_not_readsBackOnce :
    ChunkNamed numberedRun ∧ Table.rows (loadTable numberedRun systemInfoTable) ≠ [] ∧
      Collected numberedRun ∧ (candidateIds numberedRun).Nodup ∧
      ¬ @ReadsBackOnce Python.ascii
        (redisDir (@processRuns Python.ascii [plainCall] "run-abc".toList numberedRun))
        "run-".toList [.systemInfo, thpCandidates] "run-abc".toList numberedRun := by
  refine ⟨numberedRun_chunkNamed, List.cons_ne_nil _ _, numberedRun_collected, by decide, ?_⟩
  rintro ⟨data, hdata, hnodup, -⟩
  have h := @processRuns_after numberedRun Python.ascii [plainCall] (List.cons_ne_nil _ _)
    "run-abc".toList (List.cons_ne_nil _ _) numberedRun_collected
  have hwrites := @After.writes Python.ascii _ _ _ h
  have hread := @readBack_perm numberedRun _ Python.ascii _ "run-".toList "redis".toList
    "run-abc".toList [.systemInfo, thpCandidates] rfl
      (hwrites.chunkNamed (fun _ ↦ Output.dot) numberedRun_chunkNamed)
      (@After.collected _ _ Python.ascii _ h numberedRun_collected) (by decide)
      keepsIds_thpCandidates h data hdata
  exact absurd (hread.nodup_iff.1 hnodup) (by decide)

end Analysis
