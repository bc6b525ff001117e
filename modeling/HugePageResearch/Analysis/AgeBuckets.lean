import HugePageResearch.Analysis.Controls
import HugePageResearch.Analysis.ScanRows
import HugePageResearch.Polars.Expressions
import HugePageResearch.Thp.Ages

/-!
# The age buckets of the matches

A run of `THPInterventionHook`, followed by `process_thp_harness_run` on the tables that it wrote.
The bucket of an intervention is decided twice: by the hook, which knows the age of the region, and
for the matches from the row of the candidate, whose age is censored.

## The result

`bucketsAgree_iff`: the two agree in every match, exactly where there is no match. That is where no
split has another candidate without a known age within a minute.
-/

namespace Analysis.Matching

open Polars Schema Thp

variable {F : Type*} [PyFloat F]

/-! ### The tables of a run -/

/-- The candidates that were written. -/
def writtenCandidates (w : World) : List THPCandidateRow :=
  w.popped.flatMap HookTable.candidateRows

/-- The interventions that were written. -/
def writtenInterventions (w : World) : List THPInterventionRow :=
  w.popped.flatMap HookTable.interventionRows

/-- The text of `candidate_type`. -/
def typeText : CandidateType → PyStr
  | .negative => "negative".toList
  | .sampled => "sampled".toList

/-- The text of `age_bucket`. -/
def bucketText : AgeBucket → PyStr
  | .young => "young".toList
  | .mid => "mid".toList
  | .old => "old".toList
  | .unknown => "unknown".toList

/-- The values of a candidate, in the order of `scanColumns`. -/
def candidateValues (collectionId : PyStr) (c : THPCandidateRow) : List Value :=
  [.str c.decisionId, .int c.pid, .int c.tgid, .int c.tsNs, .str (typeText c.candidateType),
    .str c.mm, .int c.pfn, .int c.startAddr, .int c.endAddr, .float c.ageSec,
    .bool c.ageCensored, .int c.referenced, .int c.noneOrZero, .int c.writable,
    .int c.scanStatus, .int c.anonHugepagesKb, .int c.thpEligible, .int c.recentScanHit,
    .str collectionId]

/-- A row of `thp_candidates`, which has the columns of a scan row. -/
def candidateRow (collectionId : PyStr) (c : THPCandidateRow) : Row Unit :=
  .ofValues scanColumns (candidateValues collectionId c) ()

/-- The columns of `thp_interventions`. -/
def interventionColumns : List PyStr :=
  ["intervention_id".toList, decisionIdColumn, "pid".toList, "tgid".toList, "ts_ns".toList,
    "start_addr".toList, "end_addr".toList, "age_bucket".toList, "success".toList,
    "error".toList, "command".toList, collectionIdColumn]

/-- The values of an intervention, in the order of `interventionColumns`. -/
def interventionValues (collectionId : PyStr) (iv : THPInterventionRow) : List Value :=
  [.str iv.interventionId, .str iv.decisionId, .int iv.pid, .int iv.tgid, .int iv.tsNs,
    .int iv.startAddr, .int iv.endAddr, .str (bucketText iv.ageBucket), .bool iv.success,
    .str iv.error, .str iv.command, .str collectionId]

/-- A row of `thp_interventions`. -/
def interventionRow (collectionId : PyStr) (iv : THPInterventionRow) : Row Unit :=
  .ofValues interventionColumns (interventionValues collectionId iv) ()

/-- **A run directory** holds what the hook wrote, in any chunks, and scans and collapses as their
schemas say. -/
structure WrittenTo (collectionId : PyStr) (w : World) (run : RunDir Unit) : Prop where
  candidates : (Table.rows (loadTable run candidatesTable)).Perm
    ((writtenCandidates w).map (candidateRow collectionId))
  interventions : (Table.rows (loadTable run interventionsTable)).Perm
    ((writtenInterventions w).map (interventionRow collectionId))
  scans : ∀ r ∈ Table.rows (loadTable run scansTable), IntCells scanIntColumns r
  collapses : ∀ r ∈ Table.rows (loadTable run collapsesTable), IntCells ["ts_ns".toList] r

/-! ### The code -/

/-- `bool(value)`. -/
def truth : Value → Bool
  | .null => false
  | .bool b => b
  | .int n => n ≠ 0
  | .float q => q ≠ 0
  | .str s => s ≠ []

section Code

variable [Python]

/-- A row of the candidates, by the columns that are read. -/
def candidateOf (r : Row Unit) : CandidateRow where
  decisionId := toStr (r.cells decisionIdColumn)
  pid := Polars.Engine.sortKey (r.cells "pid".toList)
  tgid := Polars.Engine.sortKey (r.cells "tgid".toList)
  tsNs := Polars.Engine.sortKey (r.cells "ts_ns".toList)
  candidateType := toStr (r.cells "candidate_type".toList)
  ageSec := (r.cells "age_sec".toList).castFloat64.getD 0
  ageCensored := truth (r.cells "age_censored".toList)

/-- A row of `thp_interventions`, by the columns that are read. -/
def interventionOf (r : Row Unit) : InterventionRow where
  interventionId := toStr (r.cells "intervention_id".toList)
  decisionId := toStr (r.cells decisionIdColumn)
  success := truth (r.cells "success".toList)
  collectionId := toStr (r.cells collectionIdColumn)

/-- `matches` of `process_thp_harness_run`. Each candidate has one row of features, if they are
computed for one second. -/
def matchesOf (call : Call) (E : Engine F) (featureOf : CandidateRow → FeatureRow F)
    (collectionId : PyStr) (run : RunDir Unit) : Except HarnessError (List (MatchRow F)) :=
  (augmentCandidatesWithScan call collectionId (loadTable run candidatesTable)
    (loadTable run scansTable) (loadTable run collapsesTable)).map fun candidates ↦
      let rows := (Table.rows candidates).map candidateOf
      let features1s := if 1000 ∈ call.windowMs then rows.map featureOf else []
      let decisions := makeDecisionDataset E rows features1s collectionId
      let interventions := (Table.rows (loadTable run interventionsTable)).map interventionOf
      if call.matchingEnabled && !decisions.isEmpty && !interventions.isEmpty then
        (matchInterventions decisions interventions).1
      else []

/-! ### Buckets that agree -/

/-- **The buckets agree**: that of a match is the one that was recorded with its intervention. -/
def BucketsAgree (call : Call) (E : Engine F) (featureOf : CandidateRow → FeatureRow F)
    (collectionId : PyStr) (w : World) (run : RunDir Unit) : Prop :=
  ∃ rows, matchesOf call E featureOf collectionId run = .ok rows ∧ ∀ m ∈ rows,
    ∀ iv ∈ w.interventions, iv.interventionId = m.interventionId → m.ageBucket = iv.ageBucket

/-- The age of a scan event is not known: its process has no collapse, or has one later. -/
def AgeUnknown (scans collapses : Table) (scan : Row Unit) : Prop :=
  (∀ n, ¬ CollapsedAt collapses (scans.mm scan) n) ∨
    ∃ n, CollapsedAt collapses (scans.mm scan) n ∧ tsNs scan < n

/-- **Something is compared to a candidate**: within a minute, there is another candidate or a scan
event without a known age. -/
def Compared (w : World) (run : RunDir Unit) (c : THPCandidateRow) : Prop :=
  (∃ c' ∈ writtenCandidates w, c'.decisionId ≠ c.decisionId ∧
    |c'.tsNs - c.tsNs| ≤ 60 * 10 ^ 9) ∨
  ∃ scan ∈ Table.rows (loadTable run scansTable), |tsNs scan - c.tsNs| ≤ 60 * 10 ^ 9 ∧
    AgeUnknown (loadTable run scansTable) (loadTable run collapsesTable) scan

/-- **No split is compared.** -/
def NoneCompared (w : World) (run : RunDir Unit) : Prop :=
  ∀ iv ∈ writtenInterventions w, iv.success = true → ∀ c ∈ writtenCandidates w,
    c.decisionId = iv.decisionId → ¬ Compared w run c

end Code

/-! ### Decisions with one row of features -/

section Decisions

variable {E : Engine F} {featureOf : CandidateRow → FeatureRow F} {rows : List CandidateRow}
  {collectionId : PyStr} {iv : InterventionRow} {m : MatchRow F} {c : CandidateRow}

omit [PyFloat F] in
/-- The features of a candidate are the only ones of its id. -/
theorem filter_map_featureOf (hfeature : ∀ c, (featureOf c).decisionId = c.decisionId)
    (hnd : (rows.map CandidateRow.decisionId).Nodup) (hc : c ∈ rows) :
    (rows.map featureOf).filter (fun f ↦ f.decisionId = c.decisionId) = [featureOf c] := by
  obtain ⟨pre, post, rfl⟩ := List.append_of_mem hc
  have hperm := (List.perm_middle.map CandidateRow.decisionId).nodup_iff.1 hnd
  rw [List.map_cons, List.nodup_cons] at hperm
  have hother : ∀ c' ∈ pre ++ post, ¬ (featureOf c').decisionId = c.decisionId :=
    fun c' hc' heq ↦ hperm.1 (List.mem_map.2 ⟨c', hc', (hfeature c').symm.trans heq⟩)
  have hnone : ∀ l : List CandidateRow, (∀ c' ∈ l, c' ∈ pre ++ post) →
      (l.map featureOf).filter (fun f ↦ f.decisionId = c.decisionId) = [] := by
    refine fun l hl ↦ List.filter_eq_nil_iff.2 fun f hf hid ↦ ?_
    obtain ⟨c', hc', rfl⟩ := List.mem_map.1 hf
    exact hother c' (hl c' hc') (of_decide_eq_true hid)
  rw [List.map_append, List.map_cons, List.filter_append, hnone pre fun _ ↦ List.mem_append_left _,
    List.nil_append, List.filter_cons_of_pos (by rw [hfeature, decide_eq_true rfl]),
    hnone post fun _ ↦ List.mem_append_right _]

/-- **The decisions** are the candidates, in some order. -/
theorem perm_decisions (hfeature : ∀ c, (featureOf c).decisionId = c.decisionId)
    (hnd : (rows.map CandidateRow.decisionId).Nodup) :
    (makeDecisionDataset E rows (rows.map featureOf) collectionId).Perm
      (rows.map fun c ↦ decision collectionId (c, featureOf c)) := by
  have hjoin : (rows.flatMap fun c ↦ ((rows.map featureOf).filter
      fun f ↦ f.decisionId = c.decisionId).map fun f ↦ (c, f)) =
      rows.map fun c ↦ (c, featureOf c) := by
    refine (List.flatMap_congr fun c hc ↦ ?_).trans List.map_eq_flatMap.symm
    rw [filter_map_featureOf hfeature hnd hc]
    rfl
  rw [makeDecisionDataset]
  split_ifs with hempty
  · rw [List.isEmpty_map, Bool.or_self, List.isEmpty_iff] at hempty
    rw [hempty]
    exact .refl _
  · have hperm := (E.join_perm rows (rows.map featureOf)).map (decision collectionId)
    rwa [hjoin, List.map_map] at hperm

theorem nodup_decisions (hfeature : ∀ c, (featureOf c).decisionId = c.decisionId)
    (hnd : (rows.map CandidateRow.decisionId).Nodup) :
    ((makeDecisionDataset E rows (rows.map featureOf) collectionId).map
      DecisionRow.decisionId).Nodup := by
  rw [((perm_decisions hfeature hnd).map DecisionRow.decisionId).nodup_iff, List.map_map]
  exact hnd

/-- A pair is that of a decision with a comparable one. -/
theorem exists_control_of_pairOf {decisions : List (DecisionRow F)} {decisionId : PyStr}
    {treated : DecisionRow F} {best : F × DecisionRow F}
    (h : pairOf decisions decisionId = some (treated, best)) :
    (byId decisions).get? decisionId = some treated ∧
      ∃ row ∈ decisions, IsControl decisionId treated row := by
  obtain ⟨treated', hget, h⟩ := Option.bind_eq_some_iff.1 h
  obtain ⟨best', hbest, heq⟩ := Option.map_eq_some_iff.1 h
  obtain ⟨rfl, rfl⟩ := Prod.mk.inj heq
  refine ⟨hget, ?_⟩
  by_contra hnone
  rw [sortedControls_eq_nil_iff.2 hnone] at hbest
  exact Option.some_ne_none _ hbest.symm

/-- **An intervention has a match** where another candidate is comparable to its own. -/
theorem exists_matchOf_iff (E : Engine F) (collectionId : PyStr) (iv : InterventionRow)
    (hfeature : ∀ c, (featureOf c).decisionId = c.decisionId)
    (hnd : (rows.map CandidateRow.decisionId).Nodup) (hc : c ∈ rows)
    (hid : c.decisionId = iv.decisionId) :
    (∃ m, matchOf (makeDecisionDataset E rows (rows.map featureOf) collectionId) iv = some m) ↔
      ∃ c' ∈ rows, Comparable c c' := by
  have hhas : ∀ c ∈ rows, HasFeatures (rows.map featureOf) c := fun c hc ↦
    ⟨featureOf c, List.mem_map_of_mem hc, hfeature c⟩
  have hdecisions : ((makeDecisionDataset E rows (rows.map featureOf) collectionId).map
      DecisionRow.decisionId).Nodup := nodup_decisions hfeature hnd
  have hmatched := matched_iff hdecisions hc (hhas c hc)
  have hcomparable : (∃ c' ∈ rows, HasFeatures (rows.map featureOf) c' ∧ Comparable c c') ↔
      ∃ c' ∈ rows, Comparable c c' :=
    exists_congr fun c' ↦ and_congr_right fun hc' ↦ and_iff_right (hhas c' hc')
  rw [← hcomparable, ← hmatched, hid]
  constructor
  · rintro ⟨m, hm⟩
    obtain ⟨treated, d, control, hpair, -⟩ := matchOf_eq_some.1 hm
    obtain ⟨hget, row, hrow, hcontrol⟩ := exists_control_of_pairOf hpair
    exact ⟨treated, hget, row, hrow, hcontrol⟩
  · rintro ⟨treated, hget, row, hrow, hcontrol⟩
    obtain ⟨d, control, hpair⟩ := exists_pairOf hget (mem_controls.2 ⟨hrow, hcontrol⟩)
    exact ⟨_, matchOf_eq_some.2 ⟨treated, d, control, hpair, rfl⟩⟩

/-- **A match** has the bucket of the candidate that the intervention names. -/
theorem ageBucket_of_matchOf (hfeature : ∀ c, (featureOf c).decisionId = c.decisionId)
    (hnd : (rows.map CandidateRow.decisionId).Nodup)
    (hm : matchOf (makeDecisionDataset E rows (rows.map featureOf) collectionId) iv = some m) :
    m.interventionId = iv.interventionId ∧ ∃ c ∈ rows, c.decisionId = iv.decisionId ∧
      m.ageBucket = ageBucketFor (some c.ageSec) c.ageCensored := by
  obtain ⟨treated, d, control, hpair, rfl⟩ := matchOf_eq_some.1 hm
  obtain ⟨htreated, hid⟩ := (get?_byId (nodup_decisions hfeature hnd)).1
    (exists_control_of_pairOf hpair).1
  obtain ⟨c, hc, f, -, -, rfl⟩ := mem_makeDecisionDataset.1 htreated
  exact ⟨rfl, c, hc, hid, rfl⟩

end Decisions

/-! ### The candidates of a run -/

section Candidates

variable {collectionId : PyStr} {w : World} {run : RunDir Unit} {c : THPCandidateRow}
  {iv : THPInterventionRow}

omit [PyFloat F]

theorem mem_candidates_of_written (hc : c ∈ writtenCandidates w) : c ∈ w.candidates :=
  List.mem_append_left _ hc

theorem mem_interventions_of_written (hiv : iv ∈ writtenInterventions w) : iv ∈ w.interventions :=
  List.mem_append_left _ hiv

/-- The id of a candidate is not that of a scan event. -/
theorem candId_ne_scanId (collectionId : PyStr) (m n : ℕ) :
    candId collectionId m ≠ scanId collectionId n := by
  intro h
  rw [candId, scanId, List.append_assoc, List.append_assoc, List.append_cancel_left_eq] at h
  have hsecond : some 'c' = some 's' := congrArg (fun l : List Char ↦ l[1]?) h
  exact absurd hsecond (by decide)

/-- The ids of a run are numbered. -/
theorem exists_candId (hnumbered : Numbered w) (hcollection : w.hook.collectionId = collectionId)
    (hc : c ∈ w.candidates) : ∃ n, c.decisionId = candId collectionId n := by
  have hid := List.mem_map_of_mem (f := THPCandidateRow.decisionId) hc
  rw [hnumbered, hcollection] at hid
  obtain ⟨n, -, hn⟩ := List.mem_map.1 hid
  exact ⟨n, hn.symm⟩

/-- **What the rows of a run say**: ids are numbered, interventions name candidates and have a
bucket, and candidates are censored. -/
structure Traced (collectionId : PyStr) (w : World) : Prop where
  numbered : Numbered w
  collection : w.hook.collectionId = collectionId
  named : ∀ iv ∈ w.interventions, ∃ n, iv.decisionId = candId collectionId n
  censored : ∀ c ∈ w.candidates, c.ageCensored = true
  known : ∀ iv ∈ w.interventions, iv.ageBucket ≠ .unknown

theorem traced_of_exec [Python] {h : HugepageHarness} {startNs : ℤ} {ls : List (Input × Draws)}
    (hclock : (ls.filterMap pollTime).Pairwise (· ≤ ·))
    (hrun : Run.exec (step h) (start collectionId startNs) ls = some w) :
    Traced collectionId w := by
  have hkept : Kept h startNs w :=
    Run.exec_invariant (fun _ _ _ ↦ kept_step) (kept_start h collectionId startNs) hrun
  have hcollection : w.hook.collectionId = collectionId := collectionId_of_exec hrun
  obtain ⟨now, hages⟩ := ages_of_start hclock hrun
  refine ⟨hkept.numbered, hcollection, fun iv hiv ↦ ?_, hages.censored, hages.known⟩
  obtain ⟨c, hc, hid⟩ := List.mem_map.1 (hkept.named.subset (List.mem_map_of_mem hiv))
  obtain ⟨n, hn⟩ := exists_candId hkept.numbered hcollection (List.mem_filter.1 hc).1
  exact ⟨n, hid.symm.trans hn⟩

theorem Traced.exists_candId (h : Traced collectionId w) (hc : c ∈ writtenCandidates w) :
    ∃ n, c.decisionId = candId collectionId n :=
  Matching.exists_candId h.numbered h.collection (mem_candidates_of_written hc)

theorem Traced.ageCensored (h : Traced collectionId w) (hc : c ∈ writtenCandidates w) :
    c.ageCensored = true :=
  h.censored c (mem_candidates_of_written hc)

theorem isCandidate_candidateRow (collectionId : PyStr) (c : THPCandidateRow) :
    IsCandidate (candidateRow collectionId c) :=
  ⟨⟨_, rfl⟩, ⟨_, rfl⟩, ⟨_, rfl⟩⟩

variable [Python]

/-- What is read of a row that was written. -/
theorem candidateOf_candidateRow (collectionId : PyStr) (c : THPCandidateRow) :
    candidateOf (candidateRow collectionId c) =
      ⟨c.decisionId, c.pid, c.tgid, c.tsNs, typeText c.candidateType, c.ageSec, c.ageCensored⟩ :=
  rfl

theorem interventionOf_interventionRow (collectionId : PyStr) (iv : THPInterventionRow) :
    interventionOf (interventionRow collectionId iv) =
      ⟨iv.interventionId, iv.decisionId, iv.success, collectionId⟩ := rfl

omit [Python] in
/-- **What is written can be merged** with the scan events. -/
theorem WrittenTo.scanInputs (h : WrittenTo collectionId w run) (htraced : Traced collectionId w) :
    ScanInputs collectionId (loadTable run candidatesTable) (loadTable run scansTable)
      (loadTable run collapsesTable) := by
  refine ⟨fun r hr ↦ ?_, h.scans, h.collapses, fun id hid hscan ↦ ?_⟩
  · obtain ⟨c, -, rfl⟩ := List.mem_map.1 (h.candidates.mem_iff.1 hr)
    exact isCandidate_candidateRow collectionId c
  · obtain ⟨r, hr, rfl⟩ := List.mem_map.1 hid
    obtain ⟨c, hc, rfl⟩ := List.mem_map.1 (h.candidates.mem_iff.1 hr)
    obtain ⟨m, hm⟩ := htraced.exists_candId hc
    obtain ⟨n, -, hn⟩ := List.mem_map.1 hscan
    exact candId_ne_scanId collectionId m n (hm.symm.trans (Value.str.inj hn).symm)

/-- **The candidates after the merge**: those that were written, as they were, and the scan rows. -/
structure Augmented (call : Call) (collectionId : PyStr) (w : World) (run : RunDir Unit)
    (t : Table) : Prop where
  eq : augmentCandidatesWithScan call collectionId (loadTable run candidatesTable)
    (loadTable run scansTable) (loadTable run collapsesTable) = .ok t
  nodup : ((t.rows.map candidateOf).map CandidateRow.decisionId).Nodup
  written : ∀ c ∈ writtenCandidates w, candidateRow collectionId c ∈ t.rows
  cases : ∀ r ∈ t.rows, (∃ c ∈ writtenCandidates w, candidateRow collectionId c = r) ∨
    ∃ f idx byMm scan, IsScanRow call collectionId (loadTable run scansTable)
      (loadTable run collapsesTable) f idx byMm scan r

theorem WrittenTo.exists_augmented (h : WrittenTo collectionId w run)
    (htraced : Traced collectionId w) (call : Call) :
    ∃ t, Augmented call collectionId w run t := by
  have hinputs := h.scanInputs htraced
  obtain ⟨scanTable, hscan, hscanCandidate, hmem⟩ := hinputs.exists_scanFrame call
  obtain ⟨t, ht, hsub, hnd, hids⟩ := augmentCandidatesWithScan_of_scanFrame call collectionId
    hinputs.candidate hscan hscanCandidate
  have hcases : ∀ r ∈ t.rows, (∃ c ∈ writtenCandidates w, candidateRow collectionId c = r) ∨
      ∃ f idx byMm scan, IsScanRow call collectionId (loadTable run scansTable)
        (loadTable run collapsesTable) f idx byMm scan r := fun r hr ↦
    (List.mem_append.1 (hsub r hr)).imp
      (fun hr ↦ List.mem_map.1 (h.candidates.mem_iff.1 hr)) (hmem r).1
  refine ⟨t, ht, ?_, fun c hc ↦ ?_, hcases⟩
  · have hcells : ids t.rows = ((t.rows.map candidateOf).map CandidateRow.decisionId).map .str := by
      rw [ids, List.map_map, List.map_map]
      refine List.map_congr_left fun r hr ↦ ?_
      have hcandidate : IsCandidate r := (List.mem_append.1 (hsub r hr)).elim
        (hinputs.candidate r) (hscanCandidate r)
      obtain ⟨id, hid⟩ := hcandidate.id
      show r.cells decisionIdColumn = .str (toStr (r.cells decisionIdColumn))
      rw [hid]
      rfl
    rw [hcells] at hnd
    exact hnd.of_map
  · have hmerged : candidateRow collectionId c ∈
        Table.rows (loadTable run candidatesTable) ++ scanTable.rows :=
      List.mem_append_left _ (h.candidates.mem_iff.2 (List.mem_map_of_mem hc))
    obtain ⟨r, hr, hid⟩ := List.mem_map.1 ((hids _).2 (List.mem_map_of_mem hmerged))
    rcases hcases r hr with ⟨c', hc', rfl⟩ | ⟨f, idx, byMm, scan, hrow⟩
    · have hsame := htraced.numbered.eq_of_decisionId (mem_candidates_of_written hc')
        (mem_candidates_of_written hc) (Value.str.inj hid)
      rwa [hsame] at hr
    · obtain ⟨n, hn⟩ := htraced.exists_candId hc
      have hscanId := (hinputs.decisionId_eq hrow).symm.trans hid
      exact absurd ((Value.str.inj hscanId).trans hn).symm
        (candId_ne_scanId collectionId n (idx + 1))

/-! ### Comparable candidates -/

/-- **A scan row** has no bucket where its age is not known. -/
theorem candidateOf_scanRow {call : Call} {candidates scans collapses : Table} {f : Frame Unit}
    {idx : ℕ} {byMm : Dict PyStr ℤ} {scan r : Row Unit}
    (hinputs : ScanInputs collectionId candidates scans collapses)
    (hseconds : ∀ n, call.seconds n < 0 ↔ n < 0)
    (hrow : IsScanRow call collectionId scans collapses f idx byMm scan r) :
    (candidateOf r).decisionId = scanId collectionId (idx + 1) ∧ (candidateOf r).tsNs = tsNs scan ∧
      (ageBucketFor (some (candidateOf r).ageSec) (candidateOf r).ageCensored = .unknown ↔
        AgeUnknown scans collapses scan) := by
  obtain ⟨rfl, hevent, hlast, values, hmade, rfl⟩ := hrow
  obtain ⟨pid, tgid, referenced, noneOrZero, writable, status, rfl⟩ :=
    scanRow_eq (List.mem_of_getElem? hevent) (hinputs.intCells hevent) hmade
  refine ⟨rfl, rfl, ?_⟩
  show ageBucketFor (some ((byMm.get? (mmOf f scan)).elim 0 fun ts ↦ call.seconds (tsNs scan - ts)))
    (byMm.get? (mmOf f scan)).isNone = .unknown ↔ _
  rcases get?_lastCollapses hlast hinputs.collapse (mmOf f scan) with
    ⟨n, hget, hn, hmax⟩ | ⟨hget, hnone⟩
  · rw [hget]
    show ageBucketFor (some (call.seconds (tsNs scan - n))) false = .unknown ↔ _
    rcases lt_or_ge (tsNs scan) n with hlater | hbefore
    · refine iff_of_true (ageBucketFor_of_neg ((hseconds _).2 (sub_neg.2 hlater))) ?_
      exact .inr ⟨n, hn, hlater⟩
    · have hage : 0 ≤ call.seconds (tsNs scan - n) :=
        not_lt.1 fun hlt ↦ (sub_nonneg.2 hbefore).not_gt ((hseconds _).1 hlt)
      refine iff_of_false (ageBucketFor_ne_unknown hage) ?_
      rintro (hnone | ⟨m, hm, hlt⟩)
      · exact hnone n hn
      · exact ((hmax m hm).trans hbefore).not_gt hlt
  · rw [hget]
    exact iff_of_true rfl (.inl hnone)

/-- A candidate that was written has no bucket. -/
theorem comparable_iff (hc : c.ageCensored = true) {c' : CandidateRow} :
    Comparable (candidateOf (candidateRow collectionId c)) c' ↔
      c'.decisionId ≠ c.decisionId ∧ ageBucketFor (some c'.ageSec) c'.ageCensored = .unknown ∧
        |c'.tsNs - c.tsNs| ≤ 60 * 10 ^ 9 := by
  have hbucket : ageBucketFor (some c.ageSec) c.ageCensored = .unknown := by
    rw [hc]
    rfl
  rw [candidateOf_candidateRow, Comparable, hbucket]

/-- **What is compared to a candidate** are the comparable ones of the merge. -/
theorem Augmented.compared_iff {call : Call} {t : Table} (ht : Augmented call collectionId w run t)
    (htraced : Traced collectionId w) (hwritten : WrittenTo collectionId w run)
    (hseconds : ∀ n, call.seconds n < 0 ↔ n < 0) (hc : c ∈ writtenCandidates w) :
    (∃ c' ∈ t.rows.map candidateOf, Comparable (candidateOf (candidateRow collectionId c)) c') ↔
      Compared w run c := by
  have hinputs := hwritten.scanInputs htraced
  simp only [comparable_iff (htraced.ageCensored hc)]
  constructor
  · rintro ⟨_, hmem, hid, hbucket, hnear⟩
    obtain ⟨r, hr, rfl⟩ := List.mem_map.1 hmem
    rcases ht.cases r hr with ⟨c', hc', rfl⟩ | ⟨f, idx, byMm, scan, hrow⟩
    · exact .inl ⟨c', hc', hid, hnear⟩
    · obtain ⟨-, hts, hunknown⟩ := candidateOf_scanRow hinputs hseconds hrow
      refine .inr ⟨scan, ?_, hts ▸ hnear, hunknown.1 hbucket⟩
      rw [hrow.frame]
      exact List.mem_of_getElem? hrow.event
  · rintro (⟨c', hc', hid, hnear⟩ | ⟨scan, hscan, hnear, hage⟩)
    · refine ⟨_, List.mem_map_of_mem (ht.written c' hc'), hid, ?_, hnear⟩
      rw [candidateOf_candidateRow, htraced.ageCensored hc']
      rfl
    · obtain ⟨idx, hidx⟩ := List.mem_iff_getElem?.1 hscan
      obtain ⟨f, byMm, r, hrow⟩ := hinputs.exists_isScanRow call hidx
      obtain ⟨t', ht', hr, -⟩ := hinputs.scanCandidate_iff.2 ⟨f, idx, byMm, hrow⟩
      obtain rfl := Except.ok.inj (ht.eq.symm.trans ht')
      obtain ⟨hid, hts, hunknown⟩ := candidateOf_scanRow hinputs hseconds hrow
      refine ⟨_, List.mem_map_of_mem hr, ?_, hunknown.2 hage, hts.symm ▸ hnear⟩
      obtain ⟨n, hn⟩ := htraced.exists_candId hc
      rw [hid, hn]
      exact (candId_ne_scanId collectionId n (idx + 1)).symm

end Candidates

/-! ### The result -/

section Result

variable {E : Engine F} {featureOf : CandidateRow → FeatureRow F} {collectionId : PyStr}
  {w : World} {run : RunDir Unit} {call : Call} {t : Table} {m : MatchRow F}

/-- Without decisions or interventions there is no match. -/
theorem ite_matchInterventions (enabled : Bool) (decisions : List (DecisionRow F))
    (interventions : List InterventionRow) :
    (if enabled && !decisions.isEmpty && !interventions.isEmpty then
      (matchInterventions decisions interventions).1 else []) =
    if enabled then (matchInterventions decisions interventions).1 else [] := by
  by_cases hempty : (decisions.isEmpty || interventions.isEmpty) = true
  · have hnone : (matchInterventions decisions interventions).1 = [] := by
      rw [matchInterventions, if_pos hempty]
    rw [hnone, ite_self, ite_self]
  · rw [Bool.not_eq_true, Bool.or_eq_false_iff] at hempty
    rw [hempty.1, hempty.2, Bool.not_false, Bool.and_true, Bool.and_true]

variable [Python]

/-- **The matches** are those of the interventions that succeeded. -/
theorem mem_matchesOf (E : Engine F) (featureOf : CandidateRow → FeatureRow F)
    (ht : Augmented call collectionId w run t) (hwritten : WrittenTo collectionId w run) :
    ∃ rows, matchesOf call E featureOf collectionId run = .ok rows ∧ ∀ m, m ∈ rows ↔
      call.matchingEnabled = true ∧ 1000 ∈ call.windowMs ∧
        ∃ iv ∈ writtenInterventions w, iv.success = true ∧
          matchOf (makeDecisionDataset E (t.rows.map candidateOf)
            ((t.rows.map candidateOf).map featureOf) collectionId)
            (interventionOf (interventionRow collectionId iv)) = some m := by
  refine ⟨_, by rw [matchesOf, ht.eq]; rfl, fun m ↦ ?_⟩
  dsimp only
  rw [ite_matchInterventions]
  by_cases hwindow : 1000 ∈ call.windowMs
  · rw [if_pos hwindow]
    split_ifs with henabled
    · rw [mem_matchInterventions]
      constructor
      · rintro ⟨iv', hiv', hsuccess, hm⟩
        obtain ⟨r, hr, rfl⟩ := List.mem_map.1 hiv'
        obtain ⟨iv, hiv, rfl⟩ := List.mem_map.1 (hwritten.interventions.mem_iff.1 hr)
        exact ⟨henabled, hwindow, iv, hiv, hsuccess, hm⟩
      · rintro ⟨-, -, iv, hiv, hsuccess, hm⟩
        exact ⟨_, List.mem_map_of_mem (hwritten.interventions.mem_iff.2 (List.mem_map_of_mem hiv)),
          hsuccess, hm⟩
    · exact iff_of_false List.not_mem_nil fun h ↦ henabled h.1
  · -- without features there are no decisions
    have hdecisions : makeDecisionDataset E (t.rows.map candidateOf) [] collectionId = [] :=
      if_pos (Bool.or_true _)
    rw [if_neg hwindow, hdecisions]
    refine iff_of_false ?_ fun h ↦ hwindow h.2.1
    rw [show (matchInterventions ([] : List (DecisionRow F)) _).1 = [] from rfl, ite_self]
    exact List.not_mem_nil

variable (htraced : Traced collectionId w) (hwritten : WrittenTo collectionId w run)
  (hseconds : ∀ n, call.seconds n < 0 ↔ n < 0)
  (hfeature : ∀ c, (featureOf c).decisionId = c.decisionId)

include htraced hwritten hseconds in
omit [PyFloat F] in
/-- The candidate that an intervention names, in the merge. -/
theorem exists_written_of_decisionId (ht : Augmented call collectionId w run t)
    {iv : THPInterventionRow} (hiv : iv ∈ writtenInterventions w) {c₀ : CandidateRow}
    (hc₀ : c₀ ∈ t.rows.map candidateOf) (hid : c₀.decisionId = iv.decisionId) :
    ∃ c ∈ writtenCandidates w, candidateOf (candidateRow collectionId c) = c₀ := by
  obtain ⟨r, hr, rfl⟩ := List.mem_map.1 hc₀
  rcases ht.cases r hr with ⟨c, hc, rfl⟩ | ⟨f, idx, byMm, scan, hrow⟩
  · exact ⟨c, hc, rfl⟩
  · obtain ⟨n, hn⟩ := htraced.named iv (mem_interventions_of_written hiv)
    have hscanId := (candidateOf_scanRow (hwritten.scanInputs htraced) hseconds hrow).1
    exact absurd (hn.symm.trans (hid.symm.trans hscanId))
      (candId_ne_scanId collectionId n (idx + 1))

include htraced hwritten hseconds hfeature

/-- **A split that is compared** has a match, whose bucket is not the one that was recorded. -/
theorem not_bucketsAgree (E : Engine F) (henabled : call.matchingEnabled = true)
    (hwindow : 1000 ∈ call.windowMs) {iv : THPInterventionRow} (hiv : iv ∈ writtenInterventions w)
    (hsuccess : iv.success = true) {c : THPCandidateRow} (hc : c ∈ writtenCandidates w)
    (hid : c.decisionId = iv.decisionId) (hcompared : Compared w run c) :
    ¬ BucketsAgree call E featureOf collectionId w run := by
  rintro ⟨rows, hrows, hagree⟩
  obtain ⟨t, ht⟩ := hwritten.exists_augmented htraced call
  obtain ⟨rows', hrows', hmem⟩ := mem_matchesOf E featureOf ht hwritten
  obtain rfl := Except.ok.inj (hrows.symm.trans hrows')
  have hcomparable := (ht.compared_iff htraced hwritten hseconds hc).2 hcompared
  obtain ⟨m, hm⟩ := (exists_matchOf_iff E collectionId
    (interventionOf (interventionRow collectionId iv)) hfeature ht.nodup
    (List.mem_map_of_mem (ht.written c hc)) hid).2 hcomparable
  obtain ⟨hmid, c₀, hc₀, hc₀id, hbucket⟩ := ageBucket_of_matchOf hfeature ht.nodup hm
  obtain ⟨c', hc', rfl⟩ :=
    exists_written_of_decisionId htraced hwritten hseconds ht hiv hc₀ hc₀id
  have hunknown : m.ageBucket = .unknown := by
    rw [hbucket, candidateOf_candidateRow, htraced.ageCensored hc']
    rfl
  have hsame := hagree m ((hmem m).2 ⟨henabled, hwindow, iv, hiv, hsuccess, hm⟩) iv
    (mem_interventions_of_written hiv) hmid.symm
  exact htraced.known iv (mem_interventions_of_written hiv) (hsame.symm.trans hunknown)

/-- Without a split that is compared there is no match. -/
theorem bucketsAgree_of_noneCompared (E : Engine F)
    (hnone : call.matchingEnabled = true → 1000 ∈ call.windowMs → NoneCompared w run) :
    BucketsAgree call E featureOf collectionId w run := by
  obtain ⟨t, ht⟩ := hwritten.exists_augmented htraced call
  obtain ⟨rows, hrows, hmem⟩ := mem_matchesOf E featureOf ht hwritten
  refine ⟨rows, hrows, fun m hm ↦ ?_⟩
  obtain ⟨henabled, hwindow, iv, hiv, hsuccess, hmatch⟩ := (hmem m).1 hm
  obtain ⟨-, c₀, hc₀, hid, -⟩ := ageBucket_of_matchOf hfeature ht.nodup hmatch
  obtain ⟨c, hc, rfl⟩ := exists_written_of_decisionId htraced hwritten hseconds ht hiv hc₀ hid
  have hcomparable :=
    (exists_matchOf_iff E collectionId _ hfeature ht.nodup hc₀ hid).1 ⟨m, hmatch⟩
  have hcompared := (ht.compared_iff htraced hwritten hseconds hc).1 hcomparable
  exact absurd hcompared (hnone henabled hwindow iv hiv hsuccess c hc hid)

omit htraced hwritten hseconds hfeature in
/-- **The buckets agree, exactly where no split is compared.** -/
theorem bucketsAgree_iff (h : HugepageHarness) (collectionId : PyStr) (startNs : ℤ)
    (ls : List (Input × Draws)) (w : World)
    (hclock : (ls.filterMap pollTime).Pairwise (· ≤ ·))
    (hrun : Run.exec (step h) (start collectionId startNs) ls = some w) (run : RunDir Unit)
    (hwritten : WrittenTo collectionId w run) (call : Call)
    (hseconds : ∀ n, call.seconds n < 0 ↔ n < 0) (E : Engine F)
    (featureOf : CandidateRow → FeatureRow F)
    (hfeature : ∀ c, (featureOf c).decisionId = c.decisionId) :
    BucketsAgree call E featureOf collectionId w run ↔
      (call.matchingEnabled = true → 1000 ∈ call.windowMs → NoneCompared w run) := by
  have htraced := traced_of_exec hclock hrun
  constructor
  · intro hagree henabled hwindow iv hiv hsuccess c hc hid hcompared
    exact not_bucketsAgree htraced hwritten hseconds hfeature E henabled hwindow hiv hsuccess hc
      hid hcompared hagree
  · exact bucketsAgree_of_noneCompared htraced hwritten hseconds hfeature E

end Result

/-! ### Examples -/

section Examples

theorem scanColumns_ne_nil : scanColumns ≠ [] := List.cons_ne_nil _ _

theorem nodup_scanColumns : scanColumns.Nodup := by decide

/-- The directory of a run without scans and collapses: both tables are in their `end` chunk. -/
def endChunks (collectionId : PyStr) (w : World) : RunDir Unit where
  items :=
    [("thp_candidates.end.parquet".toList, .ofRows scanColumns scanColumns_ne_nil nodup_scanColumns
        ((writtenCandidates w).map fun c ↦ (candidateValues collectionId c, ()))),
      ("thp_interventions.end.parquet".toList, .ofRows interventionColumns (by decide) (by decide)
        ((writtenInterventions w).map fun iv ↦ (interventionValues collectionId iv, ())))]
  nodupKeys := by
    show ["thp_candidates.end.parquet".toList, "thp_interventions.end.parquet".toList].Nodup
    decide

theorem writtenTo_endChunks (collectionId : PyStr) (w : World) :
    WrittenTo collectionId w (endChunks collectionId w) where
  candidates := .of_eq (List.map_map ..)
  interventions := .of_eq (List.map_map ..)
  scans _ hr := absurd hr List.not_mem_nil
  collapses _ hr := absurd hr List.not_mem_nil

/-- The call that matches, with features of one second. -/
def matchingCall : Call :=
  { plainCall with
    windowMs := [1000]
    matchingEnabled := true }

theorem matchingCall_seconds (n : ℤ) : matchingCall.seconds n < 0 ↔ n < 0 := plainCall_seconds n

/-- The run that polls once. -/
def polledOnce : List (Input × Draws) :=
  [(.poll twoRegions, firstThenSecond), (.popData, firstThenSecond)]

/-- The run that polls twice, ten seconds apart. -/
def polledTwice : List (Input × Draws) :=
  [(.poll twoRegions, firstThenSecond),
    (.poll { twoRegions with nowNs := 110000000000 }, firstThenSecond),
    (.popData, firstThenSecond)]

/-- The only candidate of a run has no other within a minute. -/
theorem bucketsAgree_polledOnce :
    ∃ w, Run.exec (@step Python.ascii redisHarness) (start "run-abc".toList 0) polledOnce = some w ∧
      @BucketsAgree ℚ _ Python.ascii matchingCall nestedLoop (fun c ↦ feature c.decisionId)
        "run-abc".toList w (endChunks "run-abc".toList w) := by
  let _ := Python.ascii
  have hids : (Run.exec (step redisHarness) (start "run-abc".toList 0) polledOnce).map
      (fun w ↦ (writtenCandidates w).map THPCandidateRow.decisionId) =
        some ["run-abc-cand-1".toList] := by
    decide +kernel
  obtain ⟨w, hw, hids⟩ := Option.map_eq_some_iff.1 hids
  refine ⟨w, hw, (bucketsAgree_iff redisHarness _ 0 polledOnce w (List.pairwise_singleton _ _) hw _
    (writtenTo_endChunks _ w) matchingCall matchingCall_seconds nestedLoop _ fun _ ↦ rfl).2
    fun _ _ iv _ _ c hc _ hcompared ↦ ?_⟩
  have honly : ∀ c ∈ writtenCandidates w, c.decisionId = "run-abc-cand-1".toList := fun c hc ↦
    List.mem_singleton.1 (hids ▸ List.mem_map_of_mem hc)
  rcases hcompared with ⟨c', hc', hother, -⟩ | ⟨scan, hscan, -⟩
  · exact hother ((honly c' hc').trans (honly c hc).symm)
  · exact List.not_mem_nil hscan

/-- **A split within a minute of another candidate** has a match without a bucket. -/
theorem not_bucketsAgree_polledTwice :
    ∃ w, Run.exec (@step Python.ascii redisHarness) (start "run-abc".toList 0) polledTwice =
        some w ∧
      ¬ @BucketsAgree ℚ _ Python.ascii matchingCall nestedLoop (fun c ↦ feature c.decisionId)
        "run-abc".toList w (endChunks "run-abc".toList w) := by
  let _ := Python.ascii
  have hrows : (Run.exec (step redisHarness) (start "run-abc".toList 0) polledTwice).map
      (fun w ↦ decide (∃ iv ∈ writtenInterventions w, iv.success = true ∧
        ∃ c ∈ writtenCandidates w, c.decisionId = iv.decisionId ∧
          ∃ c' ∈ writtenCandidates w, c'.decisionId ≠ c.decisionId ∧
            |c'.tsNs - c.tsNs| ≤ 60 * 10 ^ 9)) = some true := by
    decide +kernel
  obtain ⟨w, hw, hrows⟩ := Option.map_eq_some_iff.1 hrows
  obtain ⟨iv, hiv, hsuccess, c, hc, hid, hother⟩ := of_decide_eq_true hrows
  exact ⟨w, hw, not_bucketsAgree (traced_of_exec (by decide) hw) (writtenTo_endChunks _ w)
    matchingCall_seconds (fun _ ↦ rfl) nestedLoop rfl (by decide) hiv hsuccess hc hid (.inl hother)⟩

end Examples

end Analysis.Matching
