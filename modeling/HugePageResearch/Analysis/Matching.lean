import HugePageResearch.Thp.InterventionHook
import Mathlib.Data.List.Sort

/-!
# Decisions and interventions

`_make_decision_dataset` and `_match_interventions` of `analysis/thp_harness.py`. A decision is a
candidate with its window features, and is not intervened at first. Each successful intervention is
then compared with the closest decision of the same age bucket within a minute, its control, and the
decision that it names is marked.

## The result

`marks_iff`: the decisions that are marked are those that a successful intervention names, exactly
where each of these has a control. A split without one is skipped before the mark.
-/

namespace Analysis.Matching

open Thp (AgeBucket ageBucketFor)

variable {F : Type*}

/-! ### The code -/

/-- What is computed with floats. -/
class PyFloat (F : Type*) where
  add : F → F → F
  sub : F → F → F
  mul : F → F → F
  neg : F → F
  sq : F → F
  sqrt : F → F
  zero : F
  /-- `0.1`. -/
  tenth : F
  lt : F → F → Bool
  le : F → F → Bool

open PyFloat

/-- A row of `candidates`, by the columns that are read. -/
structure CandidateRow where
  decisionId : PyStr
  pid : ℤ
  tgid : ℤ
  tsNs : ℤ
  candidateType : PyStr
  ageSec : ℚ
  ageCensored : Bool

/-- A row of `features_1s`, by the columns that are selected. -/
structure FeatureRow (F : Type*) where
  decisionId : PyStr
  windowMs : ℤ
  missRatePre : F
  walkRatePre : F
  deltaMissRate : F
  deltaWalkRate : F
  deltaTlbFlushRate : F

/-- A row of the decision dataset. -/
structure DecisionRow (F : Type*) where
  decisionId : PyStr
  pid : ℤ
  tgid : ℤ
  tsNs : ℤ
  candidateType : PyStr
  ageSec : ℚ
  ageCensored : Bool
  windowMs : ℤ
  missRatePre : F
  walkRatePre : F
  deltaMissRate : F
  deltaWalkRate : F
  deltaTlbFlushRate : F
  utilityScore : F
  labelSplitPreferred : Bool
  labelKeepPreferred : Bool
  isIntervened : Bool
  matchedControlDecisionId : PyStr
  collectionId : PyStr

/-- A row of `thp_interventions`, by the columns that are read. -/
structure InterventionRow where
  interventionId : PyStr
  decisionId : PyStr
  success : Bool
  collectionId : PyStr

/-- A row of the matches. -/
structure MatchRow (F : Type*) where
  interventionId : PyStr
  decisionIdTreated : PyStr
  decisionIdControl : PyStr
  distance : F
  ageBucket : AgeBucket
  collectionId : PyStr

/-- `candidates.join(features_1s, on="decision_id", how="inner")`, in any order. -/
structure Engine (F : Type*) where
  join : List CandidateRow → List (FeatureRow F) → List (CandidateRow × FeatureRow F)
  join_perm : ∀ l r, (join l r).Perm
    (l.flatMap fun c ↦ (r.filter fun f ↦ f.decisionId = c.decisionId).map fun f ↦ (c, f))

/-- The rows in the order of a nested loop. -/
def nestedLoop : Engine F where
  join l r := l.flatMap fun c ↦ (r.filter fun f ↦ f.decisionId = c.decisionId).map fun f ↦ (c, f)
  join_perm _ _ := .refl _

variable [PyFloat F]

/-- `utility_score`. -/
def utilityScore (f : FeatureRow F) : F :=
  sub (neg (add f.deltaMissRate f.deltaWalkRate)) (mul tenth f.deltaTlbFlushRate)

/-- The decision for a joined row. -/
def decision (collectionId : PyStr) (p : CandidateRow × FeatureRow F) : DecisionRow F where
  decisionId := p.1.decisionId
  pid := p.1.pid
  tgid := p.1.tgid
  tsNs := p.1.tsNs
  candidateType := p.1.candidateType
  ageSec := p.1.ageSec
  ageCensored := p.1.ageCensored
  windowMs := p.2.windowMs
  missRatePre := p.2.missRatePre
  walkRatePre := p.2.walkRatePre
  deltaMissRate := p.2.deltaMissRate
  deltaWalkRate := p.2.deltaWalkRate
  deltaTlbFlushRate := p.2.deltaTlbFlushRate
  utilityScore := utilityScore p.2
  labelSplitPreferred := lt (utilityScore p.2) zero
  labelKeepPreferred := le zero (utilityScore p.2)
  isIntervened := false
  matchedControlDecisionId := []
  collectionId

/-- `_make_decision_dataset`. -/
def makeDecisionDataset (E : Engine F) (candidates : List CandidateRow)
    (features1s : List (FeatureRow F)) (collectionId : PyStr) : List (DecisionRow F) :=
  if candidates.isEmpty || features1s.isEmpty then []
  else (E.join candidates features1s).map (decision collectionId)

/-- `by_id`. -/
def byId (decisionRows : List (DecisionRow F)) : Dict PyStr (DecisionRow F) :=
  decisionRows.foldl (fun d row ↦ d.set row.decisionId row) .empty

/-- `age_bucket_for(float(row["age_sec"]), censored=bool(row["age_censored"]))`. -/
def DecisionRow.bucket (row : DecisionRow F) : AgeBucket :=
  ageBucketFor (some row.ageSec) row.ageCensored

/-- The distance of two decisions. -/
def dist (row treated : DecisionRow F) : F :=
  sqrt (add (add (add (sq (sub row.missRatePre treated.missRatePre))
    (sq (sub row.walkRatePre treated.walkRatePre)))
    (sq (sub row.deltaMissRate treated.deltaMissRate)))
    (sq (sub row.deltaWalkRate treated.deltaWalkRate)))

/-- A decision is a candidate for the control of another one. -/
def IsControl (treatedId : PyStr) (treated row : DecisionRow F) : Prop :=
  row.decisionId ≠ treatedId ∧ row.bucket = treated.bucket ∧
    |row.tsNs - treated.tsNs| ≤ 60 * 10 ^ 9

instance (treatedId : PyStr) (treated : DecisionRow F) :
    DecidablePred (IsControl treatedId treated) :=
  fun _ ↦ inferInstanceAs (Decidable (_ ∧ _ ∧ _))

/-- `candidates`, sorted by the distance. -/
def sortedControls (decisionRows : List (DecisionRow F)) (treatedId : PyStr)
    (treated : DecisionRow F) : List (F × DecisionRow F) :=
  ((decisionRows.filter fun row ↦ IsControl treatedId treated row).map
    fun row ↦ (dist row treated, row)).insertionSort fun a b ↦ !lt b.1 a.1

/-- `split_preferred`. -/
def splitPreferred (treated control : DecisionRow F) : Bool :=
  lt (add treated.deltaMissRate treated.deltaWalkRate)
    (add control.deltaMissRate control.deltaWalkRate)

/-- The four `with_columns` of a match. -/
def mark (treatedId controlId : PyStr) (splitPreferred : Bool) (row : DecisionRow F) :
    DecisionRow F :=
  if row.decisionId = treatedId then
    { row with
      isIntervened := true
      matchedControlDecisionId := controlId
      labelSplitPreferred := splitPreferred
      labelKeepPreferred := !splitPreferred }
  else row

/-- One round of the loop over the interventions. -/
def matchStep (decisionRows : List (DecisionRow F)) (s : List (MatchRow F) × List (DecisionRow F))
    (iv : InterventionRow) : List (MatchRow F) × List (DecisionRow F) :=
  match (byId decisionRows).get? iv.decisionId with
  | none => s
  | some treated =>
    match sortedControls decisionRows iv.decisionId treated with
    -- `continue`, before the mark
    | [] => s
    | (bestDist, control) :: _ =>
      (s.1 ++ [⟨iv.interventionId, iv.decisionId, control.decisionId, bestDist, treated.bucket,
        iv.collectionId⟩],
      s.2.map (mark iv.decisionId control.decisionId (splitPreferred treated control)))

/-- `_match_interventions`. -/
def matchInterventions (decisions : List (DecisionRow F)) (interventions : List InterventionRow) :
    List (MatchRow F) × List (DecisionRow F) :=
  if decisions.isEmpty || interventions.isEmpty then ([], decisions)
  else
    let successful := interventions.filter fun iv ↦ iv.success
    if successful.isEmpty then ([], decisions)
    else successful.foldl (matchStep decisions) ([], decisions)

/-! ### Marked decisions -/

/-- A successful intervention names the decision. -/
def Intervened (interventions : List InterventionRow) (decisionId : PyStr) : Prop :=
  ∃ iv ∈ interventions, iv.success = true ∧ iv.decisionId = decisionId

/-- **The decisions that are marked** are those that a successful intervention names. -/
def Marks (E : Engine F) (candidates : List CandidateRow) (features1s : List (FeatureRow F))
    (interventions : List InterventionRow) (collectionId : PyStr) : Prop :=
  ∀ row ∈ (matchInterventions (makeDecisionDataset E candidates features1s collectionId)
    interventions).2, row.isIntervened = true ↔ Intervened interventions row.decisionId

/-- A candidate with features. -/
def HasFeatures (features1s : List (FeatureRow F)) (c : CandidateRow) : Prop :=
  ∃ f ∈ features1s, f.decisionId = c.decisionId

/-- Another candidate of the same age bucket, within a minute. -/
def Comparable (c c' : CandidateRow) : Prop :=
  c'.decisionId ≠ c.decisionId ∧
    ageBucketFor (some c'.ageSec) c'.ageCensored = ageBucketFor (some c.ageSec) c.ageCensored ∧
      |c'.tsNs - c.tsNs| ≤ 60 * 10 ^ 9

/-! ### The decisions -/

section Decisions

variable {E : Engine F} {candidates : List CandidateRow} {features1s : List (FeatureRow F)}
  {collectionId : PyStr} {row : DecisionRow F}

/-- **The decisions** are the candidates with each of their features. -/
theorem mem_makeDecisionDataset : row ∈ makeDecisionDataset E candidates features1s collectionId ↔
    ∃ c ∈ candidates, ∃ f ∈ features1s, f.decisionId = c.decisionId ∧
      decision collectionId (c, f) = row := by
  rw [makeDecisionDataset]
  split_ifs with hempty
  · simp only [Bool.or_eq_true, List.isEmpty_iff] at hempty
    refine ⟨nofun, ?_⟩
    rintro ⟨c, hc, f, hf, -⟩
    rcases hempty with rfl | rfl
    · exact nomatch hc
    · exact nomatch hf
  · simp only [List.mem_map, (E.join_perm _ _).mem_iff, List.mem_flatMap, List.mem_filter,
      decide_eq_true_eq]
    constructor
    · rintro ⟨_, ⟨c, hc, f, ⟨hf, hid⟩, rfl⟩, rfl⟩
      exact ⟨c, hc, f, hf, hid, rfl⟩
    · rintro ⟨c, hc, f, hf, hid, rfl⟩
      exact ⟨_, ⟨c, hc, f, ⟨hf, hid⟩, rfl⟩, rfl⟩

/-- No decision is marked at first. -/
theorem isIntervened_makeDecisionDataset
    (h : row ∈ makeDecisionDataset E candidates features1s collectionId) :
    row.isIntervened = false := by
  obtain ⟨c, -, f, -, -, rfl⟩ := mem_makeDecisionDataset.1 h
  rfl

end Decisions

/-! ### The loop -/

section Loop

variable {decisionRows : List (DecisionRow F)} {decisionId : PyStr} {treated : DecisionRow F}
  {ivs : List InterventionRow}

omit [PyFloat F] in
/-- Decisions are found by their id. -/
theorem get?_byId (hnd : (decisionRows.map DecisionRow.decisionId).Nodup) :
    (byId decisionRows).get? decisionId = some treated ↔
      treated ∈ decisionRows ∧ treated.decisionId = decisionId := by
  have hitems : (byId decisionRows).items = decisionRows.map fun row ↦ (row.decisionId, row) := by
    have hfold : byId decisionRows = (decisionRows.map fun row ↦ (row.decisionId, row)).foldl
        (fun d e ↦ d.set e.1 e.2) .empty := by rw [List.foldl_map, byId]
    rw [hfold, Dict.items_foldl_set (by simpa [Dict.keys, Dict.empty, Function.comp_def] using hnd)]
    rfl
  rw [Dict.get?_eq_some, hitems, List.mem_map]
  constructor
  · rintro ⟨row, hrow, heq⟩
    obtain ⟨rfl, rfl⟩ := Prod.mk.inj heq
    exact ⟨hrow, rfl⟩
  · rintro ⟨hrow, rfl⟩
    exact ⟨treated, hrow, rfl⟩

/-- **An intervention is matched**: its decision has a control. -/
def Matched (decisionRows : List (DecisionRow F)) (decisionId : PyStr) : Prop :=
  ∃ treated, (byId decisionRows).get? decisionId = some treated ∧
    ∃ row ∈ decisionRows, IsControl decisionId treated row

/-- There is a closest control where there is one. -/
theorem sortedControls_eq_nil_iff :
    sortedControls decisionRows decisionId treated = [] ↔
      ¬ ∃ row ∈ decisionRows, IsControl decisionId treated row := by
  rw [sortedControls, ← List.length_eq_zero_iff, (List.perm_insertionSort _ _).length_eq,
    List.length_map, List.length_eq_zero_iff, List.filter_eq_nil_iff]
  simp

/-- A map of the decisions that keeps their ids and marks those that `P` holds of. -/
structure MarksWhere (P : PyStr → Prop) (f : DecisionRow F → DecisionRow F) : Prop where
  decisionId : ∀ row, (f row).decisionId = row.decisionId
  isIntervened : ∀ row, (f row).isIntervened = true ↔
    row.isIntervened = true ∨ P row.decisionId

omit [PyFloat F] in
theorem marksWhere_mark (treatedId controlId : PyStr) (splitPreferred : Bool) :
    MarksWhere (· = treatedId) (mark (F := F) treatedId controlId splitPreferred) := by
  refine ⟨fun row ↦ ?_, fun row ↦ ?_⟩
  · rw [mark]
    split_ifs <;> rfl
  · rw [mark]
    split_ifs with h
    · exact ⟨fun _ ↦ .inr h, fun _ ↦ rfl⟩
    · exact (or_iff_left h).symm

/-- **One round** marks the decision of a matched intervention and leaves the others. -/
theorem matchStep_snd (decisionRows : List (DecisionRow F))
    (s : List (MatchRow F) × List (DecisionRow F)) (iv : InterventionRow) :
    ∃ f, MarksWhere (fun id ↦ Matched decisionRows iv.decisionId ∧ id = iv.decisionId) f ∧
      (matchStep decisionRows s iv).2 = s.2.map f := by
  have hid : ¬ Matched decisionRows iv.decisionId →
      MarksWhere (F := F) (fun id ↦ Matched decisionRows iv.decisionId ∧ id = iv.decisionId) id :=
    fun hnot ↦ ⟨fun _ ↦ rfl, fun _ ↦ (or_iff_left fun h ↦ hnot h.1).symm⟩
  rw [matchStep]
  cases hget : (byId decisionRows).get? iv.decisionId with
  | none =>
    refine ⟨id, hid ?_, (List.map_id _).symm⟩
    rintro ⟨treated, htreated, -⟩
    exact nomatch hget.symm.trans htreated
  | some treated =>
    have hmatched : Matched decisionRows iv.decisionId ↔
        ∃ row ∈ decisionRows, IsControl iv.decisionId treated row := by
      refine ⟨?_, fun h ↦ ⟨treated, hget, h⟩⟩
      rintro ⟨treated', htreated, h⟩
      obtain rfl := Option.some.inj (hget.symm.trans htreated)
      exact h
    cases hsorted : sortedControls decisionRows iv.decisionId treated with
    | nil =>
      refine ⟨id, hid fun h ↦ ?_, by simp only [hsorted]; exact (List.map_id _).symm⟩
      exact sortedControls_eq_nil_iff.1 hsorted (hmatched.1 h)
    | cons best controls =>
      have hcontrol : Matched decisionRows iv.decisionId := hmatched.2 <| by
        by_contra hnone
        exact List.cons_ne_nil _ _ (hsorted.symm.trans (sortedControls_eq_nil_iff.2 hnone))
      obtain ⟨hids, hmarks⟩ := marksWhere_mark (F := F) iv.decisionId best.2.decisionId
        (splitPreferred treated best.2)
      refine ⟨_, ⟨hids, fun row ↦ (hmarks row).trans (or_congr_right ?_)⟩, by simp only [hsorted]⟩
      exact (and_iff_right hcontrol).symm

/-- **The loop.** -/
theorem foldl_matchStep_snd (decisionRows : List (DecisionRow F)) (ivs : List InterventionRow)
    (s : List (MatchRow F) × List (DecisionRow F)) :
    ∃ f, MarksWhere (fun id ↦ ∃ iv ∈ ivs, Matched decisionRows iv.decisionId ∧
        id = iv.decisionId) f ∧
      (ivs.foldl (matchStep decisionRows) s).2 = s.2.map f := by
  induction ivs generalizing s with
  | nil =>
    refine ⟨id, ⟨fun _ ↦ rfl, fun _ ↦ (or_iff_left ?_).symm⟩, (List.map_id _).symm⟩
    rintro ⟨iv, hiv, -⟩
    exact nomatch hiv
  | cons iv ivs ih =>
    obtain ⟨f, hf, hstep⟩ := matchStep_snd decisionRows s iv
    obtain ⟨g, hg, hrest⟩ := ih (matchStep decisionRows s iv)
    refine ⟨g ∘ f, ⟨fun row ↦ ?_, fun row ↦ ?_⟩, ?_⟩
    · exact (hg.decisionId _).trans (hf.decisionId row)
    · rw [Function.comp_apply, hg.isIntervened, hf.isIntervened, hf.decisionId, or_assoc,
        List.exists_mem_cons_iff]
    · rw [List.foldl_cons, hrest, hstep, List.map_map]

/-- **What is marked.** -/
theorem matchInterventions_snd (decisionRows : List (DecisionRow F))
    (interventions : List InterventionRow) :
    ∃ f, MarksWhere (fun id ↦ Intervened interventions id ∧ Matched decisionRows id) f ∧
      (matchInterventions decisionRows interventions).2 = decisionRows.map f := by
  obtain ⟨f, hf, hloop⟩ := foldl_matchStep_snd decisionRows
    (interventions.filter fun iv ↦ iv.success) ([], decisionRows)
  have hwhere : ∀ id, (∃ iv ∈ interventions.filter fun iv ↦ iv.success,
      Matched decisionRows iv.decisionId ∧ id = iv.decisionId) ↔
        Intervened interventions id ∧ Matched decisionRows id := by
    intro id
    constructor
    · rintro ⟨iv, hiv, hmatched, rfl⟩
      obtain ⟨hiv, hsuccess⟩ := List.mem_filter.1 hiv
      exact ⟨⟨iv, hiv, hsuccess, rfl⟩, hmatched⟩
    · rintro ⟨⟨iv, hiv, hsuccess, rfl⟩, hmatched⟩
      exact ⟨iv, List.mem_filter.2 ⟨hiv, hsuccess⟩, hmatched, rfl⟩
  refine ⟨f, ⟨hf.decisionId, fun row ↦ ?_⟩, ?_⟩
  · rw [hf.isIntervened, hwhere]
  · rw [matchInterventions, ← hloop]
    split_ifs with hempty
    · rcases (Bool.or_eq_true _ _).mp hempty with hempty | hempty
      · rw [hloop, List.isEmpty_iff.1 hempty]
        rfl
      · rw [List.isEmpty_iff.1 hempty]
        rfl
    · show (if _ then _ else _ : List (MatchRow F) × _).2 = _
      split_ifs with hnone
      · rw [List.isEmpty_iff.1 hnone]
        rfl
      · rfl

end Loop

/-! ### What is marked -/

section Result

variable {E : Engine F} {candidates : List CandidateRow} {features1s : List (FeatureRow F)}
  {interventions : List InterventionRow} {collectionId : PyStr}

/-- **An intervention of a candidate is matched** where another candidate is comparable. -/
theorem matched_iff {c : CandidateRow}
    (hnd : ((makeDecisionDataset E candidates features1s collectionId).map
      DecisionRow.decisionId).Nodup) (hc : c ∈ candidates) (hf : HasFeatures features1s c) :
    Matched (makeDecisionDataset E candidates features1s collectionId) c.decisionId ↔
      ∃ c' ∈ candidates, HasFeatures features1s c' ∧ Comparable c c' := by
  obtain ⟨f, hf, hid⟩ := hf
  have htreated : decision collectionId (c, f) ∈
      makeDecisionDataset E candidates features1s collectionId :=
    mem_makeDecisionDataset.2 ⟨c, hc, f, hf, hid, rfl⟩
  have hget := (get?_byId hnd).2 ⟨htreated, rfl⟩
  constructor
  · rintro ⟨treated, htreated', row, hrow, hcontrol⟩
    obtain rfl := Option.some.inj (hget.symm.trans htreated')
    obtain ⟨c', hc', f', hf', hid', rfl⟩ := mem_makeDecisionDataset.1 hrow
    exact ⟨c', hc', ⟨f', hf', hid'⟩, hcontrol⟩
  · rintro ⟨c', hc', ⟨f', hf', hid'⟩, hcomparable⟩
    exact ⟨_, hget, _, mem_makeDecisionDataset.2 ⟨c', hc', f', hf', hid', rfl⟩, hcomparable⟩

/-- **The decisions that are marked are those that a successful intervention names, exactly where
each of these has a control.** -/
theorem marks_iff (E : Engine F) (candidates : List CandidateRow)
    (features1s : List (FeatureRow F)) (interventions : List InterventionRow)
    (collectionId : PyStr)
    (hnd : ((makeDecisionDataset E candidates features1s collectionId).map
      DecisionRow.decisionId).Nodup) :
    Marks E candidates features1s interventions collectionId ↔
      ∀ c ∈ candidates, HasFeatures features1s c → Intervened interventions c.decisionId →
        ∃ c' ∈ candidates, HasFeatures features1s c' ∧ Comparable c c' := by
  obtain ⟨f, hf, hrows⟩ := matchInterventions_snd
    (makeDecisionDataset E candidates features1s collectionId) interventions
  have hmark : ∀ row ∈ makeDecisionDataset E candidates features1s collectionId,
      ((f row).isIntervened = true ↔ Intervened interventions row.decisionId ∧
        Matched (makeDecisionDataset E candidates features1s collectionId) row.decisionId) :=
    fun row hrow ↦ by
      rw [hf.isIntervened, isIntervened_makeDecisionDataset hrow]
      exact or_iff_right Bool.false_ne_true
  have hmarks : Marks E candidates features1s interventions collectionId ↔
      ∀ row ∈ makeDecisionDataset E candidates features1s collectionId,
        Intervened interventions row.decisionId →
          Matched (makeDecisionDataset E candidates features1s collectionId) row.decisionId := by
    rw [Marks, hrows, List.forall_mem_map]
    refine forall₂_congr fun row hrow ↦ ?_
    rw [hf.decisionId, hmark row hrow]
    exact and_iff_left_iff_imp
  rw [hmarks]
  constructor
  · rintro h c hc ⟨f', hf', hid⟩ hiv
    refine (matched_iff hnd hc ⟨f', hf', hid⟩).1 (h (decision collectionId (c, f')) ?_ hiv)
    exact mem_makeDecisionDataset.2 ⟨c, hc, f', hf', hid, rfl⟩
  · rintro h row hrow hiv
    obtain ⟨c, hc, f', hf', hid, rfl⟩ := mem_makeDecisionDataset.1 hrow
    exact (matched_iff hnd hc ⟨f', hf', hid⟩).2 (h c hc ⟨f', hf', hid⟩ hiv)

end Result

/-! ### A split without a control -/

section Examples

/-- A root that is exact on squares. -/
instance : PyFloat ℚ where
  add := (· + ·)
  sub := (· - ·)
  mul := (· * ·)
  neg := (-·)
  sq q := q * q
  sqrt q := Nat.sqrt q.num.toNat / Nat.sqrt q.den
  zero := 0
  tenth := 1 / 10
  lt q r := q < r
  le q r := q ≤ r

/-- A candidate of the hook. -/
def candidate (decisionId : PyStr) (tsNs : ℤ) : CandidateRow :=
  ⟨decisionId, 7, 7, tsNs, "sampled".toList, 10, true⟩

/-- Its features. -/
def feature (decisionId : PyStr) : FeatureRow ℚ := ⟨decisionId, 1000, 0, 0, 1, 0, 0⟩

/-- Its split, which succeeds. -/
def split (decisionId : PyStr) : InterventionRow := ⟨['i'], decisionId, true, ['r']⟩

theorem marks_iff_comparable :
    Marks nestedLoop [candidate ['a'] 1000, candidate ['b'] 2000] [feature ['a'], feature ['b']]
      [split ['a']] ['r'] := by
  refine (marks_iff _ _ _ _ _ (by decide)).2 fun c hc _ hiv ↦ ?_
  obtain ⟨iv, hiv, -, hid⟩ := hiv
  obtain rfl := List.mem_singleton.1 hiv
  have hcandidate : c = candidate ['a'] 1000 := by
    rcases List.mem_cons.1 hc with rfl | hc
    · rfl
    · obtain rfl := List.mem_singleton.1 hc
      exact absurd hid (by decide)
  subst hcandidate
  refine ⟨candidate ['b'] 2000, by simp, ⟨feature ['b'], by simp, rfl⟩, by decide, rfl, by decide⟩

/-- **A split is left as a decision that is not intervened** where there is no other candidate. -/
theorem not_marks_onlyCandidate :
    ¬ Marks nestedLoop [candidate ['a'] 1000] [feature ['a']] [split ['a']] ['r'] := by
  intro h
  obtain ⟨row, hrow, hid, hunmarked⟩ : ∃ row ∈ (matchInterventions (makeDecisionDataset nestedLoop
      [candidate ['a'] 1000] [feature ['a']] ['r']) [split ['a']]).2,
      row.decisionId = ['a'] ∧ row.isIntervened = false := by decide
  have hmarked := (h row hrow).2 ⟨split ['a'], List.mem_singleton_self _, rfl, hid.symm⟩
  exact absurd (hunmarked.symm.trans hmarked) Bool.false_ne_true

end Examples

end Analysis.Matching
