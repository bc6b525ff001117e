import HugePageResearch.Analysis.Controls
import Mathlib.Algebra.Order.Field.Rat
import Mathlib.Tactic.Positivity
import Mathlib.Data.List.Forall2

/-!
# The two outputs of the matching

What `_match_interventions` returns for the decisions of `_make_decision_dataset`, with exact
arithmetic, where the root may be any function that compares as its argument does: the identity, so
that the distances are squared, or the root of the real numbers.

## The result

`matchInterventions_spec`: the second output is the table with four of its columns set in the rows
that a match treats, and each match pairs the decision of a successful intervention with a nearest
comparable one, as its row then says.
-/

namespace Analysis.Matching

open PyFloat

variable {F : Type*} [PyFloat F]

/-- **Exact arithmetic**, with a root that compares as its argument does. -/
class ExactFloat (F : Type*) [PyFloat F] [Field F] [LinearOrder F] : Prop extends
    OrderedFloat F where
  add_eq : ∀ a b : F, add a b = a + b
  sub_eq : ∀ a b : F, sub a b = a - b
  sq_eq : ∀ a : F, PyFloat.sq a = a ^ 2
  sqrt_lt_sqrt : ∀ a b : F, 0 ≤ a → 0 ≤ b → (sqrt a < sqrt b ↔ a < b)

/-! ### Nearest matches -/

/-- The square of the distance of two decisions, by their four features. -/
def sqDistance [Field F] (row treated : DecisionRow F) : F :=
  (row.missRatePre - treated.missRatePre) ^ 2 + (row.walkRatePre - treated.walkRatePre) ^ 2 +
    (row.deltaMissRate - treated.deltaMissRate) ^ 2 +
    (row.deltaWalkRate - treated.deltaWalkRate) ^ 2

/-- Two rows that agree outside the columns that a match sets. -/
def SameColumns (row row' : DecisionRow F) : Prop :=
  row' = { row with
    isIntervened := row'.isIntervened
    matchedControlDecisionId := row'.matchedControlDecisionId
    labelSplitPreferred := row'.labelSplitPreferred
    labelKeepPreferred := row'.labelKeepPreferred }

/-- **What the matching leaves** of a table. -/
structure KeepsRows (matched : List (MatchRow F)) (decisions decisions' : List (DecisionRow F)) :
    Prop where
  columns : decisions.Forall₂ SameColumns decisions'
  untreated : decisions.Forall₂ (fun row row' ↦
    (∀ m ∈ matched, m.decisionIdTreated ≠ row.decisionId) → row' = row) decisions'
  labels : ∀ row ∈ decisions', row.labelKeepPreferred = !row.labelSplitPreferred

/-- **What a match says**: a successful intervention, its decision, and a nearest comparable one. -/
structure IsMatch [Field F] [LinearOrder F] (decisions decisions' : List (DecisionRow F))
    (interventions : List InterventionRow) (m : MatchRow F) (treated control : DecisionRow F) :
    Prop where
  intervention : ∃ iv ∈ interventions, iv.success = true ∧
    iv.interventionId = m.interventionId ∧ iv.decisionId = m.decisionIdTreated ∧
      iv.collectionId = m.collectionId
  treated_mem : treated ∈ decisions
  treated_id : treated.decisionId = m.decisionIdTreated
  control_mem : control ∈ decisions
  control_id : control.decisionId = m.decisionIdControl
  ne : m.decisionIdControl ≠ m.decisionIdTreated
  treated_bucket : treated.bucket = m.ageBucket
  control_bucket : control.bucket = m.ageBucket
  within : |control.tsNs - treated.tsNs| ≤ 60 * 10 ^ 9
  nearest : ∀ row ∈ decisions, row.decisionId ≠ m.decisionIdTreated → row.bucket = m.ageBucket →
    |row.tsNs - treated.tsNs| ≤ 60 * 10 ^ 9 → sqDistance control treated ≤ sqDistance row treated
  /-- What the row of the treated decision says. -/
  marked : ∀ row ∈ decisions', row.decisionId = m.decisionIdTreated →
    row.isIntervened = true ∧ row.matchedControlDecisionId = m.decisionIdControl ∧
      (row.labelSplitPreferred = true ↔ treated.deltaMissRate + treated.deltaWalkRate <
        control.deltaMissRate + control.deltaWalkRate)

/-! ### The rows -/

section Rows

variable {decisionRows : List (DecisionRow F)} {decisionId : PyStr} {row : DecisionRow F}
  {ivs : List InterventionRow}

theorem sameColumns_markOf : SameColumns row (markOf decisionRows decisionId row) := by
  rw [markOf]
  cases pairOf decisionRows decisionId with
  | none => rfl
  | some p =>
    show SameColumns row (mark _ _ _ row)
    rw [mark]
    split_ifs <;> rfl

theorem sameColumns_marked : SameColumns row (marked decisionRows ivs row) := by
  rw [marked]
  split_ifs
  · exact sameColumns_markOf
  · rfl

/-- The ids are kept. -/
theorem decisionId_marked : (marked decisionRows ivs row).decisionId = row.decisionId := by
  rw [marked]
  split_ifs
  · exact decisionId_markOf
  · rfl

/-- A match gives its row one label. -/
theorem labels_marked (h : row.labelKeepPreferred = !row.labelSplitPreferred) :
    (marked decisionRows ivs row).labelKeepPreferred =
      !(marked decisionRows ivs row).labelSplitPreferred := by
  rw [marked]
  split_ifs
  · rw [markOf]
    cases pairOf decisionRows row.decisionId with
    | none => exact h
    | some p =>
      show (mark _ _ _ row).labelKeepPreferred = !(mark _ _ _ row).labelSplitPreferred
      rw [mark, if_pos rfl]
  · exact h

/-- **A row that no match treats** is left. -/
theorem marked_eq_self (h : ∀ iv ∈ ivs, iv.decisionId = row.decisionId →
    matchOf decisionRows iv = none) : marked decisionRows ivs row = row := by
  rw [marked]
  split_ifs with hid
  · obtain ⟨iv, hiv, hid⟩ := List.mem_map.1 hid
    have hnone : pairOf decisionRows row.decisionId = none := by
      rw [← hid]
      exact Option.map_eq_none_iff.1 (h iv hiv hid)
    rw [markOf, hnone]
    rfl
  · rfl

/-- **The row that a match treats.** -/
theorem marked_eq_mark {iv : InterventionRow} {treated control : DecisionRow F} {d : F}
    (hiv : iv ∈ ivs) (hid : iv.decisionId = row.decisionId)
    (hpair : pairOf decisionRows iv.decisionId = some (treated, d, control)) :
    marked decisionRows ivs row =
      mark row.decisionId control.decisionId (splitPreferred treated control) row := by
  rw [marked, if_pos (List.mem_map.2 ⟨iv, hiv, hid⟩), markOf, ← hid, hpair]
  rfl

/-- A decision has one label at first. -/
theorem labels_makeDecisionDataset [LinearOrder F] [OrderedFloat F] {E : Engine F}
    {candidates : List CandidateRow} {features1s : List (FeatureRow F)} {collectionId : PyStr}
    (h : row ∈ makeDecisionDataset E candidates features1s collectionId) :
    row.labelKeepPreferred = !row.labelSplitPreferred := by
  obtain ⟨c, -, f, -, -, rfl⟩ := mem_makeDecisionDataset.1 h
  rw [Bool.eq_iff_iff, Bool.not_eq_true', Bool.eq_false_iff]
  show le zero _ = true ↔ ¬ lt _ zero = true
  rw [OrderedFloat.le_iff, OrderedFloat.lt_iff, not_lt]

end Rows

/-! ### The distances -/

section Distances

variable [Field F] [LinearOrder F] [IsStrictOrderedRing F] [ExactFloat F]
  {row row' treated control : DecisionRow F}

omit [PyFloat F] [ExactFloat F] in
theorem sqDistance_nonneg : 0 ≤ sqDistance row treated := by
  rw [sqDistance]
  positivity

omit [IsStrictOrderedRing F] in
theorem dist_eq : dist row treated = sqrt (sqDistance row treated) := by
  simp only [dist, sqDistance, ExactFloat.add_eq, ExactFloat.sub_eq, ExactFloat.sq_eq]

/-- **The distances compare as their squares.** -/
theorem dist_le_dist_iff :
    dist row treated ≤ dist row' treated ↔ sqDistance row treated ≤ sqDistance row' treated := by
  rw [← not_lt, ← not_lt, dist_eq, dist_eq]
  exact not_congr (ExactFloat.sqrt_lt_sqrt _ _ sqDistance_nonneg sqDistance_nonneg)

omit [IsStrictOrderedRing F] in
theorem splitPreferred_iff : splitPreferred treated control = true ↔
    treated.deltaMissRate + treated.deltaWalkRate <
      control.deltaMissRate + control.deltaWalkRate := by
  rw [splitPreferred, OrderedFloat.lt_iff, ExactFloat.add_eq, ExactFloat.add_eq]

end Distances

/-! ### Both outputs -/

section Result

/-- **What the matching leaves.** -/
theorem keepsRows_matchInterventions {decisions : List (DecisionRow F)}
    (hlabels : ∀ row ∈ decisions, row.labelKeepPreferred = !row.labelSplitPreferred)
    (interventions : List InterventionRow) :
    KeepsRows (matchInterventions decisions interventions).1 decisions
      (matchInterventions decisions interventions).2 := by
  have hmatched : ∀ iv ∈ interventions.filter (fun iv ↦ iv.success), ∀ m,
      matchOf decisions iv = some m → m ∈ (matchInterventions decisions interventions).1 :=
    fun iv hiv m hm ↦ mem_matchInterventions.2
      ⟨iv, (List.mem_filter.1 hiv).1, (List.mem_filter.1 hiv).2, hm⟩
  have hrows := congrArg Prod.snd (matchInterventions_eq decisions interventions)
  refine ⟨?_, ?_, ?_⟩
  · rw [hrows, List.forall₂_map_right_iff, List.forall₂_same]
    exact fun row _ ↦ sameColumns_marked
  · rw [hrows, List.forall₂_map_right_iff, List.forall₂_same]
    intro row _ huntreated
    refine marked_eq_self fun iv hiv hid ↦ ?_
    rcases hm : matchOf decisions iv with _ | m
    · rfl
    · obtain ⟨treated, d, control, -, rfl⟩ := matchOf_eq_some.1 hm
      exact absurd hid (huntreated _ (hmatched iv hiv _ hm))
  · rw [hrows, List.forall_mem_map]
    exact fun row hrow ↦ labels_marked (hlabels row hrow)

variable [Field F] [LinearOrder F] [IsStrictOrderedRing F] [ExactFloat F]

/-- **What a match says.** -/
theorem isMatch_of_mem {decisions : List (DecisionRow F)} {interventions : List InterventionRow}
    {m : MatchRow F} (hnd : (decisions.map DecisionRow.decisionId).Nodup)
    (hm : m ∈ (matchInterventions decisions interventions).1) :
    ∃ treated control, IsMatch decisions (matchInterventions decisions interventions).2
      interventions m treated control := by
  obtain ⟨iv, hiv, hsuccess, hmatch⟩ := mem_matchInterventions.1 hm
  obtain ⟨treated, d, control, hpair, rfl⟩ := matchOf_eq_some.1 hmatch
  obtain ⟨hget, rfl, hfirst⟩ := pairOf_eq_some hpair
  obtain ⟨htreated, hid⟩ := (get?_byId hnd).1 hget
  obtain ⟨hcontrol, hne, hbucket, hwithin⟩ := mem_controls.1 hfirst.mem
  refine ⟨treated, control, ⟨iv, hiv, hsuccess, rfl, rfl, rfl⟩, htreated, hid, hcontrol, rfl, hne,
    rfl, hbucket, hwithin, fun row hrow hne' hbucket' hwithin' ↦ ?_, fun row' hrow' hid' ↦ ?_⟩
  · exact dist_le_dist_iff.1 (hfirst.le (mem_controls.2 ⟨hrow, hne', hbucket', hwithin'⟩))
  · rw [matchInterventions_eq] at hrow'
    obtain ⟨row, -, rfl⟩ := List.mem_map.1 hrow'
    have hrowid : iv.decisionId = row.decisionId := hid'.symm.trans decisionId_marked
    rw [marked_eq_mark (List.mem_filter.2 ⟨hiv, hsuccess⟩) hrowid hpair, mark, if_pos rfl]
    exact ⟨rfl, rfl, splitPreferred_iff⟩

/-- **The matching sets four columns of the decisions that it treats, and each match pairs the
decision of a successful intervention with a nearest comparable one.** -/
theorem matchInterventions_spec (E : Engine F) (candidates : List CandidateRow)
    (features1s : List (FeatureRow F)) (collectionId : PyStr)
    (interventions : List InterventionRow)
    (hnd : ((makeDecisionDataset E candidates features1s collectionId).map
      DecisionRow.decisionId).Nodup) :
    KeepsRows
      (matchInterventions (makeDecisionDataset E candidates features1s collectionId)
        interventions).1
      (makeDecisionDataset E candidates features1s collectionId)
      (matchInterventions (makeDecisionDataset E candidates features1s collectionId)
        interventions).2 ∧
    ∀ m ∈ (matchInterventions (makeDecisionDataset E candidates features1s collectionId)
        interventions).1,
      ∃ treated control, IsMatch (makeDecisionDataset E candidates features1s collectionId)
        (matchInterventions (makeDecisionDataset E candidates features1s collectionId)
          interventions).2 interventions m treated control :=
  ⟨keepsRows_matchInterventions (fun _ ↦ labels_makeDecisionDataset) interventions,
    fun _ ↦ isMatch_of_mem hnd⟩

end Result

/-! ### Squared distances -/

section Examples

/-- Rational numbers, with the identity for the root. -/
def Squared : Type := ℚ

instance : Field Squared := inferInstanceAs (Field ℚ)

instance : LinearOrder Squared := inferInstanceAs (LinearOrder ℚ)

instance : IsStrictOrderedRing Squared := inferInstanceAs (IsStrictOrderedRing ℚ)

instance : PyFloat Squared where
  add := (· + ·)
  sub := (· - ·)
  mul := (· * ·)
  neg := (-·)
  sq q := q ^ 2
  sqrt q := q
  zero := 0
  tenth := 1 / 10
  lt q r := q < r
  le q r := q ≤ r

instance : ExactFloat Squared where
  lt_iff _ _ := decide_eq_true_iff
  le_iff _ _ := decide_eq_true_iff
  add_eq _ _ := rfl
  sub_eq _ _ := rfl
  sq_eq _ := rfl
  sqrt_lt_sqrt _ _ _ _ := Iff.rfl

/-- The decisions of candidates, by their ids and their `delta_miss_rate`. -/
def exactDecisions (rows : List (PyStr × Squared)) : List (DecisionRow Squared) :=
  makeDecisionDataset nestedLoop (rows.map fun row ↦ candidate row.1 1000)
    (rows.map fun row ↦ ⟨row.1, 1000, 0, 0, row.2, 0, 0⟩) ['r']

theorem exists_isMatch_nearest :
    ∃ m ∈ (matchInterventions (exactDecisions [(['a'], 0), (['b'], 5), (['c'], 2)])
        [split ['a']]).1, m.decisionIdControl = ['c'] ∧
      ∃ treated control, IsMatch (exactDecisions [(['a'], 0), (['b'], 5), (['c'], 2)])
        (matchInterventions (exactDecisions [(['a'], 0), (['b'], 5), (['c'], 2)])
          [split ['a']]).2 [split ['a']] m treated control := by
  obtain ⟨m, hm, hcontrol⟩ : ∃ m ∈ (matchInterventions
      (exactDecisions [(['a'], 0), (['b'], 5), (['c'], 2)]) [split ['a']]).1,
      m.decisionIdControl = ['c'] := by decide +kernel
  exact ⟨m, hm, hcontrol, (matchInterventions_spec nestedLoop _ _ _ _ (by decide)).2 m hm⟩

end Examples

end Analysis.Matching
