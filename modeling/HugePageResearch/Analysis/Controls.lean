import HugePageResearch.Analysis.Matching
import HugePageResearch.Library.FirstLeast

/-!
# Controls

What `_match_interventions` compares a split with. The control of a decision is the nearest of the
others of its bucket within a minute, and of the nearest the first in the table (`pairOf_eq_some`).
Whether the control was split itself is not asked.

## The result

`controlsApart_iff`: no control is a decision of a successful intervention, exactly where each
comparable decision that is has one before it that is not, by the distance and then by the position.

The order of the table decides between decisions at one distance, and nothing else
(`sameMatches_iff`).
-/

namespace Analysis.Matching

open PyFloat

variable {F : Type*} [PyFloat F]

/-- The comparisons of floats are those of an order. -/
class OrderedFloat (F : Type*) [PyFloat F] [LinearOrder F] : Prop where
  lt_iff : ∀ a b : F, lt a b = true ↔ a < b
  le_iff : ∀ a b : F, le a b = true ↔ a ≤ b

/-! ### A decision and its control -/

/-- The comparable decisions, in the order of the table. -/
def controls (decisionRows : List (DecisionRow F)) (treatedId : PyStr) (treated : DecisionRow F) :
    List (DecisionRow F) :=
  decisionRows.filter fun row ↦ IsControl treatedId treated row

/-- A decision with its distance and its control. -/
def pairOf (decisionRows : List (DecisionRow F)) (decisionId : PyStr) :
    Option (DecisionRow F × F × DecisionRow F) :=
  ((byId decisionRows).get? decisionId).bind fun treated ↦
    (sortedControls decisionRows decisionId treated).head?.map fun best ↦ (treated, best)

/-- The match of an intervention. -/
def matchOf (decisionRows : List (DecisionRow F)) (iv : InterventionRow) : Option (MatchRow F) :=
  (pairOf decisionRows iv.decisionId).map fun p ↦
    ⟨iv.interventionId, iv.decisionId, p.2.2.decisionId, p.2.1, p.1.bucket, iv.collectionId⟩

/-- What the match of a decision does to a row. -/
def markOf (decisionRows : List (DecisionRow F)) (decisionId : PyStr) (row : DecisionRow F) :
    DecisionRow F :=
  (pairOf decisionRows decisionId).elim row fun p ↦
    mark decisionId p.2.2.decisionId (splitPreferred p.1 p.2.2) row

/-- What the interventions do to a row. -/
def marked (decisionRows : List (DecisionRow F)) (ivs : List InterventionRow)
    (row : DecisionRow F) : DecisionRow F :=
  if row.decisionId ∈ ivs.map InterventionRow.decisionId then
    markOf decisionRows row.decisionId row
  else row

section Pairs

variable {decisionRows : List (DecisionRow F)} {decisionId : PyStr} {iv : InterventionRow}
  {treated control row : DecisionRow F} {d : F} {m : MatchRow F}

omit [PyFloat F] in
theorem mem_controls : row ∈ controls decisionRows decisionId treated ↔
    row ∈ decisionRows ∧ IsControl decisionId treated row := by
  rw [controls, List.mem_filter, decide_eq_true_eq]

/-- **The control** is the first of the nearest comparable decisions. -/
theorem pairOf_eq_some [LinearOrder F] [OrderedFloat F]
    (h : pairOf decisionRows decisionId = some (treated, d, control)) :
    (byId decisionRows).get? decisionId = some treated ∧ d = dist control treated ∧
      FirstLeast (fun row ↦ dist row treated) (controls decisionRows decisionId treated)
        control := by
  obtain ⟨treated', hget, h⟩ := Option.bind_eq_some_iff.1 h
  obtain ⟨best, hbest, heq⟩ := Option.map_eq_some_iff.1 h
  obtain ⟨rfl, rfl⟩ := Prod.mk.inj heq
  obtain ⟨rest, hsorted⟩ := List.head?_eq_some_iff.1 hbest
  have hle : ∀ a b : F × DecisionRow F, (!lt b.1 a.1) = true ↔ a.1 ≤ b.1 := fun a b ↦ by
    rw [Bool.not_eq_true', Bool.eq_false_iff, ne_eq, OrderedFloat.lt_iff, not_lt]
  obtain ⟨row, hrow, heq⟩ := (firstLeast_of_insertionSort hle hsorted).of_map
  obtain ⟨rfl, rfl⟩ := Prod.mk.inj heq
  exact ⟨hget, rfl, hrow⟩

/-- There is one where a decision is comparable. -/
theorem exists_pairOf (hget : (byId decisionRows).get? decisionId = some treated)
    (hrow : row ∈ controls decisionRows decisionId treated) :
    ∃ d control, pairOf decisionRows decisionId = some (treated, d, control) := by
  cases hsorted : sortedControls decisionRows decisionId treated with
  | nil => exact absurd ⟨row, mem_controls.1 hrow⟩ (sortedControls_eq_nil_iff.1 hsorted)
  | cons best rest => exact ⟨best.1, best.2, by rw [pairOf, hget, Option.bind_some, hsorted]; rfl⟩

/-- **A match** is that of an intervention with its control. -/
theorem matchOf_eq_some : matchOf decisionRows iv = some m ↔
    ∃ treated d control, pairOf decisionRows iv.decisionId = some (treated, d, control) ∧
      (⟨iv.interventionId, iv.decisionId, control.decisionId, d, treated.bucket,
        iv.collectionId⟩ : MatchRow F) = m := by
  rw [matchOf, Option.map_eq_some_iff]
  constructor
  · rintro ⟨⟨treated, d, control⟩, hpair, rfl⟩
    exact ⟨treated, d, control, hpair, rfl⟩
  · rintro ⟨treated, d, control, hpair, rfl⟩
    exact ⟨(treated, d, control), hpair, rfl⟩

end Pairs

/-! ### The loop -/

section Loop

variable {decisionRows : List (DecisionRow F)} {decisionId : PyStr} {row : DecisionRow F}

theorem markOf_of_ne (h : row.decisionId ≠ decisionId) :
    markOf decisionRows decisionId row = row := by
  rw [markOf]
  cases pairOf decisionRows decisionId with
  | none => rfl
  | some p => exact if_neg h

/-- The id is kept, and a second mark changes nothing. -/
theorem decisionId_markOf : (markOf decisionRows decisionId row).decisionId = row.decisionId := by
  rw [markOf]
  cases pairOf decisionRows decisionId with
  | none => rfl
  | some p => exact (marksWhere_mark _ _ _).decisionId row

theorem markOf_markOf : markOf decisionRows decisionId (markOf decisionRows decisionId row) =
    markOf decisionRows decisionId row := by
  by_cases hid : row.decisionId = decisionId
  · rw [markOf, markOf]
    cases pairOf decisionRows decisionId with
    | none => rfl
    | some p => simp [mark, hid]
  · rw [markOf_of_ne hid, markOf_of_ne hid]

/-- **One round.** -/
theorem matchStep_eq (decisionRows : List (DecisionRow F))
    (s : List (MatchRow F) × List (DecisionRow F)) (iv : InterventionRow) :
    matchStep decisionRows s iv = (s.1 ++ (matchOf decisionRows iv).toList,
      s.2.map (markOf decisionRows iv.decisionId)) := by
  have hskip : pairOf decisionRows iv.decisionId = none →
      s = (s.1 ++ (matchOf decisionRows iv).toList,
        s.2.map (markOf decisionRows iv.decisionId)) := fun h ↦ by
    have hmark : markOf decisionRows iv.decisionId = id := funext fun row ↦ by rw [markOf, h]; rfl
    rw [hmark, matchOf, h, List.map_id]
    exact Prod.ext (List.append_nil _).symm rfl
  rw [matchStep]
  cases hget : (byId decisionRows).get? iv.decisionId with
  | none => exact hskip (by rw [pairOf, hget]; rfl)
  | some treated =>
    cases hsorted : sortedControls decisionRows iv.decisionId treated with
    | nil =>
      have hnone : pairOf decisionRows iv.decisionId = none := by
        rw [pairOf, hget, Option.bind_some, hsorted]
        rfl
      simpa only [hsorted] using hskip hnone
    | cons best rest =>
      have hsome : pairOf decisionRows iv.decisionId = some (treated, best) := by
        rw [pairOf, hget, Option.bind_some, hsorted]
        rfl
      have hmark : markOf decisionRows iv.decisionId =
          mark iv.decisionId best.2.decisionId (splitPreferred treated best.2) :=
        funext fun row ↦ by rw [markOf, hsome]; rfl
      simp only [hsorted, matchOf, hsome, hmark, Option.map_some, Option.toList_some]

/-- **The loop** matches each intervention and marks each row once. -/
theorem foldl_matchStep (decisionRows : List (DecisionRow F)) (seen ivs : List InterventionRow)
    (ms : List (MatchRow F)) :
    ivs.foldl (matchStep decisionRows) (ms, decisionRows.map (marked decisionRows seen)) =
      (ms ++ ivs.filterMap (matchOf decisionRows),
        decisionRows.map (marked decisionRows (seen ++ ivs))) := by
  induction ivs generalizing seen ms with
  | nil => rw [List.foldl_nil, List.filterMap_nil, List.append_nil, List.append_nil]
  | cons iv ivs ih =>
    have hmark : ∀ row, markOf decisionRows iv.decisionId (marked decisionRows seen row) =
        marked decisionRows (seen ++ [iv]) row := by
      intro row
      by_cases hid : row.decisionId = iv.decisionId
      · have hseen : row.decisionId ∈ (seen ++ [iv]).map InterventionRow.decisionId := by simp [hid]
        rw [marked, marked, ← hid, if_pos hseen]
        split_ifs
        · exact markOf_markOf
        · rfl
      · have hseen : row.decisionId ∈ (seen ++ [iv]).map InterventionRow.decisionId ↔
            row.decisionId ∈ seen.map InterventionRow.decisionId := by simp [hid]
        rw [marked, marked, if_congr hseen rfl rfl]
        split_ifs
        · exact markOf_of_ne (decisionId_markOf.trans_ne hid)
        · exact markOf_of_ne hid
    have hmatches : ms ++ (iv :: ivs).filterMap (matchOf decisionRows) =
        ms ++ (matchOf decisionRows iv).toList ++ ivs.filterMap (matchOf decisionRows) := by
      rw [List.append_assoc, List.filterMap_cons]
      cases matchOf decisionRows iv <;> rfl
    rw [List.foldl_cons, matchStep_eq, List.map_map, hmatches, List.append_cons seen iv ivs,
      ← ih (seen ++ [iv])]
    exact congrArg (fun rows ↦ ivs.foldl (matchStep decisionRows) (_, rows))
      (List.map_congr_left fun row _ ↦ hmark row)

/-- **What the matching yields.** -/
theorem matchInterventions_eq (decisionRows : List (DecisionRow F))
    (interventions : List InterventionRow) :
    matchInterventions decisionRows interventions =
      ((interventions.filter fun iv ↦ iv.success).filterMap (matchOf decisionRows),
        decisionRows.map (marked decisionRows (interventions.filter fun iv ↦ iv.success))) := by
  have hnil : decisionRows.map (marked decisionRows []) = decisionRows :=
    List.map_id'' (fun _ ↦ rfl) _
  have hloop := foldl_matchStep decisionRows [] (interventions.filter fun iv ↦ iv.success) []
  rw [hnil, List.nil_append, List.nil_append] at hloop
  rw [← hloop, matchInterventions]
  split_ifs with hempty
  · rcases (Bool.or_eq_true _ _).mp hempty with hempty | hempty
    · obtain rfl := List.isEmpty_iff.1 hempty
      have hnone : (interventions.filter fun iv ↦ iv.success).filterMap
          (matchOf ([] : List (DecisionRow F))) = [] :=
        List.filterMap_eq_nil_iff.2 fun iv _ ↦ rfl
      rw [hloop, hnone]
      rfl
    · rw [List.isEmpty_iff.1 hempty]
      rfl
  · show (if _ then _ else _ : List (MatchRow F) × _) = _
    split_ifs with hnone
    · rw [List.isEmpty_iff.1 hnone]
      rfl
    · rfl

/-- The matches are those of the successful interventions. -/
theorem mem_matchInterventions {interventions : List InterventionRow} {m : MatchRow F} :
    m ∈ (matchInterventions decisionRows interventions).1 ↔
      ∃ iv ∈ interventions, iv.success = true ∧ matchOf decisionRows iv = some m := by
  rw [matchInterventions_eq, List.mem_filterMap]
  constructor
  · rintro ⟨iv, hiv, hm⟩
    exact ⟨iv, (List.mem_filter.1 hiv).1, (List.mem_filter.1 hiv).2, hm⟩
  · rintro ⟨iv, hiv, hsuccess, hm⟩
    exact ⟨iv, List.mem_filter.2 ⟨hiv, hsuccess⟩, hm⟩

end Loop

/-! ### Controls that were split -/

section Apart

/-- **The treated decisions and the controls are disjoint.** -/
def ControlsApart (decisions : List (DecisionRow F)) (interventions : List InterventionRow) :
    Prop :=
  ∀ m ∈ (matchInterventions decisions interventions).1,
    ¬ Intervened interventions m.decisionIdControl

/-- `c'` is before `c` for `treated`, where `pre` is what comes before `c` in the table. -/
def ComesBefore (treated : DecisionRow F) (pre : List (DecisionRow F)) (c c' : DecisionRow F)
    [LinearOrder F] : Prop :=
  dist c' treated < dist c treated ∨ dist c' treated = dist c treated ∧ c' ∈ pre

variable [LinearOrder F] [OrderedFloat F]

/-- **The treated decisions and the controls are disjoint, exactly where each comparable decision
that was split has one before it that was not.** -/
theorem controlsApart_iff (decisions : List (DecisionRow F))
    (interventions : List InterventionRow) :
    ControlsApart decisions interventions ↔
      ∀ iv ∈ interventions, iv.success = true → ∀ treated,
        (byId decisions).get? iv.decisionId = some treated →
        ∀ pre c post, decisions = pre ++ c :: post → IsControl iv.decisionId treated c →
          Intervened interventions c.decisionId →
          ∃ c' ∈ decisions, IsControl iv.decisionId treated c' ∧
            ¬ Intervened interventions c'.decisionId ∧ ComesBefore treated pre c c' := by
  constructor
  · intro h iv hiv hsuccess treated hget pre c post hsplit hc hintervened
    have hmem : c ∈ controls decisions iv.decisionId treated :=
      mem_controls.2 ⟨hsplit ▸ List.mem_append_right _ List.mem_cons_self, hc⟩
    obtain ⟨d, control, hpair⟩ := exists_pairOf hget hmem
    obtain ⟨-, -, hfirst⟩ := pairOf_eq_some hpair
    have hnot : ¬ Intervened interventions control.decisionId :=
      h _ (mem_matchInterventions.2 ⟨iv, hiv, hsuccess, matchOf_eq_some.2
        ⟨treated, d, control, hpair, rfl⟩⟩)
    have hne : control ≠ c := fun heq ↦ hnot (heq ▸ hintervened)
    obtain ⟨hrow, hcontrol⟩ := mem_controls.1 hfirst.mem
    refine ⟨control, hrow, hcontrol, hnot, ?_⟩
    rw [controls, hsplit, List.filter_append, List.filter_cons_of_pos (by simpa using hc)] at hfirst
    exact (hfirst.lt_or_mem hne).imp_right fun ⟨heq, hpre⟩ ↦ ⟨heq, (List.mem_filter.1 hpre).1⟩
  · intro h m hm hintervened
    obtain ⟨iv, hiv, hsuccess, hmatch⟩ := mem_matchInterventions.1 hm
    obtain ⟨treated, d, control, hpair, rfl⟩ := matchOf_eq_some.1 hmatch
    obtain ⟨hget, -, hfirst⟩ := pairOf_eq_some hpair
    have hleast := fun c' ↦ hfirst.le (y := c')
    obtain ⟨hrow, hcontrol⟩ := mem_controls.1 hfirst.mem
    obtain ⟨pre', post', hsplit', hlt, -⟩ := hfirst
    obtain ⟨pre, post, hsplit, rfl⟩ := exists_filter_eq_append hsplit'
    obtain ⟨c', hc', hcontrol', -, hbefore⟩ :=
      h iv hiv hsuccess treated hget pre control post hsplit hcontrol hintervened
    rcases hbefore with hbefore | ⟨heq, hpre⟩
    · exact absurd hbefore (not_lt.2 (hleast c' (mem_controls.2 ⟨hc', hcontrol'⟩)))
    · exact absurd heq.symm (hlt c' (List.mem_filter.2 ⟨hpre, by simpa using hcontrol'⟩)).ne

end Apart

/-! ### The order of the table -/

/-- A match without its control. -/
def MatchRow.withoutControl (m : MatchRow F) : MatchRow F :=
  { m with decisionIdControl := [] }

/-- A decision without what its control determines. -/
def DecisionRow.withoutControl (row : DecisionRow F) : DecisionRow F :=
  { row with
    labelSplitPreferred := false
    labelKeepPreferred := false
    matchedControlDecisionId := [] }

/-- **The same matches and the same decisions**, as sets. -/
def SameMatches (decisions decisions' : List (DecisionRow F))
    (interventions : List InterventionRow) : Prop :=
  (∀ m, m ∈ (matchInterventions decisions interventions).1 ↔
    m ∈ (matchInterventions decisions' interventions).1) ∧
  ∀ row, row ∈ (matchInterventions decisions interventions).2 ↔
    row ∈ (matchInterventions decisions' interventions).2

/-- **No decision that was split has two nearest comparable ones.** -/
def NoTies [LinearOrder F] (decisions : List (DecisionRow F))
    (interventions : List InterventionRow) : Prop :=
  ∀ iv ∈ interventions, iv.success = true → ∀ treated ∈ decisions,
    treated.decisionId = iv.decisionId →
    ∀ c ∈ controls decisions iv.decisionId treated,
    ∀ c' ∈ controls decisions iv.decisionId treated,
      (∀ row ∈ controls decisions iv.decisionId treated, dist c treated ≤ dist row treated) →
      (∀ row ∈ controls decisions iv.decisionId treated, dist c' treated ≤ dist row treated) →
      c = c'

section Order

variable {decisionRows decisionRows' : List (DecisionRow F)} {decisionId : PyStr}
  {treated control : DecisionRow F} {d : F} {interventions : List InterventionRow}

omit [PyFloat F] in
/-- A decision is found in any order. -/
theorem get?_byId_perm (hnd : (decisionRows.map DecisionRow.decisionId).Nodup)
    (hperm : decisionRows.Perm decisionRows') :
    (byId decisionRows).get? decisionId = (byId decisionRows').get? decisionId := by
  have hnd' : (decisionRows'.map DecisionRow.decisionId).Nodup := (hperm.map _).nodup_iff.1 hnd
  refine Option.ext fun treated ↦ ?_
  rw [get?_byId hnd, get?_byId hnd', hperm.mem_iff]

variable [LinearOrder F] [OrderedFloat F]

/-- **Another order** keeps a decision and its distance. -/
theorem exists_pairOf_perm (hnd : (decisionRows.map DecisionRow.decisionId).Nodup)
    (hperm : decisionRows.Perm decisionRows')
    (h : pairOf decisionRows decisionId = some (treated, d, control)) :
    ∃ control', pairOf decisionRows' decisionId = some (treated, d, control') := by
  obtain ⟨hget, rfl, hfirst⟩ := pairOf_eq_some h
  rw [get?_byId_perm hnd hperm] at hget
  have hcontrols : (controls decisionRows decisionId treated).Perm
      (controls decisionRows' decisionId treated) := hperm.filter _
  obtain ⟨d', control', hpair⟩ := exists_pairOf hget (hcontrols.mem_iff.1 hfirst.mem)
  obtain ⟨-, rfl, hfirst'⟩ := pairOf_eq_some hpair
  have hkey : dist control treated = dist control' treated := hfirst.key_eq hfirst' hcontrols
  exact ⟨control', hkey ▸ hpair⟩

/-- **Two orders** have no control, or one at the same distance each. -/
theorem pairOf_perm_cases (hnd : (decisionRows.map DecisionRow.decisionId).Nodup)
    (hperm : decisionRows.Perm decisionRows') (decisionId : PyStr) :
    (pairOf decisionRows decisionId = none ∧ pairOf decisionRows' decisionId = none) ∨
      ∃ treated d control control', pairOf decisionRows decisionId = some (treated, d, control) ∧
        pairOf decisionRows' decisionId = some (treated, d, control') := by
  have hnd' : (decisionRows'.map DecisionRow.decisionId).Nodup := (hperm.map _).nodup_iff.1 hnd
  rcases hpair : pairOf decisionRows decisionId with _ | ⟨treated, d, control⟩
  · refine .inl ⟨rfl, ?_⟩
    rcases hpair' : pairOf decisionRows' decisionId with _ | ⟨treated, d, control⟩
    · rfl
    · obtain ⟨control', h⟩ := exists_pairOf_perm hnd' hperm.symm hpair'
      exact absurd (hpair.symm.trans h) (Option.some_ne_none _).symm
  · obtain ⟨control', h⟩ := exists_pairOf_perm hnd hperm hpair
    exact .inr ⟨treated, d, control, control', rfl, h⟩

/-- The matches of two orders, without the controls. -/
theorem withoutControl_matches_perm (hnd : (decisionRows.map DecisionRow.decisionId).Nodup)
    (hperm : decisionRows.Perm decisionRows') :
    (matchInterventions decisionRows interventions).1.map MatchRow.withoutControl =
      (matchInterventions decisionRows' interventions).1.map MatchRow.withoutControl := by
  rw [matchInterventions_eq, matchInterventions_eq, List.map_filterMap, List.map_filterMap]
  refine List.filterMap_congr fun iv _ ↦ ?_
  rw [matchOf, matchOf]
  rcases pairOf_perm_cases hnd hperm iv.decisionId with ⟨h, h'⟩ | ⟨_, _, _, _, h, h'⟩
  · rw [h, h']
  · rw [h, h']
    rfl

/-- The decisions of two orders, without what the controls determine. -/
theorem withoutControl_decisions_perm (hnd : (decisionRows.map DecisionRow.decisionId).Nodup)
    (hperm : decisionRows.Perm decisionRows') :
    ((matchInterventions decisionRows interventions).2.map DecisionRow.withoutControl).Perm
      ((matchInterventions decisionRows' interventions).2.map DecisionRow.withoutControl) := by
  have hmark : ∀ row, (markOf decisionRows row.decisionId row).withoutControl =
      (markOf decisionRows' row.decisionId row).withoutControl := by
    intro row
    rw [markOf, markOf]
    rcases pairOf_perm_cases hnd hperm row.decisionId with ⟨h, h'⟩ | ⟨_, _, _, _, h, h'⟩
    · rw [h, h']
    · rw [h, h']
      simp [mark, DecisionRow.withoutControl]
  rw [matchInterventions_eq, matchInterventions_eq, List.map_map, List.map_map]
  refine (List.Perm.of_eq (List.map_congr_left fun row _ ↦ ?_)).trans (hperm.map _)
  rw [Function.comp_apply, Function.comp_apply, marked, marked]
  split_ifs
  · exact hmark row
  · rfl

/-- **Without ties** the order changes no pair. -/
theorem pairOf_perm_of_noTies (hnd : (decisionRows.map DecisionRow.decisionId).Nodup)
    (hperm : decisionRows.Perm decisionRows') (hties : NoTies decisionRows interventions)
    (hintervened : Intervened interventions decisionId) :
    pairOf decisionRows decisionId = pairOf decisionRows' decisionId := by
  obtain ⟨iv, hiv, hsuccess, rfl⟩ := hintervened
  rcases pairOf_perm_cases hnd hperm iv.decisionId with
    ⟨h, h'⟩ | ⟨treated, d, control, control', h, h'⟩
  · rw [h, h']
  · obtain ⟨hget, -, hfirst⟩ := pairOf_eq_some h
    obtain ⟨-, -, hfirst'⟩ := pairOf_eq_some h'
    obtain ⟨htreated, hid⟩ := (get?_byId hnd).1 hget
    have hcontrols : (controls decisionRows iv.decisionId treated).Perm
        (controls decisionRows' iv.decisionId treated) := hperm.filter _
    have heq : control = control' := hfirst.eq_of_perm hfirst' hcontrols fun row hrow hdist ↦
      hties iv hiv hsuccess treated htreated hid row hrow control hfirst.mem
        (fun _ h ↦ hdist.trans_le (hfirst.le h)) (fun _ h ↦ hfirst.le h)
    rw [h, h', heq]

/-- **Without ties** the order changes nothing. -/
theorem sameMatches_of_noTies (hnd : (decisionRows.map DecisionRow.decisionId).Nodup)
    (hperm : decisionRows.Perm decisionRows') (hties : NoTies decisionRows interventions) :
    SameMatches decisionRows decisionRows' interventions := by
  have hmatches : (matchInterventions decisionRows interventions).1 =
      (matchInterventions decisionRows' interventions).1 := by
    rw [matchInterventions_eq, matchInterventions_eq]
    refine List.filterMap_congr fun iv hiv ↦ ?_
    obtain ⟨hiv, hsuccess⟩ := List.mem_filter.1 hiv
    rw [matchOf, matchOf, pairOf_perm_of_noTies hnd hperm hties ⟨iv, hiv, hsuccess, rfl⟩]
  have hmarked : marked decisionRows (interventions.filter fun iv ↦ iv.success) =
      marked decisionRows' (interventions.filter fun iv ↦ iv.success) := by
    funext row
    rw [marked, marked]
    split_ifs with hid
    · obtain ⟨iv, hiv, hid⟩ := List.mem_map.1 hid
      obtain ⟨hiv, hsuccess⟩ := List.mem_filter.1 hiv
      rw [markOf, markOf, pairOf_perm_of_noTies hnd hperm hties ⟨iv, hiv, hsuccess, hid⟩]
    · rfl
  refine ⟨fun m ↦ by rw [hmatches], fun row ↦ ?_⟩
  rw [matchInterventions_eq, matchInterventions_eq, hmarked]
  exact (hperm.map _).mem_iff

/-- **A nearest decision is the control** in the order that puts it first. -/
theorem exists_perm_pairOf (hnd : (decisionRows.map DecisionRow.decisionId).Nodup)
    (hget : (byId decisionRows).get? decisionId = some treated)
    (hcontrol : control ∈ controls decisionRows decisionId treated)
    (hleast : ∀ row ∈ controls decisionRows decisionId treated,
      dist control treated ≤ dist row treated) :
    ∃ decisionRows', decisionRows.Perm decisionRows' ∧
      ∃ d, pairOf decisionRows' decisionId = some (treated, d, control) := by
  obtain ⟨hrow, hiscontrol⟩ := mem_controls.1 hcontrol
  obtain ⟨pre, post, hsplit⟩ := List.append_of_mem hrow
  have hperm : decisionRows.Perm (control :: (pre ++ post)) := hsplit ▸ List.perm_middle
  have hcons : controls (control :: (pre ++ post)) decisionId treated =
      control :: controls (pre ++ post) decisionId treated :=
    List.filter_cons_of_pos (by simpa using hiscontrol)
  have hcontrols : (controls decisionRows decisionId treated).Perm
      (control :: controls (pre ++ post) decisionId treated) := hcons ▸ hperm.filter _
  obtain ⟨d, control', hpair⟩ := exists_pairOf ((get?_byId_perm hnd hperm).symm.trans hget)
    (hcons ▸ List.mem_cons_self)
  refine ⟨_, hperm, d, ?_⟩
  obtain ⟨-, -, hfirst⟩ := pairOf_eq_some hpair
  rw [hcons] at hfirst
  by_cases heq : control' = control
  · exact heq ▸ hpair
  · -- nothing is before the first row
    rcases @FirstLeast.lt_or_mem _ _ _ _ _ _ [] _ hfirst heq with hlt | ⟨-, hnil⟩
    · exact absurd (hleast control' (hcontrols.mem_iff.2 hfirst.mem)) (not_le.2 hlt)
    · exact absurd hnil List.not_mem_nil

end Order

section Result

variable [LinearOrder F] [OrderedFloat F]

/-- **The order of the table changes the controls only, and what follows from them, exactly where a
decision that was split has two nearest ones.** -/
theorem sameMatches_iff (decisions : List (DecisionRow F)) (interventions : List InterventionRow)
    (hnd : (decisions.map DecisionRow.decisionId).Nodup) :
    (∀ decisions', decisions.Perm decisions' →
      (matchInterventions decisions interventions).1.map MatchRow.withoutControl =
        (matchInterventions decisions' interventions).1.map MatchRow.withoutControl ∧
      ((matchInterventions decisions interventions).2.map DecisionRow.withoutControl).Perm
        ((matchInterventions decisions' interventions).2.map DecisionRow.withoutControl)) ∧
    ((∀ decisions', decisions.Perm decisions' → SameMatches decisions decisions' interventions) ↔
      NoTies decisions interventions) := by
  refine ⟨fun decisions' hperm ↦ ⟨withoutControl_matches_perm hnd hperm,
    withoutControl_decisions_perm hnd hperm⟩, ?_, fun h decisions' hperm ↦
    sameMatches_of_noTies hnd hperm h⟩
  intro h iv hiv hsuccess treated htreated hid c hc c' hc' hleast hleast'
  have hget : (byId decisions).get? iv.decisionId = some treated :=
    (get?_byId hnd).2 ⟨htreated, hid⟩
  -- the control of the order that puts a nearest decision first is the control of the table
  have hcontrol : ∀ c ∈ controls decisions iv.decisionId treated,
      (∀ row ∈ controls decisions iv.decisionId treated, dist c treated ≤ dist row treated) →
      ∃ d control, pairOf decisions iv.decisionId = some (treated, d, control) ∧
        control.decisionId = c.decisionId := by
    intro c hc hleast
    obtain ⟨decisions', hperm, d, hpair⟩ := exists_perm_pairOf hnd hget hc hleast
    have hm := ((h decisions' hperm).1 _).2 <| mem_matchInterventions.2 ⟨iv, hiv, hsuccess,
      matchOf_eq_some.2 ⟨treated, d, c, hpair, rfl⟩⟩
    obtain ⟨iv', -, -, hmatch⟩ := mem_matchInterventions.1 hm
    obtain ⟨treated', d', control, hpair', heq⟩ := matchOf_eq_some.1 hmatch
    obtain ⟨-, hid', hcontrol, -⟩ := MatchRow.mk.inj heq
    rw [hid'] at hpair'
    obtain ⟨hget', -⟩ := pairOf_eq_some hpair'
    obtain rfl := Option.some.inj (hget.symm.trans hget')
    exact ⟨d', control, hpair', hcontrol⟩
  obtain ⟨d, control, hpair, hcid⟩ := hcontrol c hc hleast
  obtain ⟨d', control', hpair', hcid'⟩ := hcontrol c' hc' hleast'
  obtain ⟨-, heq⟩ := Prod.mk.inj (Option.some.inj (hpair.symm.trans hpair'))
  obtain rfl := (Prod.mk.inj heq).2
  exact List.inj_on_of_nodup_map hnd (mem_controls.1 hc).1 (mem_controls.1 hc').1
    (hcid.symm.trans hcid')

end Result

/-! ### Two splits, and a tie -/

section Examples

instance : OrderedFloat ℚ where
  lt_iff _ _ := decide_eq_true_iff
  le_iff _ _ := decide_eq_true_iff

/-- The decisions of candidates with the same features, at one time. -/
def decisionsOf (ids : List PyStr) : List (DecisionRow ℚ) :=
  makeDecisionDataset nestedLoop (ids.map fun id ↦ candidate id 1000) (ids.map feature) ['r']

theorem controlsApart_oneSplit : ControlsApart (decisionsOf [['a'], ['b']]) [split ['a']] := by
  refine (controlsApart_iff _ _).2 fun iv hiv _ treated _ pre c post _ hc hintervened ↦ ?_
  obtain ⟨iv', hiv', -, hid⟩ := hintervened
  obtain rfl := List.mem_singleton.1 hiv
  obtain rfl := List.mem_singleton.1 hiv'
  exact absurd hid.symm hc.1

/-- **Of two decisions that are split, each is the control of the other.** -/
theorem not_controlsApart_twoSplits :
    ¬ ControlsApart (decisionsOf [['a'], ['b']]) [split ['a'], split ['b']] := by
  intro h
  obtain ⟨m, hm, hid⟩ : ∃ m ∈ (matchInterventions (decisionsOf [['a'], ['b']])
      [split ['a'], split ['b']]).1, m.decisionIdControl = ['b'] := by decide
  exact h m hm ⟨split ['b'], by simp, rfl, hid.symm⟩

theorem sameMatches_pair :
    SameMatches (decisionsOf [['a'], ['b']]) (decisionsOf [['b'], ['a']]) [split ['a']] := by
  refine (sameMatches_iff _ _ (by decide)).2.2 ?_ _ (List.Perm.swap _ _ _)
  intro iv hiv _ treated _ _ c hc c' hc' _ _
  obtain rfl := List.mem_singleton.1 hiv
  have honly : ∀ c ∈ controls (decisionsOf [['a'], ['b']]) ['a'] treated,
      c = decision ['r'] (candidate ['b'] 1000, feature ['b']) := by
    intro c hc
    obtain ⟨hrow, hcontrol⟩ := mem_controls.1 hc
    rcases List.mem_cons.1 hrow with rfl | hrow
    · exact absurd rfl hcontrol.1
    · exact List.mem_singleton.1 hrow
  rw [honly c hc, honly c' hc']

/-- **Of two decisions at one distance, the first is the control.** -/
theorem not_sameMatches_tie :
    (decisionsOf [['a'], ['b'], ['c']]).Perm (decisionsOf [['a'], ['c'], ['b']]) ∧
      ¬ SameMatches (decisionsOf [['a'], ['b'], ['c']]) (decisionsOf [['a'], ['c'], ['b']])
        [split ['a']] := by
  refine ⟨(List.Perm.swap _ _ _).cons _, fun h ↦ ?_⟩
  obtain ⟨m, hm, hid⟩ : ∃ m ∈ (matchInterventions (decisionsOf [['a'], ['b'], ['c']])
      [split ['a']]).1, m.decisionIdControl = ['b'] := by decide +kernel
  have hother : ∀ m ∈ (matchInterventions (decisionsOf [['a'], ['c'], ['b']])
      [split ['a']]).1, m.decisionIdControl = ['c'] := by decide +kernel
  exact absurd (hid.symm.trans (hother m ((h.1 m).1 hm))) (by decide)

end Examples

end Analysis.Matching
