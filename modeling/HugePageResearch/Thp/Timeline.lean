import HugePageResearch.Library.Paced
import HugePageResearch.Thp.Splits

/-!
# The intervention hook over time

Decisions and interventions are numbered and spaced by counters and times that `poll` updates on its
way and that `pop_data` leaves alone.

## The result

`recorded_timeline`: over any run of polls and pops, ids are distinct; an intervention names the
sampled candidate of its own poll, and no other intervention names it; interventions come after the
warm-up and a period apart, negative candidates a sampling interval apart; and there are no
interventions when they are disabled. The clock need not be monotone.

`Timed` says all of this of a part of a poll, in a form in which the parts of a poll, and then
polls, follow one another (`Timed.trans`).
-/

namespace Thp

variable {h : HugepageHarness} {s s' s'' : State} {regions : List SmapsVMARegionSample}
  {pid now : ℤ} {r : SmapsVMARegionSample}

/-- The candidates of a type. -/
def ofType (ty : CandidateType) (rows : List THPCandidateRow) : List THPCandidateRow :=
  rows.filter fun c ↦ c.candidateType = ty

/-- **What a part of a poll appends, and how it moves the counters and times on.** -/
structure Timed (h : HugepageHarness) (now : ℤ) (s s' : State) (rows : List THPCandidateRow)
    (ivs : List THPInterventionRow) : Prop where
  emits : Emits s s' rows ivs
  started : s'.startedNs = s.startedNs
  counter : s'.interventionCounter = s.interventionCounter + ivs.length
  ids : ivs.map THPInterventionRow.interventionId =
    (List.range' (s.interventionCounter + 1) ivs.length).map (ivId s.collectionId)
  stamped : (∀ c ∈ rows, c.tsNs = now) ∧ ∀ iv ∈ ivs, iv.tsNs = now
  negatives : Paced h.negativeSampleIntervalNs s.lastNegativeSampleNs
    ((ofType .negative rows).map THPCandidateRow.tsNs) s'.lastNegativeSampleNs
  interventions : Paced h.interventionPeriodNs s.lastInterventionNs
    (ivs.map THPInterventionRow.tsNs) s'.lastInterventionNs
  due : ∀ iv ∈ ivs, h.interventionEnabled = true ∧
    h.interventionWarmupNs ≤ iv.tsNs - s.startedNs
  named : List.Sublist (ivs.map THPInterventionRow.decisionId)
    ((ofType .sampled rows).map THPCandidateRow.decisionId)

theorem Quiet.timed (hs : Quiet s s') : Timed h now s s' [] [] := by
  have hemits := hs.emits
  obtain ⟨hs⟩ := hs
  refine ⟨hemits, ?_, ?_, rfl, ⟨List.forall_mem_nil _, List.forall_mem_nil _⟩, ?_, ?_,
    List.forall_mem_nil _, List.Sublist.refl _⟩
  all_goals rw [hs]
  · rfl
  · exact Paced.nil
  · exact Paced.nil

/-- **Parts of a poll follow one another.** -/
theorem Timed.trans {rows rows' : List THPCandidateRow} {ivs ivs' : List THPInterventionRow}
    (hs : Timed h now s s' rows ivs) (hs' : Timed h now s' s'' rows' ivs') :
    Timed h now s s'' (rows ++ rows') (ivs ++ ivs') where
  emits := hs.emits.trans hs'.emits
  started := hs'.started.trans hs.started
  counter := by rw [hs'.counter, hs.counter, List.length_append, Nat.add_assoc]
  ids := by
    have hstart : s'.interventionCounter + 1 = s.interventionCounter + 1 + ivs.length := by
      rw [hs.counter, Nat.add_right_comm]
    rw [List.map_append, hs.ids, hs'.ids, hs.emits.collectionId, hstart, ← List.map_append,
      List.range'_append_1, List.length_append]
  stamped := ⟨List.forall_mem_append.2 ⟨hs.stamped.1, hs'.stamped.1⟩,
    List.forall_mem_append.2 ⟨hs.stamped.2, hs'.stamped.2⟩⟩
  negatives := by
    rw [ofType, List.filter_append, List.map_append]
    exact hs.negatives.append hs'.negatives
  interventions := by
    rw [List.map_append]
    exact hs.interventions.append hs'.interventions
  due := by
    refine List.forall_mem_append.2 ⟨hs.due, ?_⟩
    rw [← hs.started]
    exact hs'.due
  named := by
    rw [ofType, List.filter_append, List.map_append, List.map_append]
    exact hs.named.append hs'.named

/-! ### A poll -/

/-- **One region of the loop**: nothing, or a negative candidate that is due. -/
theorem observeRegion_timed (h : HugepageHarness) (pid now : ℤ) (s : State)
    (r : SmapsVMARegionSample) : ∃ rows, Timed h now s (observeRegion h pid now s r) rows [] := by
  have hnoted : Timed h now s (noteRegion now s r) [] [] :=
    ⟨Emits.of_eq rfl rfl rfl rfl, rfl, rfl, rfl, ⟨List.forall_mem_nil _, List.forall_mem_nil _⟩,
      Paced.nil, Paced.nil, List.forall_mem_nil _, List.Sublist.refl _⟩
  rw [observeRegion]
  rcases s.lastSeenRef.get? r.key with - | prevRef
  · exact ⟨[], hnoted⟩
  · dsimp only
    split_ifs with href hdue
    · have hemit : Timed h now (noteRegion now s r)
          (emitCandidate { noteRegion now s r with lastNegativeSampleNs := now } pid now
            .negative r).2 [_] [] :=
        ⟨⟨rfl, (List.append_nil _).symm, rfl, rfl, rfl⟩, rfl, rfl, rfl,
          ⟨by simp, List.forall_mem_nil _⟩, Paced.single hdue, Paced.nil, List.forall_mem_nil _,
          List.nil_sublist _⟩
      exact ⟨_, hnoted.trans hemit⟩
    · exact ⟨[], hnoted⟩
    · exact ⟨[], hnoted⟩

theorem observeRegions_timed (h : HugepageHarness) (pid now : ℤ) (s : State)
    (regions : List SmapsVMARegionSample) :
    ∃ rows, Timed h now s (observeRegions h pid now s regions) rows [] := by
  induction regions generalizing s with
  | nil => exact ⟨[], (Quiet.refl s).timed⟩
  | cons r regions ih =>
    obtain ⟨rows, hrows⟩ := observeRegion_timed h pid now s r
    obtain ⟨rows', hrows'⟩ := ih (observeRegion h pid now s r)
    exact ⟨rows ++ rows', hrows.trans hrows'⟩

/-- The sampled candidate of a poll that is not due to intervene. -/
theorem emitCandidate_timed (s : State) (pid now : ℤ) (r : SmapsVMARegionSample) :
    ∃ row, Timed h now s (emitCandidate s pid now .sampled r).2 [row] [] :=
  ⟨_, ⟨rfl, (List.append_nil _).symm, rfl, rfl, rfl⟩, rfl, rfl, rfl,
    ⟨by simp, List.forall_mem_nil _⟩, Paced.nil, Paced.nil, List.forall_mem_nil _,
    List.nil_sublist _⟩

theorem interventionDue_iff : interventionDue h s now = true ↔ h.interventionEnabled = true ∧
    h.interventionWarmupNs ≤ now - s.startedNs ∧
      h.interventionPeriodNs ≤ now - s.lastInterventionNs := by
  simp [interventionDue, and_assoc]

/-- **The sampled candidate of a poll that is due**, and the intervention that names it. -/
theorem runIntervention_timed (i : PollInput) (pid : ℤ) (sampled r : SmapsVMARegionSample)
    (hdue : interventionDue h s i.nowNs = true) :
    ∃ row iv, Timed h i.nowNs s (runIntervention
      { (emitCandidate s pid i.nowNs .sampled sampled).2 with lastInterventionNs := i.nowNs } i pid
        r (emitCandidate s pid i.nowNs .sampled sampled).1) [row] [iv] := by
  obtain ⟨henabled, hwarm, hperiod⟩ := interventionDue_iff.1 hdue
  refine ⟨_, _, ⟨rfl, rfl, rfl, rfl, rfl⟩, rfl, rfl, rfl, ⟨by simp, by simp⟩, Paced.nil,
    Paced.single hperiod, ?_, List.Sublist.refl _⟩
  intro iv hiv
  rw [List.mem_singleton.1 hiv]
  exact ⟨henabled, hwarm⟩

/-- **The part of a poll that goes through regions.** -/
theorem pollRegions_timed (i : PollInput) (d : Draws) (pid : ℤ) (hne : regions ≠ []) :
    ∃ rows ivs, Timed h i.nowNs s (pollRegions h s i d pid regions) rows ivs := by
  have hset : Quiet s { s with vmaSamples := s.vmaSamples ++ regions } := ⟨rfl⟩
  obtain ⟨rows, hrows⟩ := observeRegions_timed h pid i.nowNs
    { s with vmaSamples := s.vmaSamples ++ regions } regions
  have hloop := hset.timed.trans hrows
  obtain ⟨sampled, hsampled⟩ := exists_choice hne d.sample
  simp only [pollRegions, hsampled]
  generalize observeRegions h pid i.nowNs { s with vmaSamples := s.vmaSamples ++ regions } regions =
    observed at hloop ⊢
  split_ifs with hdue
  · obtain ⟨r, -, hr⟩ := exists_selectStratifiedRegion hne h
      { (emitCandidate observed pid i.nowNs .sampled sampled).2 with
        lastInterventionNs := i.nowNs } i.nowNs d
    rw [hr]
    obtain ⟨row, iv, htimed⟩ := runIntervention_timed (s := observed) i pid sampled r hdue
    exact ⟨_, _, hloop.trans htimed⟩
  · obtain ⟨row, hrow⟩ := emitCandidate_timed (h := h) observed pid i.nowNs sampled
    exact ⟨_, _, hloop.trans hrow⟩

section Polls

variable [Python]

/-- **A poll.** -/
theorem poll_timed (h : HugepageHarness) (s : State) (i : PollInput) (d : Draws) :
    ∃ rows ivs, Timed h i.nowNs s (poll h s i d) rows ivs := by
  rcases poll_cases h s i with ⟨-, s', hs', -, hstop⟩ | ⟨s', pid, regions, -, hne, hs', -, -, hgo⟩
  · exact ⟨[], [], (hstop d).symm ▸ hs'.timed⟩
  · obtain ⟨rows, ivs, htimed⟩ := pollRegions_timed (h := h) (s := s') i d pid hne
    exact ⟨_, _, (hgo d).symm ▸ hs'.timed.trans htimed⟩

/-! ### Runs -/

/-- What a poll appended, and when it ran. -/
structure Batch where
  nowNs : ℤ
  candidates : List THPCandidateRow
  interventions : List THPInterventionRow

/-- What each poll of a run appends. -/
def batches (h : HugepageHarness) : World → List (Input × Draws) → List Batch
  | _, [] => []
  | w, l :: ls =>
    match l.1 with
    | .poll i =>
      let s := poll h w.hook i l.2
      ⟨i.nowNs, s.candidates.drop w.hook.candidates.length,
          s.interventions.drop w.hook.interventions.length⟩ ::
        batches h { w with hook := s } ls
    | .popData => batches h ⟨w.hook.clear, w.popped ++ w.hook.data⟩ ls

omit [Python] in
theorem ivId_inj {collectionId : PyStr} {m n : ℕ}
    (hmn : ivId collectionId m = ivId collectionId n) : m = n := by
  rw [ivId, ivId, List.append_cancel_left_eq] at hmn
  exact PyStr.ofInt_natCast_inj hmn

/-- **What holds after any run**, of all rows that were ever appended. -/
structure Kept (h : HugepageHarness) (startNs : ℤ) (w : World) : Prop where
  numbered : Numbered w
  ids : w.interventions.map THPInterventionRow.interventionId =
    (List.range' 1 w.hook.interventionCounter).map (ivId w.hook.collectionId)
  started : w.hook.startedNs = startNs
  negatives : Paced h.negativeSampleIntervalNs 0
    ((ofType .negative w.candidates).map THPCandidateRow.tsNs) w.hook.lastNegativeSampleNs
  interventions : Paced h.interventionPeriodNs 0
    (w.interventions.map THPInterventionRow.tsNs) w.hook.lastInterventionNs
  due : ∀ iv ∈ w.interventions, h.interventionEnabled = true ∧
    h.interventionWarmupNs ≤ iv.tsNs - startNs
  named : List.Sublist (w.interventions.map THPInterventionRow.decisionId)
    ((ofType .sampled w.candidates).map THPCandidateRow.decisionId)

omit [Python] in
/-- **A poll adds to what holds.** -/
theorem Timed.kept {startNs : ℤ} {w : World} {rows : List THPCandidateRow}
    {ivs : List THPInterventionRow} (hs : Timed h now w.hook s' rows ivs)
    (hw : Kept h startNs w) : Kept h startNs { w with hook := s' } := by
  have happ := hs.emits.appends
  refine ⟨happ.numbered hw.numbered, ?_, hs.started.trans hw.started, ?_, ?_, ?_, ?_⟩
  · rw [happ.interventions, List.map_append, hw.ids, hs.ids, ← List.map_append,
      hs.emits.collectionId, hs.counter, Nat.add_comm w.hook.interventionCounter 1,
      List.range'_append_1]
  · rw [happ.candidates, ofType, List.filter_append, List.map_append]
    exact hw.negatives.append hs.negatives
  · rw [happ.interventions, List.map_append]
    exact hw.interventions.append hs.interventions
  · rw [happ.interventions]
    refine List.forall_mem_append.2 ⟨hw.due, ?_⟩
    rw [← hw.started]
    exact hs.due
  · rw [happ.interventions, happ.candidates, ofType, List.filter_append, List.map_append,
      List.map_append]
    exact hw.named.append hs.named

omit [Python] in
/-- A pop changes nothing of it. -/
theorem Kept.popData {startNs : ℤ} {w : World} (hw : Kept h startNs w) :
    Kept h startNs ⟨w.hook.clear, w.popped ++ w.hook.data⟩ := by
  have happ := popData_appends w
  have hc := happ.candidates.trans (List.append_nil _)
  have hi := happ.interventions.trans (List.append_nil _)
  refine ⟨happ.numbered hw.numbered, ?_, hw.started, ?_, ?_, ?_, ?_⟩
  · rw [hi]
    exact hw.ids
  · rw [hc]
    exact hw.negatives
  · rw [hi]
    exact hw.interventions
  · rw [hi]
    exact hw.due
  · rw [hi, hc]
    exact hw.named

theorem kept_step {startNs : ℤ} {w w' : World} {l : Input × Draws} (hw : Kept h startNs w)
    (hstep : step h w l = some w') : Kept h startNs w' := by
  obtain ⟨i | -, d⟩ := l
  · obtain rfl := Option.some.inj hstep
    obtain ⟨rows, ivs, htimed⟩ := poll_timed h w.hook i d
    exact htimed.kept hw
  · obtain rfl := Option.some.inj hstep
    exact hw.popData

omit [Python] in
theorem kept_start (h : HugepageHarness) (collectionId : PyStr) (startNs : ℤ) :
    Kept h startNs (start collectionId startNs) :=
  ⟨rfl, rfl, rfl, Paced.nil, Paced.nil, List.forall_mem_nil _, List.Sublist.refl _⟩

/-- An intervention of a poll names its sampled candidate, and all rows carry its time. -/
def Batch.Named (b : Batch) : Prop :=
  (∀ c ∈ b.candidates, c.tsNs = b.nowNs) ∧ ∀ iv ∈ b.interventions, iv.tsNs = b.nowNs ∧
    ∃ c ∈ b.candidates, c.candidateType = .sampled ∧ c.decisionId = iv.decisionId

omit [Python] in
theorem Timed.named_batch {rows : List THPCandidateRow} {ivs : List THPInterventionRow}
    (hs : Timed h now s s' rows ivs) : Batch.Named ⟨now, rows, ivs⟩ := by
  refine ⟨hs.stamped.1, fun iv hiv ↦ ⟨hs.stamped.2 iv hiv, ?_⟩⟩
  obtain ⟨c, hc, hid⟩ := List.mem_map.1 (hs.named.subset (List.mem_map_of_mem hiv))
  obtain ⟨hc, hty⟩ := List.mem_filter.1 hc
  exact ⟨c, hc, of_decide_eq_true hty, hid⟩

/-- **A run appends batch by batch.** -/
theorem exec_batches {w t : World} {ls : List (Input × Draws)}
    (hrun : Run.exec (step h) w ls = some t) :
    t.candidates = w.candidates ++ (batches h w ls).flatMap Batch.candidates ∧
      t.interventions = w.interventions ++ (batches h w ls).flatMap Batch.interventions ∧
        ∀ b ∈ batches h w ls, b.Named := by
  induction ls generalizing w with
  | nil =>
    obtain rfl := Option.some.inj hrun
    exact ⟨(List.append_nil _).symm, (List.append_nil _).symm, List.forall_mem_nil _⟩
  | cons l ls ih =>
    obtain ⟨w', hstep, hls⟩ := Run.exec_cons.1 hrun
    obtain ⟨hc, hi, hb⟩ := ih hls
    obtain ⟨i | -, d⟩ := l
    · obtain rfl := Option.some.inj hstep
      obtain ⟨rows, ivs, htimed⟩ := poll_timed h w.hook i d
      have happ := htimed.emits.appends
      have hrows : (poll h w.hook i d).candidates.drop w.hook.candidates.length = rows := by
        rw [htimed.emits.candidates, List.drop_left]
      have hivs : (poll h w.hook i d).interventions.drop w.hook.interventions.length = ivs := by
        rw [htimed.emits.interventions, List.drop_left]
      simp only [batches, hrows, hivs, List.flatMap_cons]
      refine ⟨?_, ?_, List.forall_mem_cons.2 ⟨htimed.named_batch, hb⟩⟩
      · rw [hc, happ.candidates, List.append_assoc]
      · rw [hi, happ.interventions, List.append_assoc]
    · obtain rfl := Option.some.inj hstep
      have happ := popData_appends w
      rw [happ.candidates.trans (List.append_nil _)] at hc
      rw [happ.interventions.trans (List.append_nil _)] at hi
      exact ⟨hc, hi, hb⟩

/-- **What a run records**: ids are distinct, and so are the decisions that interventions name; the
rows are those of the polls, and an intervention names the sampled candidate of its own poll, with
its time; interventions are no earlier than the warm-up after the start and a period apart, negative
candidates a sampling interval apart; and none happens when they are disabled. -/
theorem recorded_timeline (h : HugepageHarness) (collectionId : PyStr) (startNs : ℤ)
    (ls : List (Input × Draws)) (w : World)
    (hrun : Run.exec (step h) (start collectionId startNs) ls = some w) :
    (w.candidates.map THPCandidateRow.decisionId).Nodup ∧
    (w.interventions.map THPInterventionRow.interventionId).Nodup ∧
    (w.interventions.map THPInterventionRow.decisionId).Nodup ∧
    w.candidates = (batches h (start collectionId startNs) ls).flatMap Batch.candidates ∧
    w.interventions = (batches h (start collectionId startNs) ls).flatMap Batch.interventions ∧
    (∀ b ∈ batches h (start collectionId startNs) ls, b.Named) ∧
    (∀ iv ∈ w.interventions, h.interventionWarmupNs ≤ iv.tsNs - startNs) ∧
    (w.interventions.map THPInterventionRow.tsNs).IsChain
      (fun t t' ↦ h.interventionPeriodNs ≤ t' - t) ∧
    ((ofType .negative w.candidates).map THPCandidateRow.tsNs).IsChain
      (fun t t' ↦ h.negativeSampleIntervalNs ≤ t' - t) ∧
    (h.interventionEnabled = false → w.interventions = []) := by
  have hw : Kept h startNs w :=
    Run.exec_invariant (fun _ _ _ ↦ kept_step) (kept_start h collectionId startNs) hrun
  obtain ⟨hc, hi, hb⟩ := exec_batches hrun
  have hids : (w.candidates.map THPCandidateRow.decisionId).Nodup := by
    rw [hw.numbered]
    exact List.Nodup.map (fun _ _ ↦ candId_inj) List.nodup_range'
  refine ⟨hids, ?_, ?_, hc, hi, hb, fun iv hiv ↦ (hw.due iv hiv).2, hw.interventions.isChain,
    hw.negatives.isChain, fun hoff ↦ List.eq_nil_iff_forall_not_mem.2 fun iv hiv ↦ ?_⟩
  · rw [hw.ids]
    exact List.Nodup.map (fun _ _ ↦ ivId_inj) List.nodup_range'
  · exact (hids.sublist ((List.filter_sublist).map _)).sublist hw.named
  · rw [(hw.due iv hiv).1] at hoff
    cases hoff

end Polls

/-! ### Example -/

/-- Two polls ten seconds apart, with a pop in between. -/
def tenSecondsApart : List (Input × Draws) :=
  [(.poll twoRegions, firstThenSecond), (.popData, firstThenSecond),
    (.poll { twoRegions with nowNs := 110000000000 }, firstThenSecond)]

/-- Both polls intervene. -/
theorem recorded_timeline_tenSecondsApart :
    letI := Python.ascii
    ∃ w, Run.exec (step redisHarness) (start "run-abc".toList 0) tenSecondsApart = some w ∧
      w.interventions.map THPInterventionRow.tsNs = [100000000000, 110000000000] ∧
      (w.interventions.map THPInterventionRow.decisionId).Nodup ∧
      (w.interventions.map THPInterventionRow.tsNs).IsChain
        (fun t t' ↦ redisHarness.interventionPeriodNs ≤ t' - t) := by
  let _ := Python.ascii
  have htimes : (Run.exec (step redisHarness) (start "run-abc".toList 0) tenSecondsApart).map
      (fun w ↦ w.interventions.map THPInterventionRow.tsNs) =
        some [100000000000, 110000000000] := by
    decide +kernel
  obtain ⟨w, hw, htimes⟩ := Option.map_eq_some_iff.1 htimes
  obtain ⟨-, -, hnamed, -, -, -, -, hchain, -⟩ := recorded_timeline _ _ _ _ _ hw
  exact ⟨w, hw, htimes, hnamed, hchain⟩

end Thp
