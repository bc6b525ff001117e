import HugePageResearch.Library.Run
import HugePageResearch.Thp.InterventionHook

/-!
# Which region is split

An intervention carries the `decision_id` of the candidate that was sampled in the same poll. The
region it splits is drawn a second time. `splits_match_iff` says when the two are the same in every
run: where each poll that comes to an intervention finds regions of one pair of bounds only.

A run is a list of polls and of calls of `pop_data`, each with the random choices it makes. The rows
that count are those ever appended, whether they were popped or not; their ids are numbered by a
counter, so an id names one candidate (`Numbered`).
-/

namespace Thp

/-! ### Runs -/

/-- A call of the hook. -/
inductive Input where
  | poll (i : PollInput)
  | popData

/-- The hook, and what `pop_data` has returned so far. -/
structure World where
  hook : State
  popped : List HookTable

/-- The candidates of a table. -/
def HookTable.candidateRows : HookTable → List THPCandidateRow
  | candidates rows => rows
  | _ => []

/-- The interventions of a table. -/
def HookTable.interventionRows : HookTable → List THPInterventionRow
  | interventions rows => rows
  | _ => []

/-- All candidates that were ever appended. -/
def World.candidates (w : World) : List THPCandidateRow :=
  w.popped.flatMap HookTable.candidateRows ++ w.hook.candidates

/-- All interventions that were ever appended. -/
def World.interventions (w : World) : List THPInterventionRow :=
  w.popped.flatMap HookTable.interventionRows ++ w.hook.interventions

/-- Every intervention splits the region of the candidate with its id. -/
def SplitsMatch (w : World) : Prop :=
  ∀ iv ∈ w.interventions, (∃ c ∈ w.candidates, c.decisionId = iv.decisionId) ∧
    ∀ c ∈ w.candidates, c.decisionId = iv.decisionId → c.region = iv.region

section Steps

variable [Python]

/-- One call, with its random choices. -/
def step (h : HugepageHarness) (w : World) (l : Input × Draws) : Option World :=
  match l.1 with
  | .poll i => some { w with hook := poll h w.hook i l.2 }
  | .popData => some ⟨w.hook.clear, w.popped ++ w.hook.data⟩

/-- The regions of a poll that comes to read `smaps`; none for another poll. -/
def vmaRegions (h : HugepageHarness) (s : State) (i : PollInput) (pid : ℤ) :
    List SmapsVMARegionSample :=
  if i.nowNs - s.lastVmaNs < h.vmaIntervalNs then []
  else (parseSmaps pid i.nowNs (i.smaps pid)).toOption.getD []

/-- The sample of the rollup is due and raises. -/
def rollupRaises (h : HugepageHarness) (s : State) (i : PollInput) (pid : ℤ) : Bool :=
  decide (h.rollupIntervalNs ≤ i.nowNs - s.lastRollupNs) &&
    (sampleRollup { s with lastRollupNs := i.nowNs } i pid).toOption.isNone

/-- The regions of a poll that comes to an intervention; none for another poll. -/
def splitRegions (h : HugepageHarness) (s : State) (i : PollInput) : List SmapsVMARegionSample :=
  match findTargetPid h i.proc with
  | .error _ => []
  | .ok none => []
  | .ok (some pid) =>
    if rollupRaises h s i pid || !interventionDue h s i.nowNs then [] else vmaRegions h s i pid

/-- The process and the regions that a poll goes through, if it comes to any. -/
def reading (h : HugepageHarness) (s : State) (i : PollInput) :
    Option (ℤ × List SmapsVMARegionSample) :=
  match findTargetPid h i.proc with
  | .error _ => none
  | .ok none => none
  | .ok (some pid) =>
    if rollupRaises h s i pid || (vmaRegions h s i pid).isEmpty then none
    else some (pid, vmaRegions h s i pid)

/-- A poll that comes to an intervention finds one pair of bounds. -/
def OneRegion (h : HugepageHarness) (w : World) (l : Input × Draws) : Prop :=
  ∀ i, l.1 = .poll i → ∀ r ∈ splitRegions h w.hook i, ∀ r' ∈ splitRegions h w.hook i,
    r.key = r'.key

end Steps

/-! ### What a poll appends -/

/-- Rows were appended; the candidates are numbered on from the counter. -/
structure Emits (s s' : State) (rows : List THPCandidateRow) (ivs : List THPInterventionRow) :
    Prop where
  candidates : s'.candidates = s.candidates ++ rows
  interventions : s'.interventions = s.interventions ++ ivs
  collectionId : s'.collectionId = s.collectionId
  counter : s'.decisionCounter = s.decisionCounter + rows.length
  ids : rows.map THPCandidateRow.decisionId =
    (List.range' (s.decisionCounter + 1) rows.length).map (candId s.collectionId)

variable {h : HugepageHarness} {s s' s'' : State} {regions : List SmapsVMARegionSample}
  {pid nowNs : ℤ} {r : SmapsVMARegionSample}

namespace Emits

/-- Fields other than the tables may change. -/
theorem of_eq (hc : s'.candidates = s.candidates) (hi : s'.interventions = s.interventions)
    (hid : s'.collectionId = s.collectionId) (hn : s'.decisionCounter = s.decisionCounter) :
    Emits s s' [] [] :=
  ⟨by rw [hc, List.append_nil], by rw [hi, List.append_nil], hid, hn, rfl⟩

theorem trans {rows rows' : List THPCandidateRow} {ivs ivs' : List THPInterventionRow}
    (hs : Emits s s' rows ivs) (hs' : Emits s' s'' rows' ivs') :
    Emits s s'' (rows ++ rows') (ivs ++ ivs') := by
  refine ⟨?_, ?_, hs'.collectionId.trans hs.collectionId, ?_, ?_⟩
  · rw [hs'.candidates, hs.candidates, List.append_assoc]
  · rw [hs'.interventions, hs.interventions, List.append_assoc]
  · rw [hs'.counter, hs.counter, List.length_append, Nat.add_assoc]
  · have hstart : s'.decisionCounter + 1 = s.decisionCounter + 1 + rows.length := by
      rw [hs.counter, Nat.add_right_comm]
    rw [List.map_append, hs.ids, hs'.ids, hs.collectionId, hstart, ← List.map_append,
      List.range'_append_1, List.length_append]

end Emits

/-- Nothing changed but the samples of `smaps` and when they were last due. -/
structure Quiet (s s' : State) : Prop where
  eq : s' = { s with
    rollupSamples := s'.rollupSamples
    vmaSamples := s'.vmaSamples
    lastRollupNs := s'.lastRollupNs
    lastVmaNs := s'.lastVmaNs }

theorem Quiet.refl (s : State) : Quiet s s := ⟨rfl⟩

theorem Quiet.trans (hs : Quiet s s') (hs' : Quiet s' s'') : Quiet s s'' := by
  obtain ⟨hs⟩ := hs
  obtain ⟨hs'⟩ := hs'
  constructor
  rw [hs', hs]

theorem Quiet.emits (hs : Quiet s s') : Emits s s' [] [] := by
  obtain ⟨hs⟩ := hs
  rw [hs]
  exact Emits.of_eq rfl rfl rfl rfl

theorem Quiet.interventionDue_eq (hs : Quiet s s') (now : ℤ) :
    interventionDue h s' now = interventionDue h s now := by
  obtain ⟨hs⟩ := hs
  rw [hs]
  rfl

/-- **Emitting appends one candidate**, of the given region. -/
theorem emitCandidate_emits (s : State) (pid nowNs : ℤ) (ty : CandidateType)
    (r : SmapsVMARegionSample) : ∃ row, Emits s (emitCandidate s pid nowNs ty r).2 [row] [] ∧
      row.decisionId = (emitCandidate s pid nowNs ty r).1 ∧
        row.region = (pid, r.key) :=
  ⟨_, ⟨rfl, (List.append_nil _).symm, rfl, rfl, rfl⟩, rfl, rfl⟩

/-- **A split appends one intervention**, of the given region and decision. -/
theorem runIntervention_emits (s : State) (i : PollInput) (pid : ℤ) (r : SmapsVMARegionSample)
    (decisionId : PyStr) : ∃ iv, Emits s (runIntervention s i pid r decisionId) [] [iv] ∧
      iv.decisionId = decisionId ∧ iv.region = (pid, r.key) :=
  ⟨_, ⟨(List.append_nil _).symm, rfl, rfl, rfl, rfl⟩, rfl, rfl⟩

theorem observeRegion_emits (h : HugepageHarness) (pid nowNs : ℤ) (s : State)
    (r : SmapsVMARegionSample) : ∃ rows, Emits s (observeRegion h pid nowNs s r) rows [] := by
  have hnoted : Emits s (noteRegion nowNs s r) [] [] := Emits.of_eq rfl rfl rfl rfl
  rw [observeRegion]
  rcases s.lastSeenRef.get? r.key with - | prevRef
  · exact ⟨[], hnoted⟩
  · dsimp only
    split_ifs
    · obtain ⟨row, hrow, -⟩ := emitCandidate_emits
        { noteRegion nowNs s r with lastNegativeSampleNs := nowNs } pid nowNs .negative r
      have hset : Emits s { noteRegion nowNs s r with lastNegativeSampleNs := nowNs } [] [] :=
        Emits.of_eq rfl rfl rfl rfl
      exact ⟨[row], hset.trans hrow⟩
    · exact ⟨[], hnoted⟩
    · exact ⟨[], hnoted⟩

/-- The gates of an intervention are not touched by the loop. -/
theorem interventionDue_observeRegion (h : HugepageHarness) (pid nowNs now : ℤ) (s : State)
    (r : SmapsVMARegionSample) :
    interventionDue h (observeRegion h pid nowNs s r) now = interventionDue h s now := by
  rw [observeRegion]
  rcases s.lastSeenRef.get? r.key with - | prevRef
  · rfl
  · dsimp only
    split_ifs <;> rfl

/-- **The loop over the regions** appends negative candidates only. -/
theorem observeRegions_emits (h : HugepageHarness) (pid nowNs : ℤ) (s : State)
    (regions : List SmapsVMARegionSample) :
    (∃ rows, Emits s (observeRegions h pid nowNs s regions) rows []) ∧
      ∀ now, interventionDue h (observeRegions h pid nowNs s regions) now =
        interventionDue h s now := by
  induction regions generalizing s with
  | nil => exact ⟨⟨[], Emits.of_eq rfl rfl rfl rfl⟩, fun _ ↦ rfl⟩
  | cons r regions ih =>
    obtain ⟨rows, hrows⟩ := observeRegion_emits h pid nowNs s r
    obtain ⟨⟨rows', hrows'⟩, hdue⟩ := ih (observeRegion h pid nowNs s r)
    exact ⟨⟨rows ++ rows', hrows.trans hrows'⟩, fun now ↦
      (hdue now).trans (interventionDue_observeRegion h pid nowNs now s r)⟩

/-! ### Random choices -/

theorem choice_mem {α : Type*} {xs : List α} {k : ℕ} {x : α} (hx : choice xs k = some x) :
    x ∈ xs :=
  List.mem_of_getElem? hx

theorem exists_choice {α : Type*} {xs : List α} (hne : xs ≠ []) (k : ℕ) :
    ∃ x, choice xs k = some x :=
  ⟨_, List.getElem?_eq_getElem (Nat.mod_lt k (List.length_pos_of_ne_nil hne))⟩

/-- Every element can be chosen. -/
theorem exists_choice_eq {α : Type*} {xs : List α} {x : α} (hx : x ∈ xs) :
    ∃ k, choice xs k = some x := by
  obtain ⟨k, hk, rfl⟩ := List.mem_iff_getElem.1 hx
  exact ⟨k, by rw [choice, Nat.mod_eq_of_lt hk, List.getElem?_eq_getElem hk]⟩

theorem firstReached_mem {pick run : ℚ} {ws : List (AgeBucket × ℚ)} {b : AgeBucket}
    (hb : firstReached pick run ws = some b) : b ∈ ws.map Prod.fst := by
  induction ws generalizing run with
  | nil => exact absurd hb.symm (Option.some_ne_none b)
  | cons e ws ih =>
    obtain ⟨bucket, weight⟩ := e
    rw [firstReached] at hb
    split_ifs at hb
    · rw [← Option.some.inj hb]
      exact List.mem_cons_self
    · exact List.mem_cons_of_mem _ (ih hb)

theorem byBucket_ne_nil {b : AgeBucket} (hb : b ∈ (weighted h s regions nowNs).map Prod.fst) :
    byBucket s regions nowNs b ≠ [] := by
  rw [weighted, List.map_map] at hb
  obtain ⟨e, he, rfl⟩ := List.mem_map.1 hb
  exact of_decide_eq_true (List.mem_filter.1 he).2

/-- **The region to split is one of the regions.** -/
theorem exists_selectStratifiedRegion (hne : regions ≠ []) (h : HugepageHarness) (s : State)
    (nowNs : ℤ) (d : Draws) :
    ∃ r ∈ regions, selectStratifiedRegion h s regions nowNs d = some r := by
  rw [selectStratifiedRegion]
  rcases hlast : (weighted h s regions nowNs).getLast? with - | last
  · obtain ⟨r, hr⟩ := exists_choice hne d.pick
    exact ⟨r, choice_mem hr, hr⟩
  · dsimp only
    have hmem : (firstReached (d.unit * ((weighted h s regions nowNs).map Prod.snd).sum) 0
        (weighted h s regions nowNs)).getD last.1 ∈ (weighted h s regions nowNs).map Prod.fst := by
      rcases hfirst : firstReached (d.unit * ((weighted h s regions nowNs).map Prod.snd).sum) 0
          (weighted h s regions nowNs) with - | b
      · exact List.mem_map_of_mem (List.mem_of_getLast? hlast)
      · exact firstReached_mem hfirst
    obtain ⟨r, hr⟩ := exists_choice (byBucket_ne_nil hmem) d.pick
    exact ⟨r, List.mem_of_mem_filter (choice_mem hr), hr⟩

/-! ### What a poll does -/

/-- A poll that is not due to intervene. -/
theorem pollRegions_of_not_due (i : PollInput) (d : Draws) (pid : ℤ)
    (regions : List SmapsVMARegionSample) (hdue : interventionDue h s i.nowNs = false) :
    ∃ rows, Emits s (pollRegions h s i d pid regions) rows [] := by
  have hset : Emits s { s with vmaSamples := s.vmaSamples ++ regions } [] [] :=
    Emits.of_eq rfl rfl rfl rfl
  obtain ⟨⟨rows, hrows⟩, hgates⟩ := observeRegions_emits h pid i.nowNs
    { s with vmaSamples := s.vmaSamples ++ regions } regions
  rw [pollRegions]
  rcases choice regions d.sample with - | sampled
  · exact ⟨rows, hset.trans hrows⟩
  · obtain ⟨row, hrow, -⟩ := emitCandidate_emits
      (observeRegions h pid i.nowNs { s with vmaSamples := s.vmaSamples ++ regions } regions)
      pid i.nowNs .sampled sampled
    have hnot : interventionDue h (emitCandidate (observeRegions h pid i.nowNs
        { s with vmaSamples := s.vmaSamples ++ regions } regions) pid i.nowNs .sampled sampled).2
          i.nowNs = false := (hgates i.nowNs).trans hdue
    refine ⟨rows ++ [row], ?_⟩
    dsimp only
    rw [hnot]
    exact (hset.trans hrows).trans hrow

/-- **A poll that is due** splits a region that does not depend on the choice of the sampled
candidate. -/
theorem pollRegions_of_due (i : PollInput) (d : Draws) (pid : ℤ) (hne : regions ≠ [])
    (hdue : interventionDue h s i.nowNs = true) :
    ∃ r ∈ regions, ∀ k sampled, choice regions k = some sampled → ∃ rows row iv,
      Emits s (pollRegions h s i { d with sample := k } pid regions) (rows ++ [row]) [iv] ∧
        iv.decisionId = row.decisionId ∧ row.region = (pid, sampled.key) ∧
          iv.region = (pid, r.key) := by
  have hset : Emits s { s with vmaSamples := s.vmaSamples ++ regions } [] [] :=
    Emits.of_eq rfl rfl rfl rfl
  obtain ⟨⟨rows, hrows⟩, hgates⟩ := observeRegions_emits h pid i.nowNs
    { s with vmaSamples := s.vmaSamples ++ regions } regions
  -- the choice looks at the first sightings only, which the sampled candidate leaves alone
  obtain ⟨r, hr, hselect⟩ := exists_selectStratifiedRegion hne h (observeRegions h pid i.nowNs
    { s with vmaSamples := s.vmaSamples ++ regions } regions) i.nowNs d
  refine ⟨r, hr, fun k sampled hsampled ↦ ?_⟩
  simp only [pollRegions, hsampled]
  generalize observeRegions h pid i.nowNs { s with vmaSamples := s.vmaSamples ++ regions } regions =
    observed at hrows hgates hselect ⊢
  obtain ⟨row, hrow, hid, hregion⟩ := emitCandidate_emits observed pid i.nowNs .sampled sampled
  have hdue' : interventionDue h (emitCandidate observed pid i.nowNs .sampled sampled).2
      i.nowNs = true := (hgates i.nowNs).trans hdue
  have hselect' : selectStratifiedRegion h
      { (emitCandidate observed pid i.nowNs .sampled sampled).2 with lastInterventionNs := i.nowNs }
        regions i.nowNs { d with sample := k } = some r := hselect
  have htimed : Emits (emitCandidate observed pid i.nowNs .sampled sampled).2
      { (emitCandidate observed pid i.nowNs .sampled sampled).2 with lastInterventionNs := i.nowNs }
        [] [] := Emits.of_eq rfl rfl rfl rfl
  obtain ⟨iv, hiv, hivId, hivRegion⟩ := runIntervention_emits
    { (emitCandidate observed pid i.nowNs .sampled sampled).2 with lastInterventionNs := i.nowNs }
      i pid r (emitCandidate observed pid i.nowNs .sampled sampled).1
  refine ⟨rows, row, iv, ?_, hivId.trans hid.symm, hregion, hivRegion⟩
  rw [if_pos hdue', hselect']
  have hall := (((hset.trans hrows).trans hrow).trans htimed).trans hiv
  rwa [List.append_nil, List.append_nil] at hall

section Polls

variable [Python]

/-- The rollup appends to its own table. -/
theorem sampleRollup_ok {i : PollInput} (hs : sampleRollup s i pid = .ok s') :
    ∃ samples, s' = { s with rollupSamples := samples } := by
  rcases hraw : i.smapsRollup pid with - | raw
  · rw [sampleRollup, hraw] at hs
    exact ⟨s.rollupSamples, (Except.ok.inj hs).symm⟩
  rcases hsample : rollupSample pid i.nowNs raw with e | sample
  · simp only [sampleRollup, hraw, hsample] at hs
    cases hs
  · simp only [sampleRollup, hraw, hsample] at hs
    exact ⟨_, (Except.ok.inj hs).symm⟩

/-- Reading `smaps`: the poll stops, or it goes through the regions. -/
theorem pollVma_cases (h : HugepageHarness) (s : State) (i : PollInput) (pid : ℤ) :
    (vmaRegions h s i pid = [] ∧ ∃ s', Quiet s s' ∧
        (s'.lastVmaNs = s.lastVmaNs ∨ h.vmaIntervalNs ≤ s'.lastVmaNs - s.lastVmaNs) ∧
        ∀ d, pollVma h s i d pid = s') ∨
      ∃ s', Quiet s s' ∧ s'.lastVmaNs = i.nowNs ∧
        h.vmaIntervalNs ≤ i.nowNs - s.lastVmaNs ∧ vmaRegions h s i pid ≠ [] ∧
        ∀ d, pollVma h s i d pid = pollRegions h s' i d pid (vmaRegions h s i pid) := by
  have hset : Quiet s { s with lastVmaNs := i.nowNs } := ⟨rfl⟩
  rcases lt_or_ge (i.nowNs - s.lastVmaNs) h.vmaIntervalNs with hearly | hlate
  · exact Or.inl ⟨if_pos hearly, s, Quiet.refl s, Or.inl rfl, fun d ↦ if_pos hearly⟩
  rcases hparse : parseSmaps pid i.nowNs (i.smaps pid) with e | regions
  · refine Or.inl ⟨?_, _, hset, Or.inr hlate, fun d ↦ ?_⟩
    · rw [vmaRegions, if_neg hlate.not_gt, hparse]
      rfl
    · rw [pollVma, if_neg hlate.not_gt]
      simp only [hparse]
  · have hregions : vmaRegions h s i pid = regions := by
      rw [vmaRegions, if_neg hlate.not_gt, hparse]
      rfl
    rw [hregions]
    rcases em (regions = []) with hnil | hne
    · refine Or.inl ⟨hnil, _, hset, Or.inr hlate, fun d ↦ ?_⟩
      rw [pollVma, if_neg hlate.not_gt]
      simp only [hparse, if_pos hnil]
    · refine Or.inr ⟨_, hset, rfl, hlate, hne, fun d ↦ ?_⟩
      rw [pollVma, if_neg hlate.not_gt]
      simp only [hparse, if_neg hne]

/-- What a poll can do: it stops early, or it goes through the regions. -/
def PollCases (h : HugepageHarness) (s : State) (i : PollInput) : Prop :=
  (reading h s i = none ∧ ∃ s', Quiet s s' ∧
      (s'.lastVmaNs = s.lastVmaNs ∨ h.vmaIntervalNs ≤ s'.lastVmaNs - s.lastVmaNs) ∧
      ∀ d, poll h s i d = s') ∨
    ∃ s' pid regions, reading h s i = some (pid, regions) ∧ regions ≠ [] ∧ Quiet s s' ∧
      s'.lastVmaNs = i.nowNs ∧ h.vmaIntervalNs ≤ i.nowNs - s.lastVmaNs ∧
      ∀ d, poll h s i d = pollRegions h s' i d pid regions

/-- A poll that gets past the rollup comes to `smaps`, in a state that differs in the rollup's
fields. -/
theorem exists_poll_eq_pollVma {i : PollInput} (hpid : findTargetPid h i.proc = .ok (some pid))
    (hreads : rollupRaises h s i pid = false) : ∃ s₁, Quiet s s₁ ∧ s₁.lastVmaNs = s.lastVmaNs ∧
      ∀ d, poll h s i d = pollVma h s₁ i d pid := by
  rcases em (h.rollupIntervalNs ≤ i.nowNs - s.lastRollupNs) with hroll | hroll
  · rcases hsample : sampleRollup { s with lastRollupNs := i.nowNs } i pid with e | s₁
    · rw [rollupRaises, hsample, decide_eq_true hroll] at hreads
      cases hreads
    · obtain ⟨samples, hs₁⟩ := sampleRollup_ok hsample
      refine ⟨s₁, by rw [hs₁]; exact ⟨rfl⟩, by rw [hs₁], fun d ↦ ?_⟩
      rw [poll, hpid]
      simp only [if_pos hroll, hsample]
  · refine ⟨s, Quiet.refl s, rfl, fun d ↦ ?_⟩
    rw [poll, hpid]
    simp only [if_neg hroll]

/-- A poll in which the rollup raises stops there. -/
theorem poll_of_rollupRaises {i : PollInput} (hpid : findTargetPid h i.proc = .ok (some pid))
    (hraises : rollupRaises h s i pid = true) (d : Draws) :
    poll h s i d = { s with lastRollupNs := i.nowNs } := by
  rw [rollupRaises, Bool.and_eq_true, decide_eq_true_eq] at hraises
  obtain ⟨hroll, hnone⟩ := hraises
  rcases hsample : sampleRollup { s with lastRollupNs := i.nowNs } i pid with e | s₁
  · rw [poll, hpid]
    simp only [if_pos hroll, hsample]
  · rw [hsample] at hnone
    cases hnone

/-- **What a poll does.** -/
theorem poll_cases (h : HugepageHarness) (s : State) (i : PollInput) : PollCases h s i := by
  rcases hpid : findTargetPid h i.proc with e | - | pid
  · exact Or.inl ⟨by rw [reading, hpid], s, Quiet.refl s, Or.inl rfl, fun d ↦ by rw [poll, hpid]⟩
  · exact Or.inl ⟨by rw [reading, hpid], s, Quiet.refl s, Or.inl rfl, fun d ↦ by rw [poll, hpid]⟩
  rcases hraises : rollupRaises h s i pid with - | -
  · obtain ⟨s₁, hs₁, hvma, hpoll⟩ := exists_poll_eq_pollVma hpid hraises
    have hregions : vmaRegions h s₁ i pid = vmaRegions h s i pid := by
      rw [vmaRegions, hvma, ← vmaRegions]
    have hreading : reading h s i =
        if (vmaRegions h s i pid).isEmpty then none else some (pid, vmaRegions h s i pid) := by
      rw [reading, hpid]
      simp only [hraises, Bool.false_or]
    rcases pollVma_cases h s₁ i pid with
      ⟨hnil, s', hs', hlast, hstop⟩ | ⟨s', hs', hlast, hdue, hne, hgo⟩
    · refine Or.inl ⟨?_, s', hs₁.trans hs', hvma ▸ hlast, fun d ↦ (hpoll d).trans (hstop d)⟩
      rw [hreading, ← hregions, hnil]
      rfl
    · rw [hregions] at hne hgo
      refine Or.inr ⟨s', pid, _, ?_, hne, hs₁.trans hs', hlast, hvma ▸ hdue, fun d ↦
        (hpoll d).trans (hgo d)⟩
      rw [hreading, if_neg (by rwa [List.isEmpty_iff])]
  · refine Or.inl ⟨?_, { s with lastRollupNs := i.nowNs }, ⟨rfl⟩, Or.inl rfl,
      poll_of_rollupRaises hpid hraises⟩
    rw [reading, hpid]
    simp only [hraises, Bool.true_or, if_true]

/-- The regions of an intervention are those that the poll goes through, where it is due. -/
theorem splitRegions_eq (h : HugepageHarness) (s : State) (i : PollInput) :
    splitRegions h s i =
      if interventionDue h s i.nowNs then ((reading h s i).map Prod.snd).getD [] else [] := by
  rcases hpid : findTargetPid h i.proc with e | - | pid
  · rw [splitRegions, reading, hpid]
    exact (ite_self []).symm
  · rw [splitRegions, reading, hpid]
    exact (ite_self []).symm
  · rw [splitRegions, reading, hpid]
    dsimp only
    cases rollupRaises h s i pid <;> cases interventionDue h s i.nowNs <;>
      rcases vmaRegions h s i pid with _ | _ <;> rfl

/-- A poll that does not come to an intervention appends candidates only. -/
theorem poll_of_nil {i : PollInput} (hnil : splitRegions h s i = []) (d : Draws) :
    ∃ rows, Emits s (poll h s i d) rows [] := by
  rcases poll_cases h s i with ⟨-, s', hs', -, hstop⟩ | ⟨s', pid, regions, hr, hne, hs', -, -, hgo⟩
  · exact ⟨[], (hstop d).symm ▸ hs'.emits⟩
  · rw [splitRegions_eq, hr] at hnil
    rcases hd : interventionDue h s i.nowNs with - | -
    · obtain ⟨rows, hrows⟩ :=
        pollRegions_of_not_due i d pid regions ((hs'.interventionDue_eq i.nowNs).trans hd)
      exact ⟨rows, (hgo d).symm ▸ hs'.emits.trans hrows⟩
    · rw [hd] at hnil
      exact absurd hnil hne

/-- **A poll that comes to an intervention** splits a region that does not depend on the choice of
the sampled candidate. -/
theorem poll_of_ne_nil {i : PollInput} (hsome : splitRegions h s i ≠ []) (d : Draws) :
    ∃ pid, ∃ r ∈ splitRegions h s i, ∀ k sampled, choice (splitRegions h s i) k = some sampled →
      ∃ rows row iv, Emits s (poll h s i { d with sample := k }) (rows ++ [row]) [iv] ∧
        iv.decisionId = row.decisionId ∧ row.region = (pid, sampled.key) ∧
          iv.region = (pid, r.key) := by
  rw [splitRegions_eq] at hsome ⊢
  rcases poll_cases h s i with ⟨hnone, -⟩ | ⟨s', pid, regions, hr, hne, hs', -, -, hgo⟩
  · rw [hnone] at hsome
    exact absurd (ite_self []) hsome
  · rw [hr] at hsome ⊢
    rcases hd : interventionDue h s i.nowNs with - | -
    · rw [hd] at hsome
      exact absurd rfl hsome
    · rw [if_pos rfl]
      obtain ⟨r, hr, hall⟩ :=
        pollRegions_of_due i d pid hne ((hs'.interventionDue_eq i.nowNs).trans hd)
      refine ⟨pid, r, hr, fun k sampled hk ↦ ?_⟩
      obtain ⟨rows, row, iv, hemits, hrest⟩ := hall k sampled hk
      exact ⟨rows, row, iv, (hgo _).symm ▸ hs'.emits.trans hemits, hrest⟩

/-! ### What a step appends -/

/-- The ids of all candidates, in order. -/
def Numbered (w : World) : Prop :=
  w.candidates.map THPCandidateRow.decisionId =
    (List.range' 1 w.hook.decisionCounter).map (candId w.hook.collectionId)

omit [Python] in
theorem candId_inj {collectionId : PyStr} {m n : ℕ}
    (hmn : candId collectionId m = candId collectionId n) : m = n := by
  rw [candId, candId, List.append_cancel_left_eq] at hmn
  exact PyStr.ofInt_natCast_inj hmn

omit [Python] in
/-- **An id names one candidate.** -/
theorem Numbered.eq_of_decisionId {w : World} (hw : Numbered w) {c c' : THPCandidateRow}
    (hc : c ∈ w.candidates) (hc' : c' ∈ w.candidates) (hid : c.decisionId = c'.decisionId) :
    c = c' := by
  have hnodup : (w.candidates.map THPCandidateRow.decisionId).Nodup := by
    rw [hw]
    exact List.Nodup.map (fun _ _ ↦ candId_inj) List.nodup_range'
  exact List.inj_on_of_nodup_map hnodup hc hc' hid

/-- Rows were appended to those there were, and ids stay numbered. -/
structure Appends (w w' : World) (rows : List THPCandidateRow) (ivs : List THPInterventionRow) :
    Prop where
  candidates : w'.candidates = w.candidates ++ rows
  interventions : w'.interventions = w.interventions ++ ivs
  numbered : Numbered w → Numbered w'

omit [Python] in
theorem Emits.appends {w : World} {rows : List THPCandidateRow} {ivs : List THPInterventionRow}
    (hs : Emits w.hook s' rows ivs) : Appends w { w with hook := s' } rows ivs := by
  have hc : (World.mk s' w.popped).candidates = w.candidates ++ rows := by
    rw [World.candidates, World.candidates, hs.candidates, List.append_assoc]
  refine ⟨hc, ?_, fun hw ↦ ?_⟩
  · rw [World.interventions, World.interventions, hs.interventions, List.append_assoc]
  · rw [Numbered, hc, List.map_append, hw, hs.ids, ← List.map_append, hs.collectionId, hs.counter,
      Nat.add_comm w.hook.decisionCounter 1, List.range'_append_1]

omit [Python] in
/-- `data` returns the rows of the hook. -/
theorem rows_data (s : State) : s.data.flatMap HookTable.candidateRows = s.candidates ∧
    s.data.flatMap HookTable.interventionRows = s.interventions := by
  rw [State.data]
  constructor <;> split_ifs <;> simp_all [HookTable.candidateRows, HookTable.interventionRows]

omit [Python] in
/-- **Popping moves the rows** from the hook to what was returned. -/
theorem popData_appends (w : World) :
    Appends w ⟨w.hook.clear, w.popped ++ w.hook.data⟩ [] [] := by
  have hc : (World.mk w.hook.clear (w.popped ++ w.hook.data)).candidates = w.candidates := by
    rw [World.candidates, List.flatMap_append, (rows_data w.hook).1]
    exact List.append_nil _
  refine ⟨hc.trans (List.append_nil _).symm, ?_, fun hw ↦ ?_⟩
  · rw [World.interventions, List.flatMap_append, (rows_data w.hook).2, List.append_nil]
    exact List.append_nil _
  · rw [Numbered, hc]
    exact hw

/-- **A step appends rows.** -/
theorem step_appends {w w' : World} {l : Input × Draws} (hstep : step h w l = some w') :
    ∃ rows ivs, Appends w w' rows ivs := by
  obtain ⟨input, d⟩ := l
  rcases input with i | -
  · obtain rfl := Option.some.inj hstep
    rcases em (splitRegions h w.hook i = []) with hnil | hsome
    · obtain ⟨rows, hrows⟩ := poll_of_nil hnil d
      exact ⟨rows, [], hrows.appends⟩
    · obtain ⟨pid, r, -, hall⟩ := poll_of_ne_nil hsome d
      obtain ⟨sampled, hsampled⟩ := exists_choice hsome d.sample
      obtain ⟨rows, row, iv, hemits, -⟩ := hall d.sample sampled hsampled
      exact ⟨rows ++ [row], [iv], hemits.appends⟩
  · obtain rfl := Option.some.inj hstep
    exact ⟨[], [], popData_appends w⟩

/-- **A step whose poll finds one region keeps the property.** -/
theorem step_splitsMatch {w w' : World} {l : Input × Draws} (hw : Numbered w ∧ SplitsMatch w)
    (hone : OneRegion h w l) (hstep : step h w l = some w') : Numbered w' ∧ SplitsMatch w' := by
  -- with numbered ids it is enough to find the candidate of each intervention
  have key : ∀ rows ivs, Appends w w' rows ivs →
      (∀ iv ∈ ivs, ∃ c ∈ rows, c.decisionId = iv.decisionId ∧ c.region = iv.region) →
      Numbered w' ∧ SplitsMatch w' := by
    intro rows ivs happ hnew
    have hnum := happ.numbered hw.1
    refine ⟨hnum, fun iv hiv ↦ ?_⟩
    have hfound : ∃ c ∈ w'.candidates, c.decisionId = iv.decisionId ∧ c.region = iv.region := by
      rw [happ.candidates]
      rw [happ.interventions] at hiv
      rcases List.mem_append.1 hiv with hold | hivs
      · obtain ⟨⟨c, hc, hid⟩, hall⟩ := hw.2 iv hold
        exact ⟨c, List.mem_append_left _ hc, hid, hall c hc hid⟩
      · obtain ⟨c, hc, hrest⟩ := hnew iv hivs
        exact ⟨c, List.mem_append_right _ hc, hrest⟩
    obtain ⟨c, hc, hid, hregion⟩ := hfound
    refine ⟨⟨c, hc, hid⟩, fun c' hc' hid' ↦ ?_⟩
    rw [hnum.eq_of_decisionId hc' hc (hid'.trans hid.symm)]
    exact hregion
  obtain ⟨input, d⟩ := l
  rcases input with i | -
  · obtain rfl := Option.some.inj hstep
    rcases em (splitRegions h w.hook i = []) with hnil | hsome
    · obtain ⟨rows, hrows⟩ := poll_of_nil hnil d
      exact key rows [] hrows.appends fun _ hiv ↦ absurd hiv List.not_mem_nil
    · obtain ⟨pid, r, hr, hall⟩ := poll_of_ne_nil hsome d
      obtain ⟨sampled, hsampled⟩ := exists_choice hsome d.sample
      obtain ⟨rows, row, iv, hemits, hid, hrow, hiv⟩ := hall d.sample sampled hsampled
      refine key (rows ++ [row]) [iv] hemits.appends fun iv' hiv' ↦ ?_
      rw [List.mem_singleton.1 hiv']
      refine ⟨row, List.mem_append_right _ List.mem_cons_self, hid.symm, ?_⟩
      rw [hrow, hiv, hone i rfl sampled (choice_mem hsampled) r hr]
  · obtain rfl := Option.some.inj hstep
    exact key [] [] (popData_appends w) fun _ hiv ↦ absurd hiv List.not_mem_nil

/-- An intervention whose candidate has another region. -/
def Mismatch (w : World) : Prop :=
  ∃ iv ∈ w.interventions, ∃ c ∈ w.candidates, c.decisionId = iv.decisionId ∧ c.region ≠ iv.region

omit [Python] in
theorem Mismatch.not_splitsMatch {w : World} (hw : Mismatch w) : ¬ SplitsMatch w := by
  obtain ⟨iv, hiv, c, hc, hid, hne⟩ := hw
  exact fun hmatch ↦ hne ((hmatch iv hiv).2 c hc hid)

theorem step_mismatch {w w' : World} {l : Input × Draws} (hw : Mismatch w)
    (hstep : step h w l = some w') : Mismatch w' := by
  obtain ⟨rows, ivs, happ⟩ := step_appends hstep
  obtain ⟨iv, hiv, c, hc, hrest⟩ := hw
  refine ⟨iv, ?_, c, ?_, hrest⟩
  · rw [happ.interventions]
    exact List.mem_append_left _ hiv
  · rw [happ.candidates]
    exact List.mem_append_left _ hc

/-- **Two regions and an intervention**: some choice of the sampled candidate makes a mismatch. -/
theorem exists_mismatch {w : World} {l : Input × Draws} (hone : ¬ OneRegion h w l) :
    ∃ d w', step h w (l.1, d) = some w' ∧ Mismatch w' := by
  obtain ⟨input, d⟩ := l
  simp only [OneRegion, not_forall] at hone
  obtain ⟨i, rfl, r₁, hr₁, r₂, hr₂, hne⟩ := hone
  obtain ⟨pid, r, hr, hall⟩ := poll_of_ne_nil (List.ne_nil_of_mem hr₁) d
  -- one of the two differs from the region that is split
  have hother : ∃ r' ∈ splitRegions h w.hook i, r'.key ≠ r.key := by
    rcases em (r₁.key = r.key) with h₁ | h₁
    · exact ⟨r₂, hr₂, fun h₂ ↦ hne (h₁.trans h₂.symm)⟩
    · exact ⟨r₁, hr₁, h₁⟩
  obtain ⟨r', hr', hkey⟩ := hother
  obtain ⟨k, hk⟩ := exists_choice_eq hr'
  obtain ⟨rows, row, iv, hemits, hid, hrow, hiv⟩ := hall k r' hk
  refine ⟨{ d with sample := k }, _, rfl, iv, ?_, row, ?_, hid.symm, ?_⟩
  · rw [hemits.appends.interventions]
    exact List.mem_append_right _ List.mem_cons_self
  · rw [hemits.appends.candidates]
    exact List.mem_append_right _ (List.mem_append_right _ List.mem_cons_self)
  · rw [hrow, hiv]
    exact fun heq ↦ hkey (Prod.mk.inj heq).2

/-! ### Runs -/

theorem exists_step (h : HugepageHarness) (w : World) (l : Input × Draws) :
    ∃ w', step h w l = some w' := by
  obtain ⟨input, d⟩ := l
  rcases input with i | -
  · exact ⟨_, rfl⟩
  · exact ⟨_, rfl⟩

/-- The hook after `load`, before any call. -/
def start (collectionId : PyStr) (startNs : ℤ) : World := ⟨load collectionId startNs, []⟩

/-- **When every split is that of its decision**, in every run on the given inputs: if and only if,
in every such run, each poll that comes to an intervention finds regions of one pair of bounds. -/
theorem splits_match_iff (h : HugepageHarness) (collectionId : PyStr) (startNs : ℤ)
    (inputs : List Input) :
    (∀ ls w, ls.map Prod.fst = inputs →
        Run.exec (step h) (start collectionId startNs) ls = some w → SplitsMatch w) ↔
      ∀ ls, ls.map Prod.fst = inputs →
        Run.Always (step h) (OneRegion h) (start collectionId startNs) ls := by
  constructor
  · intro hmatch ls hls
    by_contra hnot
    obtain ⟨w, hw⟩ := Run.exists_exec (exists_step h) (start collectionId startNs) ls
    obtain ⟨pre, l, post, w₁, w₂, rfl, hpre, hone, -, -⟩ := Run.exists_step_of_not_always hw hnot
    -- the same inputs with another choice in the poll that finds several regions
    obtain ⟨d, w', hstep, hmis⟩ := exists_mismatch hone
    obtain ⟨w'', hpost⟩ := Run.exists_exec (exists_step h) w' post
    have hrun := Run.exec_append hpre (Run.exec_cons.2 ⟨w', hstep, hpost⟩)
    have hmis' : Mismatch w'' :=
      Run.exec_invariant (fun _ _ _ hw hstep ↦ step_mismatch hw hstep) hmis hpost
    refine hmis'.not_splitsMatch (hmatch _ w'' ?_ hrun)
    rw [← hls, List.map_append, List.map_append, List.map_cons, List.map_cons]
  · intro hone ls w hls hrun
    have hstart : Numbered (start collectionId startNs) ∧
        SplitsMatch (start collectionId startNs) :=
      ⟨rfl, fun _ hiv ↦ absurd hiv List.not_mem_nil⟩
    exact (Run.exec_invariant_of_always (fun _ _ _ hw hP hstep ↦ step_splitsMatch hw hP hstep)
      hstart (hone ls hls) hrun).2

end Polls

/-! ### Example -/

/-- The default configuration. -/
def redisHarness : HugepageHarness where
  pidSearch comm := decide ("redis-server".toList <:+: comm)

/-- A poll 100 s after the start that finds two regions. -/
def twoRegions : PollInput where
  nowNs := 100000000000
  proc := [("7".toList, some "redis-server".toList)]
  smapsRollup _ := none
  smaps _ := some ("7f0000000000-7f0000200000 rw-p 00000000 00:00 0\nAnonHugePages: 2048 kB\n" ++
    "7f0000400000-7f0000600000 rw-p 00000000 00:00 0\nAnonHugePages: 2048 kB\n").toList
  split _ := none

/-- Sample the first region, split the second one. -/
def firstThenSecond : Draws where
  sample := 0
  unit := 0
  pick := 1
  unit_nonneg := le_rfl
  unit_lt := zero_lt_one

/-- The hook splits the second region under the id of a candidate of the first. -/
theorem twoRegions_not_splitsMatch :
    ∃ w, Run.exec (@step Python.ascii redisHarness) (start "run-abc".toList 0)
      [(.poll twoRegions, firstThenSecond)] = some w ∧ ¬ SplitsMatch w := by
  refine ⟨_, rfl, Mismatch.not_splitsMatch ?_⟩
  show ∃ iv ∈ World.interventions _, ∃ c ∈ World.candidates _, c.decisionId = iv.decisionId ∧
    c.region ≠ iv.region
  decide +kernel

end Thp
