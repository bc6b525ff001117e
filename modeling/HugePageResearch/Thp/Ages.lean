import HugePageResearch.Thp.Timeline
import Mathlib.Algebra.Order.Field.Basic
import Mathlib.Algebra.Order.Ring.Cast
import Mathlib.Tactic.NormNum

/-!
# The ages that the intervention hook records

An age is the time since the bounds of a region were first seen. It stands in the row of a
candidate, where it counts as censored, and decides the bucket of an intervention, where it counts
as known.

`ages_of_exec`: where the clock does not go back, in any run of polls and pops, every candidate is
censored and every intervention has one of the three buckets.
-/

namespace Thp

/-! ### Buckets -/

/-- **An age has a bucket.** -/
theorem ageBucketFor_ne_unknown {age : ℚ} (hage : 0 ≤ age) :
    ageBucketFor (some age) false ≠ .unknown := by
  have hcases : ageBucketFor (some age) false =
      if age < 30 then .young else if age < 300 then .mid else .old := by
    rcases lt_or_ge age 30 with hyoung | hmid
    · simp [ageBucketFor, ageBuckets, hage, hyoung]
    · rcases lt_or_ge age 300 with hold | hold
      · simp [ageBucketFor, ageBuckets, hmid, hmid.not_gt, hold]
      · simp [ageBucketFor, ageBuckets, hmid.not_gt, hold, hold.not_gt]
  rw [hcases]
  split_ifs <;> exact AgeBucket.noConfusion

/-- A negative age has none. -/
theorem ageBucketFor_of_neg {age : ℚ} (hage : age < 0) :
    ageBucketFor (some age) false = .unknown := by
  have hmid : age < 30 := hage.trans (by norm_num)
  have hold : age < 300 := hage.trans (by norm_num)
  simp [ageBucketFor, ageBuckets, hage.not_ge, hmid.not_ge, hold.not_ge]

/-! ### Polls -/

variable {h : HugepageHarness} {s s' : State} {regions : List SmapsVMARegionSample}
  {pid now : ℤ} {r : SmapsVMARegionSample}

/-- **What is recorded by a time**: nothing was first seen later, candidates are censored, and
interventions have a bucket. -/
structure Aging (now : ℤ) (s : State) : Prop where
  seen : ∀ key t, s.firstSeenNs.get? key = some t → t ≤ now
  censored : ∀ c ∈ s.candidates, c.ageCensored = true
  known : ∀ iv ∈ s.interventions, iv.ageBucket ≠ .unknown

namespace Aging

theorem quiet (hs : Aging now s) (hquiet : Quiet s s') : Aging now s' := by
  obtain ⟨hquiet⟩ := hquiet
  rw [hquiet]
  exact ⟨hs.seen, hs.censored, hs.known⟩

theorem mono {now' : ℤ} (hs : Aging now s) (hle : now ≤ now') : Aging now' s :=
  ⟨fun key t ht ↦ (hs.seen key t ht).trans hle, hs.censored, hs.known⟩

/-- An age by this time is not negative. -/
theorem ageSec_nonneg (hs : Aging now s) (key : ℤ × ℤ) : 0 ≤ s.ageSec key now := by
  have hle : (s.firstSeenNs.get? key).getD now ≤ now := by
    rcases hget : s.firstSeenNs.get? key with _ | t
    · exact le_rfl
    · exact hs.seen key t hget
  exact div_nonneg (Int.cast_nonneg (sub_nonneg.2 hle)) (by norm_num)

theorem noteRegion (hs : Aging now s) (r : SmapsVMARegionSample) :
    Aging now (noteRegion now s r) := by
  refine ⟨fun key t ht ↦ ?_, hs.censored, hs.known⟩
  simp only [Thp.noteRegion] at ht
  split_ifs at ht with hsome
  · exact hs.seen key t ht
  · rw [Dict.get?_set] at ht
    split_ifs at ht with hkey
    · exact (Option.some.inj ht).ge
    · exact hs.seen key t ht

theorem emitCandidate (hs : Aging now s) (pid : ℤ) (ty : CandidateType)
    (r : SmapsVMARegionSample) : Aging now (emitCandidate s pid now ty r).2 := by
  refine ⟨hs.seen, List.forall_mem_append.2 ⟨hs.censored, fun c hc ↦ ?_⟩, hs.known⟩
  rw [List.mem_singleton.1 hc]

theorem observeRegion (hs : Aging now s) (h : HugepageHarness) (pid : ℤ)
    (r : SmapsVMARegionSample) : Aging now (observeRegion h pid now s r) := by
  have hnoted := hs.noteRegion r
  rw [Thp.observeRegion]
  rcases s.lastSeenRef.get? r.key with _ | prevRef
  · exact hnoted
  · dsimp only
    split_ifs
    · have hset : Aging now { Thp.noteRegion now s r with lastNegativeSampleNs := now } :=
        ⟨hnoted.seen, hnoted.censored, hnoted.known⟩
      exact hset.emitCandidate pid .negative r
    · exact hnoted
    · exact hnoted

theorem observeRegions (hs : Aging now s) (h : HugepageHarness) (pid : ℤ)
    (regions : List SmapsVMARegionSample) : Aging now (observeRegions h pid now s regions) := by
  induction regions generalizing s with
  | nil => exact hs
  | cons r regions ih => exact ih (hs.observeRegion h pid r)

/-- **An intervention has a bucket.** -/
theorem runIntervention {i : PollInput} (hs : Aging i.nowNs s) (pid : ℤ)
    (r : SmapsVMARegionSample) (decisionId : PyStr) :
    Aging i.nowNs (runIntervention s i pid r decisionId) := by
  refine ⟨hs.seen, hs.censored, List.forall_mem_append.2 ⟨hs.known, fun iv hiv ↦ ?_⟩⟩
  rw [List.mem_singleton.1 hiv]
  exact ageBucketFor_ne_unknown (hs.ageSec_nonneg r.key)

theorem pollRegions {i : PollInput} (hs : Aging i.nowNs s) (h : HugepageHarness) (d : Draws)
    (pid : ℤ) (regions : List SmapsVMARegionSample) :
    Aging i.nowNs (pollRegions h s i d pid regions) := by
  have hset : Aging i.nowNs { s with vmaSamples := s.vmaSamples ++ regions } :=
    ⟨hs.seen, hs.censored, hs.known⟩
  have hloop := hset.observeRegions h pid regions
  rw [Thp.pollRegions]
  dsimp only
  rcases choice regions d.sample with _ | sampled
  · exact hloop
  · have hsampled := hloop.emitCandidate pid .sampled sampled
    dsimp only
    split_ifs
    · have hset' : Aging i.nowNs { (Thp.emitCandidate (Thp.observeRegions h pid i.nowNs
          { s with vmaSamples := s.vmaSamples ++ regions } regions) pid i.nowNs .sampled sampled).2
          with lastInterventionNs := i.nowNs } :=
        ⟨hsampled.seen, hsampled.censored, hsampled.known⟩
      rcases selectStratifiedRegion h _ regions i.nowNs d with _ | r
      · exact hset'
      · exact hset'.runIntervention pid r _
    · exact hsampled

end Aging

section Polls

variable [Python]

/-- **A poll.** -/
theorem Aging.poll {i : PollInput} (hs : Aging i.nowNs s) (h : HugepageHarness) (d : Draws) :
    Aging i.nowNs (poll h s i d) := by
  rcases poll_cases h s i with ⟨-, s', hs', -, hstop⟩ | ⟨s', pid, regions, -, -, hs', -, -, hgo⟩
  · exact (hstop d).symm ▸ hs.quiet hs'
  · exact (hgo d).symm ▸ (hs.quiet hs').pollRegions h d pid regions

/-! ### Runs -/

omit [Python] in
/-- The time of a poll. -/
def pollTime (l : Input × Draws) : Option ℤ :=
  match l.1 with
  | .poll i => some i.nowNs
  | .popData => none

/-- **What is recorded by a time** in a run. -/
structure Ages (now : ℤ) (w : World) : Prop where
  seen : ∀ key t, w.hook.firstSeenNs.get? key = some t → t ≤ now
  censored : ∀ c ∈ w.candidates, c.ageCensored = true
  known : ∀ iv ∈ w.interventions, iv.ageBucket ≠ .unknown

omit [Python] in
theorem Ages.hook {w : World} (hw : Ages now w) : Aging now w.hook :=
  ⟨hw.seen, fun c hc ↦ hw.censored c (List.mem_append_right _ hc),
    fun iv hiv ↦ hw.known iv (List.mem_append_right _ hiv)⟩

omit [Python] in
/-- A poll leaves what was popped. -/
theorem Ages.withHook {now' : ℤ} {w : World} (hw : Ages now w) (hs : Aging now' s) :
    Ages now' { w with hook := s } := by
  refine ⟨hs.seen, List.forall_mem_append.2 ⟨fun c hc ↦ ?_, hs.censored⟩,
    List.forall_mem_append.2 ⟨fun iv hiv ↦ ?_, hs.known⟩⟩
  · exact hw.censored c (List.mem_append_left _ hc)
  · exact hw.known iv (List.mem_append_left _ hiv)

omit [Python] in
theorem Ages.popData {w : World} (hw : Ages now w) :
    Ages now ⟨w.hook.clear, w.popped ++ w.hook.data⟩ := by
  have happ := popData_appends w
  refine ⟨hw.seen, ?_, ?_⟩
  · rw [happ.candidates, List.append_nil]
    exact hw.censored
  · rw [happ.interventions, List.append_nil]
    exact hw.known

/-- **Where the clock does not go back**, the ages of a run are right. -/
theorem ages_of_exec {ls : List (Input × Draws)} {w w' : World}
    (hclock : (ls.filterMap pollTime).Pairwise (· ≤ ·))
    (hstart : ∀ t ∈ ls.filterMap pollTime, now ≤ t) (hw : Ages now w)
    (hrun : Run.exec (step h) w ls = some w') : ∃ now', Ages now' w' := by
  induction ls generalizing w now with
  | nil =>
    obtain rfl := Option.some.inj hrun
    exact ⟨now, hw⟩
  | cons l ls ih =>
    obtain ⟨w'', hstep, hrest⟩ := Run.exec_cons.1 hrun
    obtain ⟨i | -, d⟩ := l
    · obtain rfl := Option.some.inj hstep
      rw [List.filterMap_cons] at hclock hstart
      obtain ⟨hfirst, hclock⟩ := List.pairwise_cons.1 hclock
      have hle : now ≤ i.nowNs := hstart i.nowNs List.mem_cons_self
      exact ih hclock hfirst (hw.withHook ((hw.hook.mono hle).poll h d)) hrest
    · obtain rfl := Option.some.inj hstep
      exact ih hclock hstart hw.popData hrest

omit [Python] in
theorem ages_start (now : ℤ) (collectionId : PyStr) (startNs : ℤ) :
    Ages now (start collectionId startNs) :=
  ⟨fun _ _ ht ↦ absurd ht (Option.some_ne_none _).symm, List.forall_mem_nil _,
    List.forall_mem_nil _⟩

/-- **From the start.** -/
theorem ages_of_start {collectionId : PyStr} {startNs : ℤ} {ls : List (Input × Draws)} {w : World}
    (hclock : (ls.filterMap pollTime).Pairwise (· ≤ ·))
    (hrun : Run.exec (step h) (start collectionId startNs) ls = some w) : ∃ now, Ages now w := by
  cases htimes : ls.filterMap pollTime with
  | nil =>
    refine ages_of_exec hclock (fun t ht ↦ ?_) (ages_start 0 collectionId startNs) hrun
    exact absurd (htimes ▸ ht) List.not_mem_nil
  | cons first times =>
    refine ages_of_exec hclock (fun t ht ↦ ?_) (ages_start first collectionId startNs) hrun
    rw [htimes] at hclock ht
    rcases List.mem_cons.1 ht with rfl | ht
    · exact le_rfl
    · exact (List.pairwise_cons.1 hclock).1 t ht

/-- A run has one collection. -/
theorem collectionId_of_exec {ls : List (Input × Draws)} {w w' : World}
    (hrun : Run.exec (step h) w ls = some w') :
    w'.hook.collectionId = w.hook.collectionId := by
  refine Run.exec_invariant (I := fun u ↦ u.hook.collectionId = w.hook.collectionId)
    (fun u l u' hu hstep ↦ ?_) rfl hrun
  obtain ⟨i | -, d⟩ := l
  · obtain rfl := Option.some.inj hstep
    obtain ⟨rows, ivs, htimed⟩ := poll_timed h u.hook i d
    exact htimed.emits.collectionId.trans hu
  · obtain rfl := Option.some.inj hstep
    exact hu

end Polls

end Thp
