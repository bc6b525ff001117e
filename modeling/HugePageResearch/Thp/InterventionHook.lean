import HugePageResearch.Python.Dict
import HugePageResearch.Thp.Smaps
import Mathlib.Algebra.Order.Field.Rat

/-!
# The intervention hook

`THPInterventionHook` of `thp_intervention_hook.py`: its state, `poll`, and `pop_data`. What a poll
reads from the machine (the clock, `/proc`, the outcome of the write to debugfs) is `PollInput`, and
its random choices are `Draws`. The hook that a poll leaves behind is the same whether the poll
returned or raised.

Floats are taken at their exact values.
-/

namespace Thp

/-! ### Age buckets -/

/-- The names of the buckets. -/
inductive AgeBucket where
  | young
  | mid
  | old
  | unknown
  deriving DecidableEq

/-- `THPAgeBucket`. -/
structure THPAgeBucket where
  name : AgeBucket
  minAgeSec : ℚ
  maxAgeSec : Option ℚ

/-- `AGE_BUCKETS`. -/
def ageBuckets : List THPAgeBucket :=
  [⟨.young, 0, some 30⟩, ⟨.mid, 30, some 300⟩, ⟨.old, 300, none⟩]

/-- `age_bucket_for`. -/
def ageBucketFor (ageSec : Option ℚ) (censored : Bool) : AgeBucket :=
  if censored then .unknown
  else ageSec.elim .unknown fun age ↦
    (ageBuckets.find? fun b ↦
      decide (b.minAgeSec ≤ age) && b.maxAgeSec.all fun m ↦ decide (age < m)).elim
        .unknown THPAgeBucket.name

/-! ### Configuration -/

/-- `hugepage_harness`, with the defaults that the hook falls back to. -/
structure HugepageHarness where
  /-- `pid_regex.search(comm)`, for the pattern `redis_name_regex`. -/
  pidSearch : PyStr → Bool
  smapsRollupIntervalMs : ℤ := 500
  smapsVmaIntervalMs : ℤ := 2000
  negativeSamplePeriodS : ℤ := 2
  interventionEnabled : Bool := true
  interventionPeriodS : ℤ := 10
  interventionWarmupS : ℤ := 30
  ageBucketWeights : List ℚ := [2 / 5, 2 / 5, 1 / 5]

namespace HugepageHarness

variable (h : HugepageHarness)

/-- `rollup_interval_ns`. -/
def rollupIntervalNs : ℤ := h.smapsRollupIntervalMs * 10 ^ 6

/-- `vma_interval_ns`. -/
def vmaIntervalNs : ℤ := h.smapsVmaIntervalMs * 10 ^ 6

/-- `negative_sample_interval_ns`. -/
def negativeSampleIntervalNs : ℤ := h.negativeSamplePeriodS * 10 ^ 9

/-- `intervention_period_ns`. -/
def interventionPeriodNs : ℤ := h.interventionPeriodS * 10 ^ 9

/-- `intervention_warmup_ns`. -/
def interventionWarmupNs : ℤ := h.interventionWarmupS * 10 ^ 9

/-- `age_bucket_weights.items()`. -/
def bucketWeights : List (AgeBucket × ℚ) :=
  [(.young, h.ageBucketWeights[0]?.getD (2 / 5)), (.mid, h.ageBucketWeights[1]?.getD (2 / 5)),
    (.old, h.ageBucketWeights[2]?.getD (1 / 5))]

end HugepageHarness

/-! ### Rows -/

/-- `SmapsRollupSample`. -/
structure SmapsRollupSample where
  pid : ℤ
  tgid : ℤ
  tsNs : ℤ
  rssKb : ℤ
  pssKb : ℤ
  anonymousKb : ℤ
  referencedKb : ℤ
  anonHugepagesKb : ℤ
  raPagesKb : ℤ
  raState : ℤ

/-- `candidate_type`. -/
inductive CandidateType where
  | negative
  | sampled
  deriving DecidableEq

/-- `THPCandidateRow`. -/
structure THPCandidateRow where
  decisionId : PyStr
  pid : ℤ
  tgid : ℤ
  tsNs : ℤ
  candidateType : CandidateType
  mm : PyStr
  pfn : ℤ
  startAddr : ℤ
  endAddr : ℤ
  ageSec : ℚ
  ageCensored : Bool
  referenced : ℤ
  noneOrZero : ℤ
  writable : ℤ
  scanStatus : ℤ
  anonHugepagesKb : ℤ
  thpEligible : ℤ
  recentScanHit : ℤ

/-- `THPInterventionRow`. -/
structure THPInterventionRow where
  interventionId : PyStr
  decisionId : PyStr
  pid : ℤ
  tgid : ℤ
  tsNs : ℤ
  startAddr : ℤ
  endAddr : ℤ
  ageBucket : AgeBucket
  success : Bool
  error : PyStr
  command : PyStr

/-- `(pid, start_addr, end_addr)` of a candidate. -/
def THPCandidateRow.region (c : THPCandidateRow) : ℤ × ℤ × ℤ := (c.pid, c.startAddr, c.endAddr)

/-- `(pid, start_addr, end_addr)` of an intervention. -/
def THPInterventionRow.region (iv : THPInterventionRow) : ℤ × ℤ × ℤ :=
  (iv.pid, iv.startAddr, iv.endAddr)

/-- A table that `data` returns. -/
inductive HookTable where
  | rollupSamples (rows : List SmapsRollupSample)
  | vmaSamples (rows : List SmapsVMARegionSample)
  | candidates (rows : List THPCandidateRow)
  | interventions (rows : List THPInterventionRow)

/-! ### The hook -/

/-- The fields of the hook that change. -/
structure State where
  collectionId : PyStr
  startedNs : ℤ
  rollupSamples : List SmapsRollupSample := []
  vmaSamples : List SmapsVMARegionSample := []
  candidates : List THPCandidateRow := []
  interventions : List THPInterventionRow := []
  lastRollupNs : ℤ := 0
  lastVmaNs : ℤ := 0
  lastNegativeSampleNs : ℤ := 0
  lastInterventionNs : ℤ := 0
  decisionCounter : ℕ := 0
  interventionCounter : ℕ := 0
  firstSeenNs : Dict (ℤ × ℤ) ℤ := .empty
  lastSeenRef : Dict (ℤ × ℤ) ℤ := .empty
  lastSeenTs : Dict (ℤ × ℤ) ℤ := .empty

/-- The hook after `load`. -/
def load (collectionId : PyStr) (nowNs : ℤ) : State :=
  { collectionId := collectionId, startedNs := nowNs }

/-- What a poll reads from the machine. -/
structure PollInput where
  /-- `time.clock_gettime_ns(time.CLOCK_BOOTTIME)`. -/
  nowNs : ℤ
  /-- The names in `/proc`, each with its `comm` where that can be read. -/
  proc : List (PyStr × Option PyStr)
  /-- The text of `smaps_rollup` of a process, where it can be read. -/
  smapsRollup : ℤ → Option PyStr
  /-- The text of `smaps` of a process, where it can be read. -/
  smaps : ℤ → Option PyStr
  /-- The text of the exception that a write to `split_debugfs_path` raises, if any. -/
  split : PyStr → Option PyStr

/-- The random choices of a poll. -/
structure Draws where
  /-- `self.rand.choice(regions)` of the sampled candidate. -/
  sample : ℕ
  /-- `self.rand.random()`. -/
  unit : ℚ
  /-- The `self.rand.choice` of the region to split. -/
  pick : ℕ
  unit_nonneg : 0 ≤ unit
  unit_lt : unit < 1

/-- `rand.choice(xs)`; there is no choice from an empty list. -/
def choice {α : Type*} (xs : List α) (draw : ℕ) : Option α := xs[draw % xs.length]?

/-- `f"{collection_id}-cand-{n}"`. -/
def candId (collectionId : PyStr) (n : ℕ) : PyStr :=
  collectionId ++ "-cand-".toList ++ PyStr.ofInt n

/-- `f"{collection_id}-iv-{n}"`. -/
def ivId (collectionId : PyStr) (n : ℕ) : PyStr :=
  collectionId ++ "-iv-".toList ++ PyStr.ofInt n

/-- `float((now_ns - first_seen_ns.get(key, now_ns)) / 1e9)`. -/
def State.ageSec (s : State) (key : ℤ × ℤ) (nowNs : ℤ) : ℚ :=
  ((nowNs - (s.firstSeenNs.get? key).getD nowNs : ℤ) : ℚ) / 10 ^ 9

/-- `_emit_candidate`, called with the fields of a region: the decision's id, and the hook. -/
def emitCandidate (s : State) (pid tsNs : ℤ) (candidateType : CandidateType)
    (r : SmapsVMARegionSample) : PyStr × State :=
  let n := s.decisionCounter + 1
  let decisionId := candId s.collectionId n
  (decisionId, { s with
    decisionCounter := n
    candidates := s.candidates ++ [{
      decisionId := decisionId
      pid := pid
      tgid := pid
      tsNs := tsNs
      candidateType := candidateType
      mm := []
      pfn := 0
      startAddr := r.startAddr
      endAddr := r.endAddr
      ageSec := s.ageSec r.key tsNs
      ageCensored := true
      referenced := r.referencedKb
      noneOrZero := 0
      writable := 0
      scanStatus := 0
      anonHugepagesKb := r.anonHugepagesKb
      thpEligible := r.thpEligible
      recentScanHit := 0 }] })

/-- `for bucket, weight in weighted`: the first bucket at which the running sum reaches `pick`. -/
def firstReached (pick : ℚ) : ℚ → List (AgeBucket × ℚ) → Option AgeBucket
  | _, [] => none
  | run, (bucket, weight) :: rest =>
    if pick ≤ run + weight then some bucket else firstReached pick (run + weight) rest

/-- `by_bucket[bucket]`. -/
def byBucket (s : State) (regions : List SmapsVMARegionSample) (nowNs : ℤ) (bucket : AgeBucket) :
    List SmapsVMARegionSample :=
  regions.filter fun r ↦ ageBucketFor (some (s.ageSec r.key nowNs)) false = bucket

/-- `weighted`: the buckets that hold a region, with their weights. -/
def weighted (h : HugepageHarness) (s : State) (regions : List SmapsVMARegionSample)
    (nowNs : ℤ) : List (AgeBucket × ℚ) :=
  (h.bucketWeights.filter fun e ↦ byBucket s regions nowNs e.1 ≠ []).map fun e ↦ (e.1, max e.2 0)

/-- `_select_stratified_region`. -/
def selectStratifiedRegion (h : HugepageHarness) (s : State)
    (regions : List SmapsVMARegionSample) (nowNs : ℤ) (d : Draws) : Option SmapsVMARegionSample :=
  match (weighted h s regions nowNs).getLast? with
  | none => choice regions d.pick
  | some last =>
    let pick := d.unit * ((weighted h s regions nowNs).map Prod.snd).sum
    let chosen := (firstReached pick 0 (weighted h s regions nowNs)).getD last.1
    choice (byBucket s regions nowNs chosen) d.pick

/-- `_run_intervention`. -/
def runIntervention (s : State) (i : PollInput) (pid : ℤ) (r : SmapsVMARegionSample)
    (decisionId : PyStr) : State :=
  let command := PyStr.ofInt pid ++ ",".toList ++ PyStr.hex r.startAddr ++ ",".toList ++
    PyStr.hex r.endAddr
  let failure := i.split (command ++ "\n".toList)
  let n := s.interventionCounter + 1
  { s with
    interventionCounter := n
    interventions := s.interventions ++ [{
      interventionId := ivId s.collectionId n
      decisionId := decisionId
      pid := pid
      tgid := pid
      tsNs := i.nowNs
      startAddr := r.startAddr
      endAddr := r.endAddr
      ageBucket := ageBucketFor (some (s.ageSec r.key i.nowNs)) false
      success := failure.isNone
      error := failure.getD []
      command := command }] }

/-! ### Polling -/

/-- What the loop over the regions remembers of one: when it was first and last seen, and its
`referenced_kb`. -/
def noteRegion (nowNs : ℤ) (s : State) (r : SmapsVMARegionSample) : State :=
  { s with
    firstSeenNs :=
      if (s.firstSeenNs.get? r.key).isSome then s.firstSeenNs else s.firstSeenNs.set r.key nowNs
    lastSeenTs := s.lastSeenTs.set r.key nowNs
    lastSeenRef := s.lastSeenRef.set r.key r.referencedKb }

/-- The body of `for region in regions`. -/
def observeRegion (h : HugepageHarness) (pid nowNs : ℤ) (s : State) (r : SmapsVMARegionSample) :
    State :=
  let noted := noteRegion nowNs s r
  match s.lastSeenRef.get? r.key with
  | none => noted
  | some prevRef =>
    if |r.referencedKb - prevRef| ≤ 32 ∧ 0 < r.anonHugepagesKb then
      if h.negativeSampleIntervalNs ≤ nowNs - noted.lastNegativeSampleNs then
        (emitCandidate { noted with lastNegativeSampleNs := nowNs } pid nowNs .negative r).2
      else noted
    else noted

/-- `for region in regions`. -/
def observeRegions (h : HugepageHarness) (pid nowNs : ℤ) (s : State)
    (regions : List SmapsVMARegionSample) : State :=
  regions.foldl (observeRegion h pid nowNs) s

/-- The three gates before an intervention. -/
def interventionDue (h : HugepageHarness) (s : State) (nowNs : ℤ) : Bool :=
  h.interventionEnabled && !decide (nowNs - s.startedNs < h.interventionWarmupNs) &&
    !decide (nowNs - s.lastInterventionNs < h.interventionPeriodNs)

/-- The part of `poll` after the regions were parsed. -/
def pollRegions (h : HugepageHarness) (s : State) (i : PollInput) (d : Draws) (pid : ℤ)
    (regions : List SmapsVMARegionSample) : State :=
  let s := { s with vmaSamples := s.vmaSamples ++ regions }
  let s := observeRegions h pid i.nowNs s regions
  match choice regions d.sample with
  | none => s
  | some sampled =>
    let (decisionId, s) := emitCandidate s pid i.nowNs .sampled sampled
    if interventionDue h s i.nowNs then
      let s := { s with lastInterventionNs := i.nowNs }
      match selectStratifiedRegion h s regions i.nowNs d with
      | none => s
      | some r => runIntervention s i pid r decisionId
    else s

variable [Python]

/-- `_find_target_pid`. -/
def findTargetPid (h : HugepageHarness) (proc : List (PyStr × Option PyStr)) :
    Except ParseError (Option ℤ) :=
  let found := proc.filter fun e ↦
    PyStr.isdigit e.1 && e.2.any fun comm ↦ h.pidSearch (PyStr.strip comm)
  (found.mapM fun e ↦ parseInt 10 e.1).map List.max?

/-- `_parse_rollup_value`. -/
def parseRollupValue (raw key : PyStr) : Except ParseError ℤ :=
  match (PyStr.splitlines raw).find? fun line ↦
      PyStr.startswith line (key ++ ":".toList) && decide (2 ≤ (PyStr.split line).length) with
  | none => .ok 0
  | some line => fieldValue line

/-- The sample of the text of `smaps_rollup`. -/
def rollupSample (pid nowNs : ℤ) (raw : PyStr) : Except ParseError SmapsRollupSample := do
  let rssKb ← parseRollupValue raw "Rss".toList
  let pssKb ← parseRollupValue raw "Pss".toList
  let anonymousKb ← parseRollupValue raw "Anonymous".toList
  let referencedKb ← parseRollupValue raw "Referenced".toList
  let anonHugepagesKb ← parseRollupValue raw "AnonHugePages".toList
  let raPagesKb ← parseRollupValue raw "Ra_pages".toList
  let raState ← parseRollupValue raw "Ra_state".toList
  return ⟨pid, pid, nowNs, rssKb, pssKb, anonymousKb, referencedKb, anonHugepagesKb, raPagesKb,
    raState⟩

/-- `_sample_rollup`. -/
def sampleRollup (s : State) (i : PollInput) (pid : ℤ) : Except ParseError State :=
  match i.smapsRollup pid with
  | none => .ok s
  | some raw => (rollupSample pid i.nowNs raw).map fun sample ↦
      { s with rollupSamples := s.rollupSamples ++ [sample] }

/-- The part of `poll` after the rollup. -/
def pollVma (h : HugepageHarness) (s : State) (i : PollInput) (d : Draws) (pid : ℤ) : State :=
  if i.nowNs - s.lastVmaNs < h.vmaIntervalNs then s
  else
    let s := { s with lastVmaNs := i.nowNs }
    match parseSmaps pid i.nowNs (i.smaps pid) with
    | .error _ => s
    | .ok regions => if regions = [] then s else pollRegions h s i d pid regions

/-- `poll`. -/
def poll (h : HugepageHarness) (s : State) (i : PollInput) (d : Draws) : State :=
  match findTargetPid h i.proc with
  | .error _ => s
  | .ok none => s
  | .ok (some pid) =>
    if h.rollupIntervalNs ≤ i.nowNs - s.lastRollupNs then
      let s := { s with lastRollupNs := i.nowNs }
      match sampleRollup s i pid with
      | .error _ => s
      | .ok s => pollVma h s i d pid
    else pollVma h s i d pid

omit [Python] in
/-- `data`. -/
def State.data (s : State) : List HookTable :=
  (if s.rollupSamples = [] then [] else [.rollupSamples s.rollupSamples]) ++
    (if s.vmaSamples = [] then [] else [.vmaSamples s.vmaSamples]) ++
    (if s.candidates = [] then [] else [.candidates s.candidates]) ++
    (if s.interventions = [] then [] else [.interventions s.interventions])

omit [Python] in
/-- `clear`. -/
def State.clear (s : State) : State :=
  { s with rollupSamples := [], vmaSamples := [], candidates := [], interventions := [] }

end Thp
