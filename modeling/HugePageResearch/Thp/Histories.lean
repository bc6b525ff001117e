import HugePageResearch.Library.Lists
import HugePageResearch.Thp.Splits

/-!
# Whose history the intervention hook reads

What the hook remembers of a region (when it was first seen, its last `referenced_kb`) is kept under
its bounds for the life of the hook, while the process it looks at is found again by every poll and
stands in every row.

## The result

The hook does not go through all regions that `smaps` lists: `_parse_smaps` leaves out those that
neither hold huge pages nor may hold them, and it may raise. What it leaves out is not remembered.

`trueHistories_iff`: ages and comparisons are those of the process in the row wherever no poll of
the run goes through bounds that it went through for another process before, or that were listed
for the process before it went through them; and if polls are a positive interval apart, only
there: any other run goes wrong under some choice of the sampled region.

`Noted` is what a poll does to the memories and what its rows say by them.
-/

namespace Thp

open Lists

/-- A poll that read `smaps`. -/
structure Reading where
  pid : ℤ
  nowNs : ℤ
  /-- The bounds in the text. -/
  listed : List (ℤ × ℤ)
  /-- The regions that the poll went through. -/
  regions : List SmapsVMARegionSample

/-- The text has the bounds. -/
def Reading.lists (key : ℤ × ℤ) (R : Reading) : Bool := key ∈ R.listed

/-- The poll went through the bounds. -/
def Reading.reads (key : ℤ × ℤ) (R : Reading) : Bool := R.regions.any fun r ↦ r.key = key

/-- When the bounds were first listed for a process. -/
def firstListed (past : List Reading) (pid : ℤ) (key : ℤ × ℤ) : Option ℤ :=
  (past.find? fun R ↦ R.pid = pid && R.lists key).map Reading.nowNs

/-- The process for which a poll last went through the bounds. -/
def lastReadFor (past : List Reading) (key : ℤ × ℤ) : Option ℤ :=
  (past.reverse.find? (Reading.reads key)).map Reading.pid

/-- `(start_addr, end_addr)` of a candidate. -/
def THPCandidateRow.key (c : THPCandidateRow) : ℤ × ℤ := (c.startAddr, c.endAddr)

variable {h : HugepageHarness} {s s' s'' : State} {regions : List SmapsVMARegionSample}
  {pid now : ℤ} {r : SmapsVMARegionSample} {key : ℤ × ℤ}

/-! ### What a poll notes -/

/-- **What regions do to the memories of the hook**, and what the rows appended on the way say. -/
structure Noted (pid now : ℤ) (regions : List SmapsVMARegionSample) (s s' : State)
    (rows : List THPCandidateRow) : Prop where
  candidates : s'.candidates = s.candidates ++ rows
  seen : ∀ key, s'.firstSeenNs.get? key =
    (s.firstSeenNs.get? key).or (if (∃ r ∈ regions, r.key = key) then some now else none)
  ref : ∀ key, (s'.lastSeenRef.get? key).isSome = true ↔
    (s.lastSeenRef.get? key).isSome = true ∨ ∃ r ∈ regions, r.key = key
  rows : ∀ c ∈ rows, c.pid = pid ∧ c.tsNs = now ∧ (∃ r ∈ regions, r.key = c.key) ∧
    c.ageSec = s'.ageSec c.key now

theorem Quiet.noted (hs : Quiet s s') : Noted pid now [] s s' [] := by
  obtain ⟨hs⟩ := hs
  rw [hs]
  exact ⟨(List.append_nil _).symm, fun _ ↦ by simp, fun _ ↦ by simp, List.forall_mem_nil _⟩

/-- A region that is listed has been seen. -/
theorem Noted.seen_isSome {rows : List THPCandidateRow} (hs : Noted pid now regions s s' rows)
    (hkey : ∃ r ∈ regions, r.key = key) : (s'.firstSeenNs.get? key).isSome = true := by
  rw [hs.seen, if_pos hkey]
  cases s.firstSeenNs.get? key <;> rfl

theorem Noted.trans {regions' : List SmapsVMARegionSample} {rows rows' : List THPCandidateRow}
    (hs : Noted pid now regions s s' rows) (hs' : Noted pid now regions' s' s'' rows') :
    Noted pid now (regions ++ regions') s s'' (rows ++ rows') where
  candidates := by rw [hs'.candidates, hs.candidates, List.append_assoc]
  seen key := by
    rw [hs'.seen, hs.seen, Option.or_assoc]
    congr 1
    simp only [List.mem_append, or_and_right, exists_or]
    by_cases hr : ∃ r ∈ regions, r.key = key
    · simp [hr]
    · simp [hr]
  ref key := by
    rw [hs'.ref, hs.ref, or_assoc]
    simp only [List.mem_append, or_and_right, exists_or]
  rows := by
    refine List.forall_mem_append.2 ⟨fun c hc ↦ ?_, fun c hc ↦ ?_⟩
    · obtain ⟨hpid, hts, ⟨r, hr, hkey⟩, hage⟩ := hs.rows c hc
      refine ⟨hpid, hts, ⟨r, List.mem_append_left _ hr, hkey⟩, ?_⟩
      obtain ⟨t, ht⟩ := Option.isSome_iff_exists.1 (hs.seen_isSome ⟨r, hr, hkey⟩)
      rw [hage, State.ageSec, State.ageSec, hs'.seen, ht]
      rfl
    · obtain ⟨hpid, hts, ⟨r, hr, hkey⟩, hage⟩ := hs'.rows c hc
      exact ⟨hpid, hts, ⟨r, List.mem_append_right _ hr, hkey⟩, hage⟩

/-- **One region of the loop.** -/
theorem observeRegion_noted (h : HugepageHarness) (pid now : ℤ) (s : State)
    (r : SmapsVMARegionSample) :
    ∃ rows, Noted pid now [r] s (observeRegion h pid now s r) rows := by
  have hseen : ∀ key, (noteRegion now s r).firstSeenNs.get? key =
      (s.firstSeenNs.get? key).or (if (∃ r' ∈ [r], r'.key = key) then some now else none) := by
    intro key
    simp only [List.mem_singleton, exists_eq_left, noteRegion]
    split_ifs with hsome hkey hkey
    · rw [← hkey]
      obtain ⟨t, ht⟩ := Option.isSome_iff_exists.1 hsome
      rw [ht]
      rfl
    · exact (Option.or_none).symm
    · rw [Dict.get?_set, if_pos hkey, ← hkey, Option.not_isSome_iff_eq_none.1 hsome]
      rfl
    · rw [Dict.get?_set, if_neg hkey, Option.or_none]
  have href : ∀ key, ((noteRegion now s r).lastSeenRef.get? key).isSome = true ↔
      (s.lastSeenRef.get? key).isSome = true ∨ ∃ r' ∈ [r], r'.key = key := by
    intro key
    simp only [List.mem_singleton, exists_eq_left, noteRegion, Dict.get?_set]
    split_ifs with hkey
    · simp [hkey]
    · simp [hkey]
  have hnoted : Noted pid now [r] s (noteRegion now s r) [] :=
    ⟨(List.append_nil _).symm, hseen, href, List.forall_mem_nil _⟩
  rw [observeRegion]
  rcases s.lastSeenRef.get? r.key with - | prevRef
  · exact ⟨[], hnoted⟩
  · dsimp only
    split_ifs
    · refine ⟨_, rfl, hseen, href, fun c hc ↦ ?_⟩
      rw [List.mem_singleton.1 hc]
      exact ⟨rfl, rfl, ⟨r, List.mem_singleton_self r, rfl⟩, rfl⟩
    · exact ⟨[], hnoted⟩
    · exact ⟨[], hnoted⟩

/-- **The loop over the regions.** -/
theorem observeRegions_noted (h : HugepageHarness) (pid now : ℤ) (s : State)
    (regions : List SmapsVMARegionSample) :
    ∃ rows, Noted pid now regions s (observeRegions h pid now s regions) rows := by
  induction regions generalizing s with
  | nil => exact ⟨[], (Quiet.refl s).noted⟩
  | cons r regions ih =>
    obtain ⟨rows, hrows⟩ := observeRegion_noted h pid now s r
    obtain ⟨rows', hrows'⟩ := ih (observeRegion h pid now s r)
    exact ⟨rows ++ rows', hrows.trans hrows'⟩

theorem emitCandidate_row (s : State) (pid now : ℤ) (ty : CandidateType)
    (r : SmapsVMARegionSample) : ∃ row, (emitCandidate s pid now ty r).2.candidates =
      s.candidates ++ [row] ∧ row.pid = pid ∧ row.tsNs = now ∧ row.key = r.key ∧
        row.ageSec = s.ageSec r.key now :=
  ⟨_, rfl, rfl, rfl, rfl, rfl⟩

/-- **The part of a poll that goes through regions**; the region that is sampled is among the
rows. -/
theorem pollRegions_noted (h : HugepageHarness) (s : State) (i : PollInput) (d : Draws) (pid : ℤ)
    {sampled : SmapsVMARegionSample} (hsampled : choice regions d.sample = some sampled) :
    ∃ rows, Noted pid i.nowNs regions s (pollRegions h s i d pid regions) rows ∧
      ∃ c ∈ rows, c.key = sampled.key := by
  have hset : Quiet s { s with vmaSamples := s.vmaSamples ++ regions } := ⟨rfl⟩
  obtain ⟨rows, hrows⟩ := observeRegions_noted h pid i.nowNs
    { s with vmaSamples := s.vmaSamples ++ regions } regions
  have hloop := hset.noted.trans hrows
  simp only [pollRegions, hsampled]
  generalize observeRegions h pid i.nowNs { s with vmaSamples := s.vmaSamples ++ regions } regions =
    observed at hloop ⊢
  -- what comes after the loop appends the sampled candidate and leaves the memories alone
  obtain ⟨row, hrow, hrowPid, hrowTs, hrowKey, hrowAge⟩ :=
    emitCandidate_row observed pid i.nowNs .sampled sampled
  have hafter : ∀ s', s'.candidates = (emitCandidate observed pid i.nowNs .sampled
        sampled).2.candidates → s'.firstSeenNs = observed.firstSeenNs →
      s'.lastSeenRef = observed.lastSeenRef → ∃ rows, Noted pid i.nowNs regions s s' rows ∧
        ∃ c ∈ rows, c.key = sampled.key := by
    intro s' hc hfirst href
    refine ⟨rows ++ [row], ⟨?_, fun key ↦ ?_, fun key ↦ ?_, ?_⟩, row,
      List.mem_append_right _ (List.mem_singleton_self row), hrowKey⟩
    · rw [hc, hrow, hloop.candidates, List.nil_append, List.append_assoc]
    · rw [hfirst]
      exact hloop.seen key
    · rw [href]
      exact hloop.ref key
    · refine List.forall_mem_append.2 ⟨fun c hc ↦ ?_, fun c hc ↦ ?_⟩
      · obtain ⟨hpid, hts, hkey, hage⟩ := hloop.rows c hc
        rw [State.ageSec, ← hfirst, ← State.ageSec] at hage
        exact ⟨hpid, hts, hkey, hage⟩
      · rw [List.mem_singleton.1 hc]
        refine ⟨hrowPid, hrowTs, ⟨sampled, choice_mem hsampled, hrowKey.symm⟩, ?_⟩
        rw [State.ageSec, hfirst, ← State.ageSec, hrowKey]
        exact hrowAge
  split_ifs
  · rcases selectStratifiedRegion h _ regions i.nowNs d with - | r
    · exact hafter _ rfl rfl rfl
    · exact hafter _ rfl rfl rfl
  · exact hafter _ rfl rfl rfl

theorem observeRegions_lastVmaNs (h : HugepageHarness) (pid now : ℤ) (s : State)
    (regions : List SmapsVMARegionSample) :
    (observeRegions h pid now s regions).lastVmaNs = s.lastVmaNs := by
  induction regions generalizing s with
  | nil => rfl
  | cons r regions ih =>
    refine (ih (observeRegion h pid now s r)).trans ?_
    rw [observeRegion]
    rcases s.lastSeenRef.get? r.key with - | prevRef
    · rfl
    · dsimp only
      split_ifs <;> rfl

theorem pollRegions_lastVmaNs (h : HugepageHarness) (s : State) (i : PollInput) (d : Draws)
    (pid : ℤ) (regions : List SmapsVMARegionSample) :
    (pollRegions h s i d pid regions).lastVmaNs = s.lastVmaNs := by
  have hloop := observeRegions_lastVmaNs h pid i.nowNs
    { s with vmaSamples := s.vmaSamples ++ regions } regions
  rw [pollRegions]
  rcases choice regions d.sample with - | sampled
  · exact hloop
  · dsimp only
    split_ifs
    · rcases selectStratifiedRegion h _ regions i.nowNs d with - | r
      · exact hloop
      · exact hloop
    · exact hloop

section Polls

variable [Python]

/-! ### The regions in a text -/

/-- The bounds in a text of `smaps`: the lines that start with two hexadecimal numbers and a `-`
between them. -/
def listedBounds (text : Option PyStr) : List (ℤ × ℤ) :=
  (text.elim [] PyStr.splitlines).filterMap fun line ↦ (headerBounds line).toOption

/-- Where a scan stands: every sample has bounds of the list, and so has the current region. -/
structure Within (bounds : List (ℤ × ℤ)) (s : Scan) : Prop where
  samples : ∀ r ∈ s.samples, r.key ∈ bounds
  current : (s.currentStart = 0 ∧ s.currentEnd = 0) ∨ (s.currentStart, s.currentEnd) ∈ bounds

omit [Python] in
theorem Within.maybeEmit {bounds : List (ℤ × ℤ)} {s : Scan} (hs : Within bounds s)
    (pid now : ℤ) : ∀ r ∈ (s.maybeEmit pid now).samples, r.key ∈ bounds := by
  rw [Scan.maybeEmit]
  split_ifs with hzero
  · exact hs.samples
  · exact hs.samples
  · refine List.forall_mem_append.2 ⟨hs.samples, List.forall_mem_singleton.2 ?_⟩
    exact hs.current.resolve_left hzero

/-- **One line** is a header, or it leaves the samples and the current bounds alone. -/
theorem scanLine_ok {s s' : Scan} {line : PyStr} (hs : scanLine pid now s line = .ok s') :
    (s'.samples = s.samples ∧ s'.currentStart = s.currentStart ∧ s'.currentEnd = s.currentEnd) ∨
      ∃ bounds, headerBounds line = .ok bounds ∧ s'.samples = (s.maybeEmit pid now).samples ∧
        (s'.currentStart, s'.currentEnd) = bounds := by
  rw [scanLine] at hs
  rcases em (line = []) with hnil | hne
  · rw [if_pos hnil] at hs
    rw [← Except.ok.inj hs]
    exact Or.inl ⟨rfl, rfl, rfl⟩
  rw [if_neg hne] at hs
  obtain ⟨header, -, hs⟩ := exists_of_bind_eq_ok hs
  split_ifs at hs
  · obtain ⟨bounds, hbounds, rfl⟩ := exists_of_map_eq_ok hs
    exact Or.inr ⟨bounds, hbounds, rfl, rfl⟩
  -- the lines with a number, then the flags, then any other line
  iterate 7
    · obtain ⟨v, -, rfl⟩ := exists_of_map_eq_ok hs
      exact Or.inl ⟨rfl, rfl, rfl⟩
  · rw [← Except.ok.inj hs]
    exact Or.inl ⟨rfl, rfl, rfl⟩
  · rw [← Except.ok.inj hs]
    exact Or.inl ⟨rfl, rfl, rfl⟩

theorem scanLines_within {bounds : List (ℤ × ℤ)} {s s' : Scan} {lines : List PyStr}
    (hs : Within bounds s)
    (hlines : ∀ line ∈ lines, ∀ b, headerBounds line = .ok b → b ∈ bounds)
    (hscan : scanLines pid now s lines = .ok s') : Within bounds s' := by
  induction lines generalizing s with
  | nil =>
    obtain rfl := Except.ok.inj hscan
    exact hs
  | cons line lines ih =>
    obtain ⟨s₁, hline, hscan⟩ := exists_of_bind_eq_ok hscan
    obtain ⟨hhead, hlines⟩ := List.forall_mem_cons.1 hlines
    refine ih ?_ hlines hscan
    rcases scanLine_ok hline with ⟨hsamples, hstart, hstop⟩ | ⟨b, hb, hsamples, hcurrent⟩
    · exact ⟨by rw [hsamples]; exact hs.samples, by rw [hstart, hstop]; exact hs.current⟩
    · refine ⟨?_, Or.inr ?_⟩
      · rw [hsamples]
        exact hs.maybeEmit pid now
      · rw [hcurrent]
        exact hhead b hb

/-- **What `_parse_smaps` returns is in the text.** -/
theorem key_mem_listedBounds {text : Option PyStr}
    (hparse : parseSmaps pid now text = .ok regions) (hr : r ∈ regions) :
    r.key ∈ listedBounds text := by
  rcases text with - | raw
  · rw [← Except.ok.inj hparse] at hr
    exact absurd hr List.not_mem_nil
  · obtain ⟨s, hscan, rfl⟩ := exists_of_map_eq_ok hparse
    refine (scanLines_within ⟨List.forall_mem_nil _, Or.inl ⟨rfl, rfl⟩⟩ (fun line hline b hb ↦ ?_)
      hscan).maybeEmit pid now r hr
    exact List.mem_filterMap.2 ⟨line, hline, by rw [hb]; rfl⟩

/-! ### Histories -/

/-- The process whose `smaps` a poll reads, if it comes to that. -/
def smapsPid (h : HugepageHarness) (s : State) (i : PollInput) : Option ℤ :=
  match findTargetPid h i.proc with
  | .error _ => none
  | .ok none => none
  | .ok (some pid) =>
    if rollupRaises h s i pid || decide (i.nowNs - s.lastVmaNs < h.vmaIntervalNs) then none
    else some pid

/-- The hook, and what its polls read so far. -/
structure Observed where
  world : World
  past : List Reading

/-- What a call reads. -/
def newReading (h : HugepageHarness) (w : World) (l : Input × Draws) : Option Reading :=
  match l.1 with
  | .poll i => (smapsPid h w.hook i).map fun pid ↦
      ⟨pid, i.nowNs, listedBounds (i.smaps pid), vmaRegions h w.hook i pid⟩
  | .popData => none

/-- The candidates that a call appends. -/
def newCandidates (h : HugepageHarness) (w : World) (l : Input × Draws) : List THPCandidateRow :=
  match l.1 with
  | .poll i => (poll h w.hook i l.2).candidates.drop w.hook.candidates.length
  | .popData => []

theorem newReading_poll (h : HugepageHarness) (w : World) (i : PollInput) (d : Draws) :
    newReading h w (.poll i, d) = (smapsPid h w.hook i).map fun pid ↦
      ⟨pid, i.nowNs, listedBounds (i.smaps pid), vmaRegions h w.hook i pid⟩ := rfl

theorem newCandidates_poll (h : HugepageHarness) (w : World) (i : PollInput) (d : Draws) :
    newCandidates h w (.poll i, d) =
      (poll h w.hook i d).candidates.drop w.hook.candidates.length := rfl

/-- One call, which adds to the past what it reads. -/
def observe (h : HugepageHarness) (o : Observed) (l : Input × Draws) : Option Observed :=
  (step h o.world l).map fun w ↦ ⟨w, o.past ++ (newReading h o.world l).toList⟩

/-- The hook after `load`. -/
def watch (collectionId : PyStr) (startNs : ℤ) : Observed := ⟨start collectionId startNs, []⟩

/-- **What is expected of a call**: the age of a candidate is the time since `smaps` first listed
its bounds for its process; and the loop appends a negative candidate only where its bounds were
last gone through, in an earlier poll or earlier in this one, for the same process. -/
structure TrueHistories (h : HugepageHarness) (o : Observed) (l : Input × Draws) : Prop where
  age : ∀ c ∈ newCandidates h o.world l, ∃ t,
    firstListed (o.past ++ (newReading h o.world l).toList) c.pid c.key = some t ∧
      c.ageSec = ((c.tsNs - t : ℤ) : ℚ) / 10 ^ 9
  compared : ∀ R, newReading h o.world l = some R → ∀ s, Quiet o.world.hook s → ∀ pre r post,
    R.regions = pre ++ r :: post →
      let s' := observeRegions h R.pid R.nowNs s pre
      (observeRegion h R.pid R.nowNs s' r).decisionCounter ≠ s'.decisionCounter →
        lastReadFor (o.past ++ [{ R with regions := pre }]) r.key = some R.pid

/-- **The condition**: a call goes through no bounds that were gone through for another process, and
through none that were listed for the process in a poll up to which they were not gone through. -/
structure OwnBounds (h : HugepageHarness) (o : Observed) (l : Input × Draws) : Prop where
  own : ∀ R, newReading h o.world l = some R → ∀ R' ∈ o.past, ∀ r ∈ R.regions,
    R'.reads r.key = true → R'.pid = R.pid
  read : ∀ R, newReading h o.world l = some R → ∀ r ∈ R.regions, ∀ pre R' post,
    o.past = pre ++ R' :: post → R'.pid = R.pid → R'.lists r.key = true →
      ∃ R₁ ∈ pre ++ [R'], R₁.reads r.key = true

omit [Python] in
theorem reads_iff {R : Reading} : R.reads key = true ↔ ∃ r ∈ R.regions, r.key = key := by
  simp [Reading.reads]

omit [Python] in
/-- **The first poll that lists the bounds** for a process is the first that goes through them,
where these are all of the process and none lists the bounds before. -/
theorem find?_lists_eq {past : List Reading}
    (hpid : ∀ R ∈ past, R.reads key = true → R.pid = pid ∧ R.lists key = true)
    (hread : ∀ pre R post, past = pre ++ R :: post → R.pid = pid → R.lists key = true →
      ∃ R₁ ∈ pre ++ [R], R₁.reads key = true) :
    past.find? (fun R ↦ R.pid = pid && R.lists key) = past.find? (Reading.reads key) := by
  induction past with
  | nil => rfl
  | cons R past ih =>
    obtain ⟨hR, hpast⟩ := List.forall_mem_cons.1 hpid
    rw [List.find?_cons, List.find?_cons]
    cases hreads : R.reads key with
    | true =>
      obtain ⟨hRpid, hlists⟩ := hR hreads
      rw [hlists, decide_eq_true hRpid, Bool.true_and]
    | false =>
      have hnot : ¬ (R.pid = pid ∧ R.lists key = true) := by
        rintro ⟨hRpid, hlists⟩
        obtain ⟨R₁, hR₁, hreads₁⟩ := hread [] R past rfl hRpid hlists
        rw [List.mem_singleton.1 hR₁, hreads] at hreads₁
        cases hreads₁
      have hfalse : (decide (R.pid = pid) && R.lists key) = false := by
        rw [Bool.eq_false_iff, ne_eq, Bool.and_eq_true, decide_eq_true_eq]
        exact hnot
      rw [hfalse]
      refine ih hpast fun pre R' post heq hRpid hlists ↦ ?_
      obtain ⟨R₁, hR₁, hreads₁⟩ := hread (R :: pre) R' post (by rw [heq]; rfl) hRpid hlists
      rcases List.mem_cons.1 hR₁ with rfl | hR₁
      · rw [hreads] at hreads₁
        cases hreads₁
      · exact ⟨R₁, hR₁, hreads₁⟩

omit [Python] in
theorem lastReadFor_eq {past : List Reading} (hsome : ∃ R ∈ past, R.reads key = true)
    (hpid : ∀ R ∈ past, R.reads key = true → R.pid = pid) : lastReadFor past key = some pid := by
  obtain ⟨R, hR, hreads⟩ := hsome
  obtain ⟨R', hR'⟩ := Option.isSome_iff_exists.1
    (List.find?_isSome.2 ⟨R, List.mem_reverse.2 hR, hreads⟩)
  rw [lastReadFor, hR']
  exact congrArg some (hpid R' (List.mem_reverse.1 (List.mem_of_find?_eq_some hR'))
    (List.find?_some hR'))

/-! ### What a call reads -/

/-- A poll that goes through regions has read them. -/
theorem smapsPid_of_reading {i : PollInput} (hr : reading h s i = some (pid, regions)) :
    smapsPid h s i = some pid ∧ vmaRegions h s i pid = regions := by
  rw [reading] at hr
  rw [smapsPid]
  rcases hpid : findTargetPid h i.proc with e | - | pid'
  · rw [hpid] at hr
    cases hr
  · rw [hpid] at hr
    cases hr
  · simp only [hpid] at hr ⊢
    split_ifs at hr with hstop
    obtain ⟨rfl, rfl⟩ := Prod.mk.inj (Option.some.inj hr)
    obtain ⟨hraises, hne⟩ := not_or.1 (mt (Bool.or_eq_true _ _).mpr hstop)
    refine ⟨if_neg ?_, rfl⟩
    rw [Bool.or_eq_true, decide_eq_true_eq]
    refine not_or.2 ⟨hraises, fun hearly ↦ hne ?_⟩
    rw [vmaRegions, if_pos hearly]
    rfl

/-- One that goes through none has found none. -/
theorem vmaRegions_of_reading {i : PollInput} (hr : reading h s i = none)
    (hpid : smapsPid h s i = some pid) : vmaRegions h s i pid = [] := by
  rw [reading] at hr
  rw [smapsPid] at hpid
  rcases hfind : findTargetPid h i.proc with e | - | pid'
  · rw [hfind] at hpid
    cases hpid
  · rw [hfind] at hpid
    cases hpid
  · simp only [hfind] at hr hpid
    split_ifs at hpid with hstop
    obtain rfl := Option.some.inj hpid
    obtain ⟨hraises, -⟩ := not_or.1 (mt (Bool.or_eq_true _ _).mpr hstop)
    rw [Bool.eq_false_iff.2 hraises, Bool.false_or] at hr
    split_ifs at hr with hnil
    exact List.isEmpty_iff.1 hnil

/-- **A poll that reads `smaps`** was due, and its time is kept. -/
theorem lastVmaNs_of_smapsPid {i : PollInput} (hpid : smapsPid h s i = some pid) (d : Draws) :
    h.vmaIntervalNs ≤ i.nowNs - s.lastVmaNs ∧ (poll h s i d).lastVmaNs = i.nowNs := by
  rw [smapsPid] at hpid
  rcases hfind : findTargetPid h i.proc with e | - | pid'
  · rw [hfind] at hpid
    cases hpid
  · rw [hfind] at hpid
    cases hpid
  · simp only [hfind] at hpid
    split_ifs at hpid with hstop
    obtain ⟨hraises, hearly⟩ := not_or.1 (mt (Bool.or_eq_true _ _).mpr hstop)
    rw [decide_eq_true_eq] at hearly
    obtain ⟨s₁, -, hvma, hpoll⟩ := exists_poll_eq_pollVma hfind (Bool.eq_false_iff.2 hraises)
    refine ⟨not_lt.1 hearly, ?_⟩
    rw [hpoll, pollVma, hvma, if_neg hearly]
    rcases parseSmaps pid' i.nowNs (i.smaps pid') with e | regions
    · rfl
    · dsimp only
      split_ifs
      · rfl
      · exact pollRegions_lastVmaNs ..

/-- What a call reads, it goes through in part. -/
theorem lists_of_newReading {w : World} {l : Input × Draws} {R : Reading}
    (hR : newReading h w l = some R) (hreads : R.reads key = true) : R.lists key = true := by
  obtain ⟨i | -, d⟩ := l
  · obtain ⟨pid, -, rfl⟩ := Option.map_eq_some_iff.1 hR
    obtain ⟨r, hr, rfl⟩ := reads_iff.1 hreads
    rw [vmaRegions] at hr
    split_ifs at hr
    · exact absurd hr List.not_mem_nil
    · rcases hparse : parseSmaps pid i.nowNs (i.smaps pid) with e | regions
      · rw [hparse] at hr
        exact absurd hr List.not_mem_nil
      · rw [hparse] at hr
        exact decide_eq_true (key_mem_listedBounds hparse hr)
  · cases hR

/-! ### What the hook remembers -/

/-- **What the memories of the hook are**, in terms of all that its polls read. -/
structure Remembers (o : Observed) : Prop where
  seen : ∀ key, o.world.hook.firstSeenNs.get? key =
    (o.past.find? (Reading.reads key)).map Reading.nowNs
  ref : ∀ key, (o.world.hook.lastSeenRef.get? key).isSome = true ↔
    ∃ R ∈ o.past, R.reads key = true
  listed : ∀ R ∈ o.past, ∀ key, R.reads key = true → R.lists key = true

/-- **A poll that goes through regions** notes them, and samples the one that was drawn. -/
theorem poll_noted {i : PollInput} {d : Draws} (hr : reading h s i = some (pid, regions)) :
    (∃ sampled, choice regions d.sample = some sampled) ∧
    ∀ sampled, choice regions d.sample = some sampled → ∃ rows,
      Noted pid i.nowNs regions s (poll h s i d) rows ∧ ∃ c ∈ rows, c.key = sampled.key := by
  rcases poll_cases h s i with ⟨hnone, -⟩ | ⟨s', pid', regions', hr', hne, hs', -, -, hgo⟩
  · rw [hnone] at hr
    cases hr
  · obtain ⟨rfl, rfl⟩ := Prod.mk.inj (Option.some.inj (hr'.symm.trans hr))
    rw [hgo d]
    refine ⟨exists_choice hne d.sample, fun sampled hsampled ↦ ?_⟩
    obtain ⟨rows, hnoted, hmem⟩ := pollRegions_noted h s' i d pid' hsampled
    exact ⟨rows, hs'.noted.trans hnoted, hmem⟩

/-- **A call notes what it goes through.** -/
theorem step_noted {w w' : World} {l : Input × Draws} (hstep : step h w l = some w') :
    (newReading h w l = none ∧ newCandidates h w l = [] ∧
      w'.hook.firstSeenNs = w.hook.firstSeenNs ∧ w'.hook.lastSeenRef = w.hook.lastSeenRef) ∨
    ∃ R, newReading h w l = some R ∧
      Noted R.pid R.nowNs R.regions w.hook w'.hook (newCandidates h w l) := by
  obtain ⟨i | -, d⟩ := l
  · obtain rfl := Option.some.inj hstep
    rcases hr : reading h w.hook i with - | ⟨pid, regions⟩
    · have hquiet : Quiet w.hook (poll h w.hook i d) := by
        rcases poll_cases h w.hook i with ⟨-, s', hs', -, hstop⟩ | ⟨_, _, _, hr', -⟩
        · rw [hstop d]
          exact hs'
        · rw [hr] at hr'
          cases hr'
      have hnoted : ∀ pid, Noted pid i.nowNs [] w.hook (poll h w.hook i d) [] :=
        fun pid ↦ hquiet.noted
      have hnew : newCandidates h w (.poll i, d) = [] := by
        rw [newCandidates_poll, (hnoted 0).candidates, List.append_nil, List.drop_length]
      rw [newReading_poll, hnew]
      rcases hpid : smapsPid h w.hook i with - | pid
      · obtain ⟨hs⟩ := hquiet
        exact .inl ⟨rfl, rfl, by rw [hs], by rw [hs]⟩
      · refine .inr ⟨_, rfl, ?_⟩
        show Noted pid i.nowNs (vmaRegions h w.hook i pid) w.hook (poll h w.hook i d) []
        rw [vmaRegions_of_reading hr hpid]
        exact hnoted pid
    · obtain ⟨⟨sampled, hsampled⟩, hall⟩ := poll_noted (d := d) hr
      obtain ⟨rows, hnoted, -⟩ := hall sampled hsampled
      obtain ⟨hpid, hregions⟩ := smapsPid_of_reading hr
      have hnew : newCandidates h w (.poll i, d) = rows := by
        rw [newCandidates_poll, hnoted.candidates, List.drop_left]
      refine .inr ⟨_, by rw [newReading_poll, hpid]; rfl, ?_⟩
      rw [hnew]
      show Noted pid i.nowNs (vmaRegions h w.hook i pid) w.hook (poll h w.hook i d) rows
      rw [hregions]
      exact hnoted
  · obtain rfl := Option.some.inj hstep
    exact .inl ⟨rfl, rfl, rfl, rfl⟩

theorem remembers_step {o o' : Observed} {l : Input × Draws} (ho : Remembers o)
    (hobs : observe h o l = some o') : Remembers o' := by
  obtain ⟨w', hstep, rfl⟩ := Option.map_eq_some_iff.1 hobs
  rcases step_noted hstep with ⟨hnone, -, hseen, href⟩ | ⟨R, hR, hnoted⟩
  · rw [hnone, Option.toList_none, List.append_nil]
    refine ⟨fun key ↦ ?_, fun key ↦ ?_, ho.listed⟩
    · rw [hseen]
      exact ho.seen key
    · rw [href]
      exact ho.ref key
  · have hsplit : ∀ key, (if (∃ r ∈ R.regions, r.key = key) then some R.nowNs else none) =
        (([R] : List Reading).find? (Reading.reads key)).map Reading.nowNs := fun key ↦ by
      rw [List.find?_singleton]
      simp only [← reads_iff]
      split_ifs <;> rfl
    rw [hR, Option.toList_some]
    refine ⟨fun key ↦ ?_, fun key ↦ ?_, ?_⟩
    · rw [List.find?_append, Option.map_or]
      exact (hnoted.seen key).trans (by rw [ho.seen key, hsplit key])
    · refine (hnoted.ref key).trans ?_
      rw [ho.ref key, ← reads_iff]
      simp only [List.mem_append, List.mem_singleton, or_and_right, exists_or, exists_eq_left]
    · refine List.forall_mem_append.2 ⟨ho.listed, List.forall_mem_singleton.2 fun key ↦ ?_⟩
      exact lists_of_newReading hR

/-- No bounds were gone through for two processes so far. -/
def Own (o : Observed) : Prop :=
  ∀ key, ∀ R ∈ o.past, ∀ R' ∈ o.past, R.reads key = true → R'.reads key = true → R.pid = R'.pid

theorem own_step {o o' : Observed} {l : Input × Draws} (ho : Own o) (hl : OwnBounds h o l)
    (hobs : observe h o l = some o') : Own o' := by
  obtain ⟨w', -, rfl⟩ := Option.map_eq_some_iff.1 hobs
  intro key R hR R' hR' hreads hreads'
  have hnew : ∀ R₁ ∈ o.past, ∀ R₂, newReading h o.world l = some R₂ → R₁.reads key = true →
      R₂.reads key = true → R₁.pid = R₂.pid := fun R₁ hR₁ R₂ hR₂ h₁ h₂ ↦ by
    obtain ⟨r, hr, rfl⟩ := reads_iff.1 h₂
    exact hl.own R₂ hR₂ R₁ hR₁ r hr h₁
  rcases List.mem_append.1 hR with hR | hR <;> rcases List.mem_append.1 hR' with hR' | hR'
  · exact ho key R hR R' hR' hreads hreads'
  · exact hnew R hR R' (Option.mem_toList.1 hR') hreads hreads'
  · exact (hnew R' hR' R (Option.mem_toList.1 hR) hreads' hreads).symm
  · have heq := (Option.mem_toList.1 hR).symm.trans (Option.mem_toList.1 hR')
    rw [Option.some.inj heq]

omit [Python] in
/-- The loop appends a candidate only for bounds that are remembered. -/
theorem observeRegion_counter
    (hne : (observeRegion h pid now s r).decisionCounter ≠ s.decisionCounter) :
    (s.lastSeenRef.get? r.key).isSome = true := by
  by_contra hnone
  rw [observeRegion, Option.not_isSome_iff_eq_none.1 hnone] at hne
  exact hne rfl

/-- **Under the condition** the first poll that lists the bounds of a region for its process is the
first that goes through them: whoever did, it was this process, and at once. -/
theorem OwnBounds.firstListed_eq {o : Observed} {l : Input × Draws} {R : Reading}
    (hl : OwnBounds h o l) (hR : newReading h o.world l = some R) (hr : r ∈ R.regions)
    (hlisted : ∀ R' ∈ o.past ++ [R], ∀ key, R'.reads key = true → R'.lists key = true) :
    firstListed (o.past ++ [R]) R.pid r.key =
      ((o.past ++ [R]).find? (Reading.reads r.key)).map Reading.nowNs := by
  refine congrArg _ (find?_lists_eq (fun R' hR' hreads ↦ ⟨?_, hlisted R' hR' _ hreads⟩)
    (forall_splits_concat.2 ⟨fun pre R' post ↦ hl.read R hR r hr pre R' post, fun _ _ ↦ ?_⟩))
  · rcases List.mem_append.1 hR' with hR' | hR'
    · exact hl.own R hR R' hR' r hr hreads
    · rw [List.mem_singleton.1 hR']
  · exact ⟨R, List.mem_append_right _ (List.mem_singleton_self R), reads_iff.2 ⟨r, hr, rfl⟩⟩

/-- **A call that meets the condition** reads true histories. -/
theorem trueHistories_of_ownBounds {o : Observed} {l : Input × Draws} (ho : Remembers o)
    (hl : OwnBounds h o l) (htotal : ∃ w', step h o.world l = some w') : TrueHistories h o l := by
  obtain ⟨w', hstep⟩ := htotal
  refine ⟨fun c hc ↦ ?_, fun R hR s hs pre r post hregions hne ↦ ?_⟩
  · rcases step_noted hstep with ⟨-, hnil, -⟩ | ⟨R, hR, hnoted⟩
    · rw [hnil] at hc
      exact absurd hc List.not_mem_nil
    obtain ⟨hpid, hts, ⟨r, hr, hkey⟩, hage⟩ := hnoted.rows c hc
    have hafter := remembers_step ho
      (show observe h o l = some ⟨w', _⟩ by rw [observe, hstep]; rfl)
    have hlisted := hafter.listed
    have hfirst := hafter.seen c.key
    rw [hR, Option.toList_some] at hlisted hfirst
    have heq := hl.firstListed_eq hR hr hlisted
    rw [hkey, ← hpid] at heq
    rw [hR, Option.toList_some, heq]
    obtain ⟨t, ht⟩ := Option.isSome_iff_exists.1 (hnoted.seen_isSome ⟨r, hr, hkey⟩)
    refine ⟨t, hfirst.symm.trans ht, ?_⟩
    rw [hage, State.ageSec, ht, hts]
    rfl
  · have hr : r ∈ R.regions := hregions ▸ List.mem_append_right _ List.mem_cons_self
    obtain ⟨rows, hpre⟩ := observeRegions_noted h R.pid R.nowNs s pre
    have hsome := (hpre.ref r.key).1 (observeRegion_counter hne)
    refine lastReadFor_eq ?_ (List.forall_mem_append.2 ⟨fun R' hR' ↦ hl.own R hR R' hR' r hr,
      fun R' hR' _ ↦ by rw [List.mem_singleton.1 hR']⟩)
    rcases hsome with hold | hnew
    · obtain ⟨hs⟩ := hs
      rw [hs] at hold
      obtain ⟨R', hR', hreads⟩ := (ho.ref r.key).1 hold
      exact ⟨R', List.mem_append_left _ hR', hreads⟩
    · exact ⟨_, List.mem_append_right _ (List.mem_singleton_self _), reads_iff.2 hnew⟩

/-- Polls read `smaps` one after another, and the last of them no later than is kept. -/
structure Recent (o : Observed) : Prop where
  times : o.past.Pairwise fun R R' ↦ R.nowNs < R'.nowNs
  last : ∀ R ∈ o.past, R.nowNs ≤ o.world.hook.lastVmaNs

theorem recent_step {o o' : Observed} {l : Input × Draws} (hpos : 0 < h.vmaIntervalNs)
    (ho : Recent o) (hobs : observe h o l = some o') : Recent o' := by
  obtain ⟨w', hstep, rfl⟩ := Option.map_eq_some_iff.1 hobs
  have hnew : (newReading h o.world l = none ∧ o.world.hook.lastVmaNs ≤ w'.hook.lastVmaNs) ∨
      ∃ R, newReading h o.world l = some R ∧ o.world.hook.lastVmaNs < R.nowNs ∧
        R.nowNs = w'.hook.lastVmaNs := by
    obtain ⟨i | -, d⟩ := l
    · obtain rfl := Option.some.inj hstep
      rw [newReading_poll]
      rcases hpid : smapsPid h o.world.hook i with - | pid
      · refine .inl ⟨rfl, ?_⟩
        show _ ≤ (poll h o.world.hook i d).lastVmaNs
        rcases poll_cases h o.world.hook i with ⟨-, s', -, hlast, hstop⟩ | ⟨_, _, _, hr, -⟩
        · rw [hstop d]
          omega
        · rw [(smapsPid_of_reading hr).1] at hpid
          cases hpid
      · obtain ⟨hdue, hlast⟩ := lastVmaNs_of_smapsPid hpid d
        exact .inr ⟨_, rfl, by dsimp only; omega, hlast.symm⟩
    · obtain rfl := Option.some.inj hstep
      exact .inl ⟨rfl, le_rfl⟩
  rcases hnew with ⟨hnone, hle⟩ | ⟨R, hR, hlt, heq⟩
  · rw [hnone, Option.toList_none, List.append_nil]
    exact ⟨ho.times, fun R hR ↦ (ho.last R hR).trans hle⟩
  · rw [hR, Option.toList_some]
    refine ⟨List.pairwise_append.2 ⟨ho.times, List.pairwise_singleton _ _, fun R' hR' R₁ hR₁ ↦ ?_⟩,
      List.forall_mem_append.2 ⟨fun R' hR' ↦ ?_, List.forall_mem_singleton.2 heq.le⟩⟩
    · rw [List.mem_singleton.1 hR₁]
      exact (ho.last R' hR').trans_lt hlt
    · rw [← heq]
      exact (ho.last R' hR').trans hlt.le

omit [Python] in
/-- Readings at different times are told apart by them. -/
theorem eq_of_nowNs_eq {Rs : List Reading} (htimes : Rs.Pairwise fun R R' ↦ R.nowNs < R'.nowNs)
    {R R' : Reading} (hR : R ∈ Rs) (hR' : R' ∈ Rs) (heq : R.nowNs = R'.nowNs) : R = R' := by
  have hnd : (Rs.map Reading.nowNs).Nodup := (List.pairwise_map.2 htimes).imp fun hlt ↦ hlt.ne
  exact List.inj_on_of_nodup_map hnd hR hR' heq

/-- The bounds were gone through for another process, or they were listed for the process of the
poll before they were gone through. -/
def NotOwn (past : List Reading) (R : Reading) (key : ℤ × ℤ) : Prop :=
  (∃ R' ∈ past, R'.reads key = true ∧ R'.pid ≠ R.pid) ∨
    ∃ pre R' post, past = pre ++ R' :: post ∧ R'.pid = R.pid ∧ R'.lists key = true ∧
      ∀ R₁ ∈ pre ++ [R'], ¬ R₁.reads key = true

/-- A call that does not meet the condition goes through such bounds. -/
theorem exists_notOwn {o : Observed} {l : Input × Draws} (hl : ¬ OwnBounds h o l) :
    ∃ R, newReading h o.world l = some R ∧ ∃ r ∈ R.regions, NotOwn o.past R r.key := by
  by_contra hnone
  refine hl ⟨fun R hR R' hR' r hr hreads ↦ ?_, fun R hR r hr pre R' post hpast hpid hlists ↦ ?_⟩
  · by_contra hne
    exact hnone ⟨R, hR, r, hr, .inl ⟨R', hR', hreads, hne⟩⟩
  · by_contra hnot
    exact hnone ⟨R, hR, r, hr, .inr ⟨pre, R', post, hpast, hpid, hlists, fun R₁ hR₁ hreads ↦
      hnot ⟨R₁, hR₁, hreads⟩⟩⟩

omit [Python] in
/-- For such bounds the first poll that listed them for the process is not the first that went
through them. -/
theorem find?_ne_of_notOwn {o : Observed} {R Rl Rg : Reading} (hown : Own o)
    (hbad : NotOwn o.past R key)
    (hl : (o.past ++ [R]).find? (fun R' ↦ R'.pid = R.pid && R'.lists key) = some Rl)
    (hg : (o.past ++ [R]).find? (Reading.reads key) = some Rg) : Rl ≠ Rg := by
  rintro rfl
  have hlists := List.find?_some hl
  rw [Bool.and_eq_true, decide_eq_true_eq] at hlists
  rcases hbad with ⟨R', hR', hreads, hne⟩ | ⟨pre, R', post, hpast, hpid, hlisted, hnot⟩
  · obtain ⟨R₀, hR₀⟩ := Option.isSome_iff_exists.1 (List.find?_isSome.2 ⟨R', hR', hreads⟩)
    rw [List.find?_append, hR₀, Option.some_or] at hg
    obtain rfl := Option.some.inj hg
    exact hne ((hown key R' hR' R₀ (List.mem_of_find?_eq_some hR₀) hreads
      (List.find?_some hR₀)).trans hlists.1)
  · have hsome : ((pre ++ [R']).find? fun R' ↦ R'.pid = R.pid && R'.lists key).isSome := by
      refine List.find?_isSome.2 ⟨R', List.mem_append_right _ (List.mem_singleton_self R'), ?_⟩
      rw [hlisted, decide_eq_true hpid]
      rfl
    obtain ⟨R₀, hR₀⟩ := Option.isSome_iff_exists.1 hsome
    rw [hpast, List.append_cons pre R' post, List.append_assoc, List.find?_append, hR₀,
      Option.some_or] at hl
    obtain rfl := Option.some.inj hl
    exact hnot R₀ (List.mem_of_find?_eq_some hR₀) (List.find?_some hg)

/-- **A call that does not meet the condition**: the age of a candidate of the region is not that of
its process. -/
theorem exists_not_trueHistories {o : Observed} {l : Input × Draws} (hpos : 0 < h.vmaIntervalNs)
    (ho : Remembers o) (hown : Own o) (hrecent : Recent o) (hl : ¬ OwnBounds h o l) :
    ∃ d, ¬ TrueHistories h o (l.1, d) := by
  obtain ⟨R, hR, r, hr, hbad⟩ := exists_notOwn hl
  obtain ⟨i | -, d⟩ := l
  · obtain ⟨pid, hpid, rfl⟩ := Option.map_eq_some_iff.1 hR
    rcases hreading : reading h o.world.hook i with - | ⟨pid', regions⟩
    · rw [vmaRegions_of_reading hreading hpid] at hr
      exact absurd hr List.not_mem_nil
    obtain ⟨hpid', hregions⟩ := smapsPid_of_reading hreading
    obtain rfl := Option.some.inj (hpid'.symm.trans hpid)
    rw [hregions] at hr
    obtain ⟨k, hk⟩ := exists_choice_eq hr
    refine ⟨{ d with sample := k }, fun htrue ↦ ?_⟩
    obtain ⟨-, hall⟩ := poll_noted (d := { d with sample := k }) hreading
    obtain ⟨rows, hnoted, c, hc, hkey⟩ := hall r hk
    have hmem : c ∈ newCandidates h o.world (.poll i, { d with sample := k }) := by
      rw [newCandidates_poll, hnoted.candidates, List.drop_left]
      exact hc
    obtain ⟨t, ht, hage⟩ := htrue.age c hmem
    obtain ⟨hcpid, hts, -, hage'⟩ := hnoted.rows c hc
    -- what the hook remembers after the call, and what it should
    have hobs : observe h o (.poll i, { d with sample := k }) = some _ := rfl
    have hafter := (remembers_step ho hobs).seen r.key
    have htimes := (recent_step hpos hrecent hobs).times
    rw [newReading_poll, hpid] at ht hafter htimes
    obtain ⟨Rl, hRl, rfl⟩ := Option.map_eq_some_iff.1 ht
    obtain ⟨u, hu⟩ := Option.isSome_iff_exists.1 (hnoted.seen_isSome ⟨r, hr, rfl⟩)
    obtain ⟨Rg, hRg, hRgu⟩ := Option.map_eq_some_iff.1 (hafter.symm.trans hu)
    rw [hkey, hcpid] at hRl
    refine find?_ne_of_notOwn hown hbad hRl hRg (eq_of_nowNs_eq htimes
      (List.mem_of_find?_eq_some hRl) (List.mem_of_find?_eq_some hRg) ?_)
    rw [hage', hkey, State.ageSec, hu, hts] at hage
    have hsub : ((i.nowNs - u : ℤ) : ℚ) = ((i.nowNs - Rl.nowNs : ℤ) : ℚ) :=
      (div_left_inj' (pow_ne_zero 9 (show (10 : ℚ) ≠ 0 by decide))).1 hage
    have := Rat.intCast_inj.1 hsub
    omega
  · cases hR

theorem exists_observe (h : HugepageHarness) (o : Observed) (l : Input × Draws) :
    ∃ o', observe h o l = some o' := by
  obtain ⟨w', hw'⟩ := exists_step h o.world l
  exact ⟨_, by rw [observe, hw']; rfl⟩

omit [Python] in
theorem remembers_watch (collectionId : PyStr) (startNs : ℤ) :
    Remembers (watch collectionId startNs) := by
  refine ⟨fun _ ↦ rfl, fun _ ↦ ⟨fun h ↦ absurd h (by simp [watch, start, load]), ?_⟩,
    fun _ hR ↦ absurd hR List.not_mem_nil⟩
  rintro ⟨_, hR, -⟩
  exact absurd hR List.not_mem_nil

/-- **When ages and comparisons are those of the process in the row**: in every run whose polls go
through no bounds that were gone through for another process, and through none that `smaps` listed
for the process in a poll up to which they were not gone through; and where polls are a positive
interval apart, only then: if a run on given inputs does, then with some choices of the sampled
regions they are not. -/
theorem trueHistories_iff (h : HugepageHarness) (collectionId : PyStr) (startNs : ℤ) :
    (∀ ls, Run.Always (observe h) (OwnBounds h) (watch collectionId startNs) ls →
      Run.Always (observe h) (TrueHistories h) (watch collectionId startNs) ls) ∧
    (0 < h.vmaIntervalNs → ∀ inputs,
      (∀ ls, ls.map Prod.fst = inputs →
        Run.Always (observe h) (TrueHistories h) (watch collectionId startNs) ls) ↔
      ∀ ls, ls.map Prod.fst = inputs →
        Run.Always (observe h) (OwnBounds h) (watch collectionId startNs) ls) := by
  have hall : ∀ ls, Run.Always (observe h) (OwnBounds h) (watch collectionId startNs) ls →
      Run.Always (observe h) (TrueHistories h) (watch collectionId startNs) ls := fun ls hown ↦
    Run.always_of_always (I := Remembers) (fun _ _ _ ↦ remembers_step)
      (remembers_watch collectionId startNs)
      (fun o l ho hl ↦ trueHistories_of_ownBounds ho hl (exists_step h o.world l)) hown
  refine ⟨hall, fun hpos inputs ↦ ⟨fun htrue ls hls ↦ ?_, fun hown ls hls ↦ hall ls (hown ls hls)⟩⟩
  by_contra hnot
  obtain ⟨o, ho⟩ := Run.exists_exec (exists_observe h) (watch collectionId startNs) ls
  obtain ⟨pre, l, post, o₁, -, rfl, hpre, hl, -, -, hfirst⟩ :=
    Run.exists_step_of_not_always ho hnot
  obtain ⟨hrem, hown, hrecent⟩ : Remembers o₁ ∧ Own o₁ ∧ Recent o₁ :=
    Run.exec_invariant_of_always (I := fun o ↦ Remembers o ∧ Own o ∧ Recent o)
      (fun _ _ _ ⟨hr, ho, hc⟩ hl hs ↦
        ⟨remembers_step hr hs, own_step ho hl hs, recent_step hpos hc hs⟩)
      ⟨remembers_watch collectionId startNs, fun _ _ hR ↦ absurd hR List.not_mem_nil,
        .nil, fun _ hR ↦ absurd hR List.not_mem_nil⟩ hfirst hpre
  -- the same inputs with another choice in the first poll that does not meet the condition
  obtain ⟨d, hd⟩ := exists_not_trueHistories hpos hrem hown hrecent hl
  refine hd (Run.Always.at_step (htrue (pre ++ (l.1, d) :: post) ?_) hpre)
  rw [← hls, List.map_append, List.map_append, List.map_cons, List.map_cons]

end Polls

/-! ### Example -/

/-- Ten seconds later, a child of the process with the same addresses is found. -/
def forked : PollInput :=
  { twoRegions with
    nowNs := 110000000000
    proc := [("7".toList, some "redis-server".toList), ("9".toList, some "redis-server".toList)] }

/-- The first poll, on the process 7. -/
def beforeFork : Input × Draws := (.poll twoRegions, firstThenSecond)

/-- The second poll, on the process 9. -/
def afterFork : Input × Draws := (.poll forked, firstThenSecond)

/-- The candidate of the child is ten seconds old when the child is first seen. -/
theorem not_trueHistories_forked :
    letI := Python.ascii
    ¬ Run.Always (observe redisHarness) (TrueHistories redisHarness)
      (watch "run-abc".toList 0) [beforeFork, afterFork] := by
  let _ := Python.ascii
  intro h
  obtain ⟨o, ho, c, hc, hfirst, hts, hage⟩ : ∃ o,
      observe redisHarness (watch "run-abc".toList 0) beforeFork = some o ∧
      ∃ c ∈ newCandidates redisHarness o.world afterFork,
        firstListed (o.past ++ (newReading redisHarness o.world afterFork).toList) c.pid c.key =
          some 110000000000 ∧ c.tsNs = 110000000000 ∧ c.ageSec ≠ 0 := by
    refine ⟨_, rfl, ?_⟩
    decide +kernel
  obtain ⟨t, ht, hage'⟩ := (h.2 o ho).1.age c hc
  rw [Option.some.inj (ht.symm.trans hfirst), hts] at hage'
  exact hage (hage'.trans (by decide +kernel))

end Thp
