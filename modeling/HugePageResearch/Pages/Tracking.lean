import HugePageResearch.Library.Run
import HugePageResearch.Pages.PageAccess

/-!
# What the access bits of the tracker mean

The idle bitmap keeps one bit for each page frame. Writing a word sets the bits that are 1 in it and
leaves the others; an access to a page clears its bit. Here it is given by its history: the
accesses, reads and writes so far, the latest first. Pages are accessed between the calls of a
tracker and also between any two operations of one call on the bitmap (`accesses`).

## The result

`result_iff`: in every run of calls of one tracker, a result is valid exactly for a PFN that an
earlier call armed, and its access bit says whether that PFN was accessed after its latest arming,
as of the moment of the call at which the bit was read, before the call arms anything itself.

The steps: once a PFN is armed, its bit and its accesses since then are complementary
(`bitmap_of_armed`); a call arms exactly the PFNs of its pages (`call_spec`); so the armed set
of the tracker and the history agree in every reachable state (`armed_iff`).
-/

namespace Pages

open BitFile

/-! ### The bitmap by its history -/

/-- What happens to the bitmap. -/
inductive BitmapEvent where
  /-- A page is accessed. -/
  | access (pfn : ℕ)
  /-- Words are read at a byte offset. -/
  | read (offset count : ℕ)
  /-- Words are written at a byte offset. -/
  | write (offset : ℕ) (masks : List (BitVec 64))

/-- The events so far, the latest first. -/
abbrev History := List BitmapEvent

/-- The event sets the bit of a PFN. -/
def BitmapEvent.arms (p : ℕ) : BitmapEvent → Bool
  | .write offset masks => sets (offset / 8) masks p
  | _ => false

theorem exists_arms_append (new h : History) (p : ℕ) :
    (∃ e ∈ new ++ h, BitmapEvent.arms p e = true) ↔
      (∃ e ∈ new, BitmapEvent.arms p e = true) ∨ ∃ e ∈ h, BitmapEvent.arms p e = true := by
  simp only [List.mem_append, or_and_right, exists_or]

/-- The event is a write. -/
def BitmapEvent.isWrite : BitmapEvent → Bool
  | .write _ _ => true
  | _ => false

/-- The bits after a history, from given first ones. -/
def bitmap (init : ℕ → Bool) : History → ℕ → Bool
  | [], p => init p
  | .access q :: h, p => if q = p then false else bitmap init h p
  | .read _ _ :: h, p => bitmap init h p
  | .write offset masks :: h, p => bitmap init h p || sets (offset / 8) masks p

/-- The PFN was accessed after its latest arming. -/
def accessedSinceArm (p : ℕ) : History → Bool
  | [] => false
  | .access q :: h => decide (q = p) || accessedSinceArm p h
  | .read _ _ :: h => accessedSinceArm p h
  | .write offset masks :: h => !sets (offset / 8) masks p && accessedSinceArm p h

variable (init : ℕ → Bool) (accesses : History → List ℕ)

/-- The history when an operation takes place: the pages accessed just before it are in it. -/
def settle (h : History) : History := (accesses h).map .access ++ h

/-- The bitmap as a file. -/
def historyFile : IdleFile History where
  read h offset count :=
    let h' := settle accesses h
    (some (words 64 (bitmap init h') (offset / 8) count), .read offset count :: h')
  write h offset masks := (true, .write offset masks :: settle accesses h)

/-- **Once a PFN is armed, its bit is the absence of an access since then.** -/
theorem bitmap_of_armed {p : ℕ} {h : History} (harmed : ∃ e ∈ h, e.arms p = true) :
    bitmap init h p = !accessedSinceArm p h := by
  induction h with
  | nil => exact absurd harmed (by simp)
  | cons e h ih =>
    rw [List.exists_mem_cons_iff] at harmed
    rcases e with q | ⟨offset, count⟩ | ⟨offset, masks⟩
    · have hih := ih (harmed.resolve_left (by simp [BitmapEvent.arms]))
      rw [bitmap, accessedSinceArm, hih]
      split_ifs with hq
      · simp [hq]
      · simp [hq]
    · exact ih (harmed.resolve_left (by simp [BitmapEvent.arms]))
    · rw [bitmap, accessedSinceArm]
      rcases hset : sets (offset / 8) masks p with - | -
      · have hih := ih (harmed.resolve_left (by simp [BitmapEvent.arms, hset]))
        simpa using hih
      · simp

/-! ### Reading -/

/-- The second history goes on from the first without a write. -/
def ReadsOnly (h h' : History) : Prop :=
  ∃ new, h' = new ++ h ∧ ∀ e ∈ new, BitmapEvent.isWrite e = false

theorem ReadsOnly.refl (h : History) : ReadsOnly h h :=
  ⟨[], rfl, fun _ he ↦ absurd he List.not_mem_nil⟩

theorem ReadsOnly.trans {h₁ h₂ h₃ : History} (h₁₂ : ReadsOnly h₁ h₂) (h₂₃ : ReadsOnly h₂ h₃) :
    ReadsOnly h₁ h₃ := by
  obtain ⟨new, rfl, hnew⟩ := h₁₂
  obtain ⟨new', rfl, hnew'⟩ := h₂₃
  refine ⟨new' ++ new, (List.append_assoc _ _ _).symm, fun e he ↦ ?_⟩
  rcases List.mem_append.1 he with he | he
  · exact hnew' e he
  · exact hnew e he

theorem readsOnly_settle (h : History) : ReadsOnly h (settle accesses h) :=
  ⟨_, rfl, by simp [BitmapEvent.isWrite]⟩

/-- A read comes after the accesses before it and tells the bit as of then. -/
theorem readPageIdle_history (h : History) (p : ℕ) :
    readPageIdle (historyFile init accesses) p h =
      (.ok (bitmap init (settle accesses h) p), .read (p / 64 * 8) 1 :: settle accesses h) :=
  readPageIdle_of_words rfl

theorem readsOnly_readPageIdle (h : History) (p : ℕ) :
    ReadsOnly h (readPageIdle (historyFile init accesses) p h).2 := by
  rw [readPageIdle_history]
  exact (readsOnly_settle accesses h).trans ⟨[_], rfl, by simp [BitmapEvent.isWrite]⟩

/-- Reading pages always succeeds on this bitmap. -/
theorem exists_readMany (tracker : PageAccessTracker) (pages : List ResolvedPhysicalPage)
    (h : History) : ∃ results h',
      readMany (historyFile init accesses) tracker pages h = (.ok results, h') :=
  readMany_ok (fun k p ↦ ⟨_, congrArg Prod.fst (readPageIdle_history init accesses k p)⟩)
    tracker pages h

/-! ### Arming -/

theorem writeMasks_history (entries : List (ℕ × BitVec 64)) (h : History) :
    ∃ new, writeMasks (historyFile init accesses) entries h = (.ok (), new ++ h) ∧
      ∀ p, (∃ e ∈ new, BitmapEvent.arms p e = true) ↔
        ∃ e ∈ entries, sets (e.1 / 8) [e.2] p = true := by
  induction entries generalizing h with
  | nil => exact ⟨[], rfl, by simp⟩
  | cons e entries ih =>
    obtain ⟨new, hnew, harms⟩ := ih (.write e.1 [e.2] :: settle accesses h)
    refine ⟨new ++ .write e.1 [e.2] :: (accesses h).map .access, ?_, fun p ↦ ?_⟩
    · rw [writeMasks]
      exact hnew.trans (by simp [settle])
    · have haccess : ¬ ∃ e ∈ (accesses h).map BitmapEvent.access, e.arms p = true := by
        simp [BitmapEvent.arms]
      rw [exists_arms_append, List.exists_mem_cons_iff, or_iff_left haccess, harms, or_comm,
        List.exists_mem_cons_iff]
      rfl

/-- **Arming pages** always succeeds on this bitmap and sets the bits of their PFNs only. -/
theorem armMany_history (tracker : PageAccessTracker) (pages : List ResolvedPhysicalPage)
    (h : History) : ∃ new, armMany (historyFile init accesses) tracker pages h =
        (.ok (), { tracker with
          armedPfns := tracker.armedPfns ∪ (trackingPfns pages).toFinset }, new ++ h) ∧
      ∀ p, (∃ e ∈ new, BitmapEvent.arms p e = true) ↔ p ∈ trackingPfns pages := by
  obtain ⟨new, hnew, harms⟩ := writeMasks_history init accesses (maskEntries pages) h
  refine ⟨new, ?_, fun p ↦ (harms p).trans exists_maskEntries⟩
  rw [armMany_eq, hnew]

/-! ### Calls -/

/-- What happens next: a page is accessed, or a method of the tracker is called. -/
inductive Action where
  | access (pfn : ℕ)
  | resolveMany (proc : ProcFiles) (requests : List PageAccessRequest)
  | readMany (resolvedPages : List ResolvedPhysicalPage)
  | armMany (resolvedPages : List ResolvedPhysicalPage)
  | sampleMany (proc : ProcFiles) (requests : List PageAccessRequest)

/-- The PFNs that an action arms, for pages of the given size. -/
def Action.arms (pageSize : ℕ) : Action → List ℕ
  | .armMany resolvedPages => trackingPfns resolvedPages
  | .sampleMany proc requests =>
    match Pages.resolveMany pageSize proc requests with
    | .ok resolvedPages => trackingPfns resolvedPages
    | .error _ => []
  | _ => []

/-- The tracker and the bitmap. -/
structure TrackedBitmap where
  tracker : PageAccessTracker
  history : History

/-- A new tracker, for pages of the given size. -/
def TrackedBitmap.start (pageSize : ℕ) : TrackedBitmap := ⟨⟨pageSize, ∅⟩, []⟩

/-- An action: the results it returns or what it raises, and the state it leaves. -/
def call (s : TrackedBitmap) : Action → Except PageError (List PageAccessResult) × TrackedBitmap
  | .access pfn => (.ok [], { s with history := .access pfn :: s.history })
  | .resolveMany proc requests =>
    ((resolveMany s.tracker.pageSize proc requests).map fun _ ↦ [], s)
  | .readMany resolvedPages =>
    let (results, history) :=
      readMany (historyFile init accesses) s.tracker resolvedPages s.history
    (results, { s with history })
  | .armMany resolvedPages =>
    let (armed, tracker, history) :=
      armMany (historyFile init accesses) s.tracker resolvedPages s.history
    (armed.map fun _ ↦ [], ⟨tracker, history⟩)
  | .sampleMany proc requests =>
    let (results, tracker, history) :=
      sampleMany (historyFile init accesses) s.tracker proc requests s.history
    (results, ⟨tracker, history⟩)

/-- A run goes through every action; an exception is the caller's business. -/
def step (s : TrackedBitmap) (a : Action) : Option TrackedBitmap := some (call init accesses s a).2

/-- **What `sample_many` does** once its requests are resolved: it reads, then arms. -/
theorem sampleMany_history {tracker : PageAccessTracker} {proc : ProcFiles}
    {requests : List PageAccessRequest} {pages : List ResolvedPhysicalPage} (h : History)
    (hres : resolveMany tracker.pageSize proc requests = .ok pages) :
    ∃ results h', readMany (historyFile init accesses) tracker pages h = (.ok results, h') ∧
      ∃ new, sampleMany (historyFile init accesses) tracker proc requests h =
          (.ok results, { tracker with
            armedPfns := tracker.armedPfns ∪ (trackingPfns pages).toFinset }, new ++ h') ∧
        ∀ p, (∃ e ∈ new, BitmapEvent.arms p e = true) ↔ p ∈ trackingPfns pages := by
  obtain ⟨results, h', hread⟩ := exists_readMany init accesses tracker pages h
  obtain ⟨new, harm, harms⟩ := armMany_history init accesses tracker pages h'
  refine ⟨results, h', hread, new, ?_, harms⟩
  rw [sampleMany, hres]
  simp only [hread, harm]

/-- A result that comes from a page and a dictionary: the dictionary knows the armed PFNs, with bits
as of moments between two histories at which nothing was written since the first. -/
def FromRead (before after : History) (armed : Finset ℕ) (r : PageAccessResult) : Prop :=
  ∃ idle page, r = resultFromResolved idle page ∧
    (∀ p, page.trackingPfn = some p → (p ∈ idle.keys ↔ p ∈ armed)) ∧
    ∀ p b, idle.get? p = some b →
      ∃ moment, ReadsOnly before moment ∧ moment <:+ after ∧ b = bitmap init moment p

/-- **`read_many` on this bitmap** writes nothing, and its results come from its reads. -/
theorem readMany_history {tracker : PageAccessTracker} {pages : List ResolvedPhysicalPage}
    {results : List PageAccessResult} {h h' : History}
    (hread : readMany (historyFile init accesses) tracker pages h = (.ok results, h')) :
    ReadsOnly h h' ∧ ∀ r ∈ results, FromRead init h h' tracker.armedPfns r := by
  obtain ⟨hR, idle, rfl, hkeys, hget⟩ := readMany_spec ReadsOnly.refl
    (fun _ _ _ ↦ ReadsOnly.trans) (readsOnly_readPageIdle init accesses) hread
  refine ⟨hR, fun r hr ↦ ?_⟩
  obtain ⟨page, hpage, rfl⟩ := List.mem_map.1 hr
  refine ⟨idle, page, rfl, fun p hp ↦ hkeys p (mem_trackingPfns.2 ⟨page, hpage, hp⟩),
    fun p b hb ↦ ?_⟩
  obtain ⟨h₁, hh₁, hval, hend⟩ := hget p b hb
  rw [readPageIdle_history] at hval hend
  obtain ⟨new, rfl, -⟩ := hend
  exact ⟨settle accesses h₁, hh₁.trans (readsOnly_settle accesses h₁),
    (List.suffix_cons _ _).trans (List.suffix_append _ _), (Except.ok.inj hval).symm⟩

/-- The call goes on. -/
theorem FromRead.mono {before after after' : History} {armed : Finset ℕ} {r : PageAccessResult}
    (hr : FromRead init before after armed r) (hsuffix : after <:+ after') :
    FromRead init before after' armed r := by
  obtain ⟨idle, page, hres, hkeys, hget⟩ := hr
  refine ⟨idle, page, hres, hkeys, fun p b hb ↦ ?_⟩
  obtain ⟨moment, hquiet, hmoment, hval⟩ := hget p b hb
  exact ⟨moment, hquiet, hmoment.trans hsuffix, hval⟩

/-- `read_many` writes nothing. -/
theorem readsOnly_readMany (tracker : PageAccessTracker) (pages : List ResolvedPhysicalPage)
    (h : History) : ReadsOnly h (readMany (historyFile init accesses) tracker pages h).2 := by
  obtain ⟨results, h', hread⟩ := exists_readMany init accesses tracker pages h
  rw [hread]
  exact (readMany_history init accesses hread).1

/-- A history that goes on without a write arms nothing new. -/
theorem ReadsOnly.exists_arms {h h' : History} (hr : ReadsOnly h h') (p : ℕ) :
    (∃ e ∈ h', BitmapEvent.arms p e = true) ↔ ∃ e ∈ h, BitmapEvent.arms p e = true := by
  obtain ⟨new, rfl, hnew⟩ := hr
  have hnone : ¬ ∃ e ∈ new, BitmapEvent.arms p e = true := by
    rintro ⟨e, he, hp⟩
    have hwrite := hnew e he
    rcases e with q | ⟨offset, count⟩ | ⟨offset, masks⟩
    · exact absurd hp (by simp [BitmapEvent.arms])
    · exact absurd hp (by simp [BitmapEvent.arms])
    · exact absurd hwrite (by simp [BitmapEvent.isWrite])
  rw [exists_arms_append, or_iff_right hnone]

/-- The PFNs that the tracker takes for armed, and those that the history says are. -/
def ArmedBy (s : TrackedBitmap) (armed : ℕ → Prop) : Prop :=
  ∀ p, (p ∈ s.tracker.armedPfns ↔ armed p) ∧
    ((∃ e ∈ s.history, BitmapEvent.arms p e = true) ↔ armed p)

/-- Arming pages on top of a history. -/
theorem ArmedBy.arm {s : TrackedBitmap} {armed : ℕ → Prop} (hs : ArmedBy s armed)
    {h new : History} {pages : List ResolvedPhysicalPage} (hr : ReadsOnly s.history h)
    (harms : ∀ p, (∃ e ∈ new, BitmapEvent.arms p e = true) ↔ p ∈ trackingPfns pages) :
    ArmedBy ⟨{ s.tracker with
      armedPfns := s.tracker.armedPfns ∪ (trackingPfns pages).toFinset }, new ++ h⟩
      fun p ↦ armed p ∨ p ∈ trackingPfns pages := by
  refine fun p ↦ ⟨?_, ?_⟩
  · show p ∈ s.tracker.armedPfns ∪ (trackingPfns pages).toFinset ↔ _ ∨ _
    rw [Finset.mem_union, List.mem_toFinset, (hs p).1]
  · show (∃ e ∈ new ++ h, BitmapEvent.arms p e = true) ↔ _ ∨ _
    rw [exists_arms_append, harms, hr.exists_arms, (hs p).2, or_comm]

/-- A state in which no more is armed. -/
theorem ArmedBy.readsOnly {s : TrackedBitmap} {armed : ℕ → Prop} (hs : ArmedBy s armed)
    {h : History} (hr : ReadsOnly s.history h) : ArmedBy { s with history := h }
      fun p ↦ armed p ∨ p ∈ ([] : List ℕ) := by
  refine fun p ↦ ⟨?_, ?_⟩
  · exact (hs p).1.trans (or_iff_left List.not_mem_nil).symm
  · exact ((hr.exists_arms p).trans (hs p).2).trans (or_iff_left List.not_mem_nil).symm

/-- **What an action arms**: in the tracker and in the bitmap alike, exactly the PFNs of the pages
that it arms, on top of those armed before. -/
theorem call_spec {s : TrackedBitmap} {armed : ℕ → Prop} (hs : ArmedBy s armed) (a : Action) :
    (call init accesses s a).2.tracker.pageSize = s.tracker.pageSize ∧
      ArmedBy (call init accesses s a).2 fun p ↦ armed p ∨ p ∈ a.arms s.tracker.pageSize := by
  rcases a with q | ⟨proc, requests⟩ | pages | pages | ⟨proc, requests⟩
  · refine ⟨rfl, fun p ↦ ⟨?_, ?_⟩⟩
    · exact (hs p).1.trans (or_iff_left List.not_mem_nil).symm
    · show (∃ e ∈ BitmapEvent.access q :: s.history, e.arms p = true) ↔ armed p ∨ p ∈ []
      rw [List.exists_mem_cons_iff, (hs p).2, or_iff_right (by simp [BitmapEvent.arms]),
        or_iff_left List.not_mem_nil]
  · exact ⟨rfl, hs.readsOnly (ReadsOnly.refl _)⟩
  · exact ⟨rfl, hs.readsOnly (readsOnly_readMany init accesses s.tracker pages s.history)⟩
  · obtain ⟨new, harm, harms⟩ := armMany_history init accesses s.tracker pages s.history
    have hcall : (call init accesses s (.armMany pages)).2 = ⟨{ s.tracker with
        armedPfns := s.tracker.armedPfns ∪ (trackingPfns pages).toFinset },
        new ++ s.history⟩ := by
      simp only [call, harm]
    rw [hcall]
    exact ⟨rfl, hs.arm (ReadsOnly.refl _) harms⟩
  · rcases hres : resolveMany s.tracker.pageSize proc requests with e | pages
    · have hcall : (call init accesses s (.sampleMany proc requests)).2 = s := by
        simp only [call, sampleMany, hres]
      have harms : (Action.sampleMany proc requests).arms s.tracker.pageSize = [] := by
        simp only [Action.arms, hres]
      rw [hcall, harms]
      exact ⟨rfl, hs.readsOnly (ReadsOnly.refl _)⟩
    · obtain ⟨results, h', hread, new, hsample, harms⟩ :=
        sampleMany_history init accesses s.history hres
      have hcall : (call init accesses s (.sampleMany proc requests)).2 = ⟨{ s.tracker with
          armedPfns := s.tracker.armedPfns ∪ (trackingPfns pages).toFinset }, new ++ h'⟩ := by
        simp only [call, hsample]
      have harms' : (Action.sampleMany proc requests).arms s.tracker.pageSize =
          trackingPfns pages := by
        simp only [Action.arms, hres]
      rw [hcall, harms']
      exact ⟨rfl, hs.arm (readMany_history init accesses hread).1 harms⟩

/-- **What is armed after a run**: what its actions armed. -/
theorem armed_exec {s t : TrackedBitmap} {armed : ℕ → Prop} {as : List Action}
    (hs : ArmedBy s armed) (h : Run.exec (step init accesses) s as = some t) :
    ArmedBy t fun p ↦ armed p ∨ ∃ a ∈ as, p ∈ a.arms s.tracker.pageSize := by
  induction as generalizing s armed with
  | nil =>
    obtain rfl := Option.some.inj h
    simpa using hs
  | cons a as ih =>
    obtain ⟨s', hstep, hrun⟩ := Run.exec_cons.1 h
    obtain rfl := Option.some.inj hstep
    obtain ⟨hsize, hcall⟩ := call_spec init accesses hs a
    have hrest := ih hcall hrun
    simp only [hsize, or_assoc] at hrest
    simpa only [List.exists_mem_cons_iff] using hrest

/-- **The armed set agrees with the history** in every state that a new tracker comes to. -/
theorem armed_iff {pageSize : ℕ} {as : List Action} {s : TrackedBitmap}
    (h : Run.exec (step init accesses) (.start pageSize) as = some s) :
    ArmedBy s fun p ↦ ∃ a ∈ as, p ∈ a.arms pageSize := by
  have hstart : ArmedBy (.start pageSize) fun _ ↦ False := fun p ↦
    ⟨by simp [TrackedBitmap.start], by simp [TrackedBitmap.start]⟩
  have hexec := armed_exec init accesses hstart h
  simp only [false_or] at hexec
  exact hexec

/-! ### Results -/

/-- **Every result comes from the reads of its call.** -/
theorem mem_results {s : TrackedBitmap} {a : Action} {results : List PageAccessResult}
    {r : PageAccessResult} (hcall : (call init accesses s a).1 = .ok results) (hr : r ∈ results) :
    FromRead init s.history (call init accesses s a).2.history s.tracker.armedPfns r := by
  rcases a with q | ⟨proc, requests⟩ | pages | pages | ⟨proc, requests⟩
  · obtain rfl := Except.ok.inj hcall
    exact absurd hr List.not_mem_nil
  · rcases hres : resolveMany s.tracker.pageSize proc requests with e | pages
    · simp [call, hres, Except.map] at hcall
    · simp only [call, hres, Except.map] at hcall
      obtain rfl := Except.ok.inj hcall
      exact absurd hr List.not_mem_nil
  · exact (readMany_history init accesses (Prod.ext hcall rfl)).2 r hr
  · obtain ⟨new, harm, -⟩ := armMany_history init accesses s.tracker pages s.history
    simp only [call, harm, Except.map] at hcall
    obtain rfl := Except.ok.inj hcall
    exact absurd hr List.not_mem_nil
  · rcases hres : resolveMany s.tracker.pageSize proc requests with e | pages
    · simp [call, sampleMany, hres] at hcall
    · obtain ⟨results', h', hread, new, hsample, -⟩ :=
        sampleMany_history init accesses s.history hres
      simp only [call, hsample] at hcall ⊢
      obtain rfl := Except.ok.inj hcall
      exact ((readMany_history init accesses hread).2 r hr).mono init (List.suffix_append _ _)

/-- **The meaning of a result.** In every run of a new tracker over pages that are accessed at any
time, a result is valid exactly for a PFN that an earlier action armed; then its access bit says
whether the PFN was accessed after its latest arming, as of a moment of the call before it writes,
and `page_idle` is the negation; and a result that is not valid has neither. -/
theorem result_iff {pageSize : ℕ} {before : List Action} {s : TrackedBitmap}
    (h : Run.exec (step init accesses) (.start pageSize) before = some s) {a : Action}
    {results : List PageAccessResult} (hcall : (call init accesses s a).1 = .ok results)
    {r : PageAccessResult} (hr : r ∈ results) :
    (r.accessBitValid = true ↔
      ∃ p, r.trackingPfn = some p ∧ ∃ b ∈ before, p ∈ b.arms pageSize) ∧
    (r.accessBitValid = true → ∃ p moment, r.trackingPfn = some p ∧
      ReadsOnly s.history moment ∧ moment <:+ (call init accesses s a).2.history ∧
      r.accessBit = some (accessedSinceArm p moment) ∧
      r.pageIdle = some (!accessedSinceArm p moment)) ∧
    (r.accessBitValid = false → r.pageIdle = none ∧ r.accessBit = none) := by
  have harmed := armed_iff init accesses h
  obtain ⟨idle, page, rfl, hkeys, hget⟩ := mem_results init accesses hcall hr
  refine ⟨?_, fun hvalid ↦ ?_, fields_of_not_valid⟩
  · rw [accessBitValid_resultFromResolved, trackingPfn_resultFromResolved]
    refine exists_congr fun p ↦ and_congr_right fun hp ↦ ?_
    rw [hkeys p hp, (harmed p).1]
  · obtain ⟨p, hp, hmem⟩ := accessBitValid_resultFromResolved.1 hvalid
    obtain ⟨b, hb⟩ := Dict.exists_get?_of_mem_keys hmem
    obtain ⟨moment, hquiet, hmoment, hval⟩ := hget p b hb
    obtain ⟨hidle, haccess⟩ := @fields_resultFromResolved idle _ _ hp
    have hevent : ∃ e ∈ moment, BitmapEvent.arms p e = true := by
      rw [hquiet.exists_arms, (harmed p).2, ← (harmed p).1, ← hkeys p hp]
      exact hmem
    have hbit := hval.trans (bitmap_of_armed init hevent)
    refine ⟨p, moment, by rw [trackingPfn_resultFromResolved, hp], hquiet, hmoment, ?_, ?_⟩
    · rw [haccess, hb, hbit, Option.map_some, Bool.not_not]
    · rw [hidle, hb, hbit]

/-- A page that is mapped and tracked under one PFN. -/
def basePage (pfn : ℕ) : ResolvedPhysicalPage :=
  ⟨17, 4096, some pfn, some pfn, some (pfn * 4096), some (pfn * 4096)⟩

/-- Two pages of one word are armed, the first is accessed. -/
def sharedWordRun : List Action := [.armMany [basePage 33, basePage 34], .access 33]

/-- The first page is then read as accessed, and rightly so. -/
theorem result_sharedWord : ∃ s r,
    Run.exec (step (fun _ ↦ false) fun _ ↦ []) (.start 4096) sharedWordRun = some s ∧
    (call (fun _ ↦ false) (fun _ ↦ []) s (.readMany [basePage 33])).1 = .ok [r] ∧
    r.accessBit = some true ∧
    (r.accessBitValid = true ↔
      ∃ p, r.trackingPfn = some p ∧ ∃ b ∈ sharedWordRun, p ∈ b.arms 4096) :=
  ⟨_, _, rfl, rfl, by decide +kernel,
    (@result_iff (fun _ ↦ false) (fun _ ↦ []) 4096 sharedWordRun _ rfl (.readMany [basePage 33])
      _ rfl _ List.mem_cons_self).1⟩

end Pages
