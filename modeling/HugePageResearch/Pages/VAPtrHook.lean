import HugePageResearch.Library.Lists
import HugePageResearch.Library.Run
import HugePageResearch.Pages.PageAccess
import HugePageResearch.Python.Text
import Mathlib.Data.Int.Bitwise

/-!
# The hook that follows the pages of Redis values

`data_collection/bpf_instrumentation/vaptr_hook.py`: a poll asks a Redis module for the addresses of
the values of some keys, resolves their pages and arms them; the next poll reads whether they were
accessed in between and appends a row for each, before it asks for the addresses again.

## The result

`recorded_once`: over any run of polls the samples that a poll prepares and arms are recorded by the
next one, all of them, once and in order; each row is that of its own sample with the result for its
own page, which is valid where the page has a PFN; and the page is the one that was resolved for the
sample's own address.

Two lemmas carry it: handing out results along the samples that have a page pairs each sample with
the result of its own page (`recordRows_map`), and looking pages up by the index of their sample
finds the page of its own address (`resolvedPage_prepared`).
-/

namespace Pages

variable [Python]

/-! ### Data -/

/-- `VAPtrData`: a recorded row. -/
structure VAPtrData where
  tsUptimeUs : ℤ
  key : PyStr
  address : PyStr
  pageAddr : PyStr
  available : Bool
  mappedPfn : Option ℕ
  trackingPfn : Option ℕ
  physicalPageAddr : Option ℕ
  trackingPhysicalPageAddr : Option ℕ
  pageIdle : Option Bool
  accessBit : Option Bool
  accessBitValid : Bool
  deriving DecidableEq

/-- `PendingVAPtrSample`. -/
structure PendingVAPtrSample where
  key : PyStr
  address : PyStr
  pageAddr : PyStr
  available : Bool
  resolvedPage : Option ResolvedPhysicalPage

/-- An entry of `raw_samples`. -/
structure RawSample where
  keyName : PyStr
  addrStr : PyStr
  pageAddr : PyStr
  available : Bool
  pageAddrInt : Option ℤ

/-- The fields of `VAPtrHook` that a poll uses. -/
structure VAPtrHook where
  keyNames : List PyStr
  moduleVerified : Bool
  redisPid : Option ℤ
  pageAccessTracker : PageAccessTracker
  pendingSamples : List PendingVAPtrSample
  samples : List VAPtrData

/-- `__init__`. -/
def VAPtrHook.new (keyNames : List PyStr) (tracker : PageAccessTracker) : VAPtrHook :=
  ⟨keyNames, false, none, tracker, [], []⟩

/-- A `CompletedProcess`. -/
structure CompletedProcess where
  stdout : PyStr
  stderr : PyStr
  returncode : ℤ

/-- What one call of `_get_redis_pid` may ask. -/
structure PidLookup where
  /-- `_redis_pid_alive(pid)`. -/
  alive : ℤ → Bool
  /-- `_discover_redis_pid()`. -/
  discovered : Option ℤ

/-- What the environment answers during one poll, over a bitmap with state `κ`. -/
structure PollAnswers (κ : Type*) where
  /-- What happens to the bitmap before the poll. -/
  accesses : κ → κ
  /-- `_discover_keys()`. -/
  discoveredKeys : List PyStr
  /-- `ts_uptime_us`. -/
  tsUptimeUs : ℤ
  /-- `_run_vaptr()`. -/
  vaptr : Option CompletedProcess
  /-- The files below `/proc` and the pid lookup for the first attempt to resolve pages. -/
  first : PidLookup × ProcFiles
  /-- The same for the second attempt. -/
  second : PidLookup × ProcFiles

/-! ### Parsing and resolving -/

/-- `"n/a"`. -/
def notAvailable : PyStr := ['n', '/', 'a']

/-- The sample of two lines of the output. For the non-negative numbers that follow `0x`,
`f"0x{n:x}"` is `hex(n)`. -/
def rawSample (pageSize : ℕ) (keyLine addrLine : PyStr) : RawSample :=
  let keyName := keyLine.strip
  let addrStr := addrLine.strip
  if addrStr.startswith ['0', 'x'] then
    match addrStr.int 16 with
    | none => ⟨keyName, notAvailable, notAvailable, false, none⟩
    | some addrInt =>
      let pageAddrInt := addrInt.ldiff (pageSize - 1)
      ⟨keyName, addrStr, PyStr.hex pageAddrInt, true, some pageAddrInt⟩
  else ⟨keyName, notAvailable, notAvailable, false, none⟩

/-- The loop of `_parse_vaptr_output`, over two lines at a time. -/
def rawSamples (pageSize : ℕ) : List PyStr → List RawSample
  | keyLine :: addrLine :: lines => rawSample pageSize keyLine addrLine :: rawSamples pageSize lines
  | _ => []

/-- `_parse_vaptr_output`. -/
def parseVaptrOutput (pageSize : ℕ) (output : PyStr) : List RawSample :=
  rawSamples pageSize output.splitlines

/-- `_get_redis_pid`: what it returns and leaves in `redis_pid`. -/
def getRedisPid (lookup : PidLookup) : Option ℤ → Option ℤ
  | some pid => if lookup.alive pid then some pid else lookup.discovered
  | none => lookup.discovered

/-- `requests` of `_resolve_page_access`. -/
def accessRequests (pid : ℤ) (pageRequests : List (ℕ × ℤ)) : List PageAccessRequest :=
  pageRequests.map fun e ↦ ⟨pid, e.2⟩

/-- `_resolve_page_access`: the pages or what it raises, and what it leaves in `redis_pid`. -/
def resolvePageAccess {κ : Type*} (answers : PollAnswers κ) (pageSize : ℕ) (redisPid : Option ℤ)
    (pageRequests : List (ℕ × ℤ)) :
    Except PageError (List (Option ResolvedPhysicalPage)) × Option ℤ :=
  let unresolved := List.replicate pageRequests.length none
  if pageRequests = [] then (.ok [], redisPid)
  else
    match getRedisPid answers.first.1 redisPid with
    | none => (.ok unresolved, none)
    | some pid =>
      match resolveMany pageSize answers.first.2 (accessRequests pid pageRequests) with
      | .ok pages => (.ok (pages.map some), some pid)
      | .error e =>
        if e.isOSError then
          match getRedisPid answers.second.1 none with
          | none => (.ok unresolved, none)
          | some pid =>
            match resolveMany pageSize answers.second.2 (accessRequests pid pageRequests) with
            | .ok pages => (.ok (pages.map some), some pid)
            | .error e => if e.isOSError then (.ok unresolved, none) else (.error e, some pid)
        else (.error e, some pid)

/-- `page_requests` of `_prepare_pending_samples`: index and address of the samples with a page. -/
def pageRequests (samples : List RawSample) : List (ℕ × ℤ) :=
  samples.zipIdx.filterMap fun e ↦
    if e.1.available then e.1.pageAddrInt.map fun pageAddrInt ↦ (e.2, pageAddrInt) else none

/-- The pending samples, with the pages looked up by index. -/
def pendingSamples (samples : List RawSample)
    (resolvedByIndex : Dict ℕ (Option ResolvedPhysicalPage)) : List PendingVAPtrSample :=
  samples.zipIdx.map fun e ↦
    ⟨e.1.keyName, e.1.addrStr, e.1.pageAddr, e.1.available, (resolvedByIndex.get? e.2).join⟩

/-- `_prepare_pending_samples`: the samples or what it raises, and what it leaves in `redis_pid`. -/
def preparePendingSamples {κ : Type*} (answers : PollAnswers κ) (pageSize : ℕ)
    (redisPid : Option ℤ) (samples : List RawSample) :
    Except PageError (List PendingVAPtrSample) × Option ℤ :=
  let requests := pageRequests samples
  match resolvePageAccess answers pageSize redisPid requests with
  | (.error e, redisPid) => (.error e, redisPid)
  | (.ok resolvedPages, redisPid) =>
    (.ok (pendingSamples samples (Dict.ofZip (requests.map Prod.fst) resolvedPages)), redisPid)

/-! ### A poll -/

section Poll

variable {κ : Type*} (F : IdleFile κ)

/-- How a poll ends. -/
inductive PollEnd where
  | returned
  /-- `read_many` raises. -/
  | readRaised (e : PageError)
  /-- There are fewer results than pages, so that `next(access_results)` raises. -/
  | stopIteration
  /-- Resolving the pages raises. -/
  | resolveRaised (e : PageError)
  /-- `arm_many` raises. -/
  | armRaised (e : PageError)

/-- The row that `_append_sample_row` appends. -/
def sampleRow (tsUptimeUs : ℤ) (sample : PendingVAPtrSample)
    (accessResult : Option PageAccessResult) : VAPtrData where
  tsUptimeUs
  key := sample.key
  address := sample.address
  pageAddr := sample.pageAddr
  available := sample.available
  mappedPfn := accessResult.bind (·.mappedPfn)
  trackingPfn := accessResult.bind (·.trackingPfn)
  physicalPageAddr := accessResult.bind (·.physicalPageAddr)
  trackingPhysicalPageAddr := accessResult.bind (·.trackingPhysicalPageAddr)
  pageIdle := accessResult.bind (·.pageIdle)
  accessBit := accessResult.bind (·.accessBit)
  accessBitValid := accessResult.elim false (·.accessBitValid)

/-- The loop of `_record_pending_samples` over an iterator of results: the rows, and whether the
results last. -/
def recordRows (tsUptimeUs : ℤ) :
    List PendingVAPtrSample → List PageAccessResult → List VAPtrData × Bool
  | [], _ => ([], true)
  | sample :: samples, results =>
    match sample.resolvedPage, results with
    | none, results =>
      let (rows, complete) := recordRows tsUptimeUs samples results
      (sampleRow tsUptimeUs sample none :: rows, complete)
    | some _, [] => ([], false)
    | some _, accessResult :: results =>
      let (rows, complete) := recordRows tsUptimeUs samples results
      (sampleRow tsUptimeUs sample (some accessResult) :: rows, complete)

/-- The pages of the samples that have one. -/
def resolvedPages (samples : List PendingVAPtrSample) : List ResolvedPhysicalPage :=
  samples.filterMap (·.resolvedPage)

/-- `_record_pending_samples` and the `clear` after it. -/
def recordPendingSamples (tsUptimeUs : ℤ) (hook : VAPtrHook) (k : κ) : PollEnd × VAPtrHook × κ :=
  if hook.pendingSamples = [] then (.returned, hook, k)
  else
    match readMany F hook.pageAccessTracker (resolvedPages hook.pendingSamples) k with
    | (.error e, k) => (.readRaised e, hook, k)
    | (.ok accessResults, k) =>
      let (rows, complete) := recordRows tsUptimeUs hook.pendingSamples accessResults
      let hook := { hook with samples := hook.samples ++ rows }
      if complete then (.returned, { hook with pendingSamples := [] }, k)
      else (.stopIteration, hook, k)

/-- `"ERR unknown command"`. -/
def unknownCommand : PyStr := "ERR unknown command".toList

/-- The part of `poll` that comes after `_run_vaptr` has brought a result. -/
def refreshSamples (answers : PollAnswers κ) (hadPendingSamples : Bool) (result : CompletedProcess)
    (hook : VAPtrHook) (k : κ) : PollEnd × VAPtrHook × κ :=
  let output := result.stdout.strip
  if !hook.moduleVerified && (unknownCommand <:+: output || unknownCommand <:+: result.stderr) then
    (.returned, hook, k)
  else
    let hook := { hook with moduleVerified := hook.moduleVerified || output ≠ [] }
    if result.returncode ≠ 0 ∨ output = [] then (.returned, hook, k)
    else
      let pageSize := hook.pageAccessTracker.pageSize
      match preparePendingSamples answers pageSize hook.redisPid
        (parseVaptrOutput pageSize output) with
      | (.error e, redisPid) => (.resolveRaised e, { hook with redisPid }, k)
      | (.ok prepared, redisPid) =>
        let hook := { hook with redisPid }
        match armMany F hook.pageAccessTracker (resolvedPages prepared) k with
        | (.error e, pageAccessTracker, k) => (.armRaised e, { hook with pageAccessTracker }, k)
        | (.ok (), pageAccessTracker, k) =>
          let fresh := if hadPendingSamples then []
            else prepared.map fun sample ↦ sampleRow answers.tsUptimeUs sample none
          (.returned, { hook with
            pageAccessTracker
            pendingSamples := prepared
            samples := hook.samples ++ fresh }, k)

/-- `poll`. -/
def poll (answers : PollAnswers κ) (hook : VAPtrHook) (k : κ) : PollEnd × VAPtrHook × κ :=
  let keyNames := if hook.keyNames = [] then answers.discoveredKeys else hook.keyNames
  let hook := { hook with keyNames }
  if keyNames = [] then (.returned, hook, k)
  else
    let hadPendingSamples := decide (hook.pendingSamples.length ≠ 0)
    match recordPendingSamples F answers.tsUptimeUs hook k with
    | (.returned, hook, k) =>
      match answers.vaptr with
      | none => (.returned, hook, k)
      | some result => refreshSamples F answers hadPendingSamples result hook k
    | stopped => stopped

/-! ### Recording -/

omit [Python] in
/-- **Results are handed to the samples they belong to**: along the samples that have a page, one
result for each. -/
theorem recordRows_map (tsUptimeUs : ℤ) (f : ResolvedPhysicalPage → PageAccessResult)
    (samples : List PendingVAPtrSample) :
    recordRows tsUptimeUs samples ((resolvedPages samples).map f) =
      (samples.map fun sample ↦ sampleRow tsUptimeUs sample (sample.resolvedPage.map f), true) := by
  induction samples with
  | nil => rfl
  | cons sample samples ih =>
    rcases hpage : sample.resolvedPage with - | page
    · have hpages : resolvedPages (sample :: samples) = resolvedPages samples :=
        List.filterMap_cons_none hpage
      rw [hpages]
      simp only [recordRows, hpage, ih, List.map_cons, Option.map_none]
    · have hpages : resolvedPages (sample :: samples) = page :: resolvedPages samples :=
        List.filterMap_cons_some hpage
      rw [hpages]
      simp only [recordRows, hpage, ih, List.map_cons, Option.map_some]

/-- The rows of samples, from the dictionary that was read for their pages. -/
def resultRows (tsUptimeUs : ℤ) (idle : Dict ℕ Bool) (samples : List PendingVAPtrSample) :
    List VAPtrData :=
  samples.map fun sample ↦
    sampleRow tsUptimeUs sample (sample.resolvedPage.map (resultFromResolved idle))

variable {F}

omit [Python] in
/-- **What `_record_pending_samples` does** unless `read_many` raises: it reads the pages of the
pending samples and appends their rows. -/
theorem recordPendingSamples_spec {tsUptimeUs : ℤ} {hook hook' : VAPtrHook} {k k' : κ}
    {ended : PollEnd} (h : recordPendingSamples F tsUptimeUs hook k = (ended, hook', k')) :
    (∃ e, ended = .readRaised e) ∨
      ended = .returned ∧ ∃ idle, readMany F hook.pageAccessTracker
        (resolvedPages hook.pendingSamples) k =
          (.ok ((resolvedPages hook.pendingSamples).map (resultFromResolved idle)), k') ∧
        (∀ p ∈ trackingPfns (resolvedPages hook.pendingSamples),
          p ∈ idle.keys ↔ p ∈ hook.pageAccessTracker.armedPfns) ∧
        hook' = { hook with
          samples := hook.samples ++ resultRows tsUptimeUs idle hook.pendingSamples
          pendingSamples := [] } := by
  rw [recordPendingSamples] at h
  split_ifs at h with hnil
  · obtain ⟨rfl, rfl, rfl⟩ : ended = .returned ∧ hook = hook' ∧ k = k' := by
      simpa [eq_comm] using h
    refine Or.inr ⟨rfl, Dict.empty, ?_, ?_, ?_⟩
    · rw [hnil]
      rfl
    · rw [hnil]
      exact fun p hp ↦ absurd hp List.not_mem_nil
    · rcases hook with ⟨keyNames, moduleVerified, redisPid, tracker, pending, samples⟩
      obtain rfl : pending = [] := hnil
      simp [resultRows]
  · rcases hread : readMany F hook.pageAccessTracker (resolvedPages hook.pendingSamples) k with
      ⟨e | results, k₁⟩
    · simp only [hread] at h
      exact Or.inl ⟨e, (Prod.mk.inj h).1.symm⟩
    · obtain ⟨-, idle, rfl, hkeys, -⟩ := readMany_spec (R := fun _ _ ↦ True) (fun _ ↦ trivial)
        (fun _ _ _ _ _ ↦ trivial) (fun _ _ ↦ trivial) hread
      simp only [hread, recordRows_map, if_true] at h
      obtain ⟨rfl, rfl, rfl⟩ : PollEnd.returned = ended ∧ _ = hook' ∧ k₁ = k' := by
        simpa using h
      exact Or.inr ⟨rfl, idle, rfl, hkeys, rfl⟩

/-! ### Preparing -/

/-- A page, if there is one, belongs to the address of the request. -/
def OfRequest (e : ℕ × ℤ) (resolvedPage : Option ResolvedPhysicalPage) : Prop :=
  ∀ page, resolvedPage = some page → page.virtualAddress = e.2

omit [Python] in
theorem ofRequest_replicate (requests : List (ℕ × ℤ)) :
    List.Forall₂ OfRequest requests (List.replicate requests.length none) := by
  induction requests with
  | nil => exact .nil
  | cons e requests ih => exact .cons (fun page h ↦ absurd h (by simp)) ih

omit [Python] in
theorem ofRequest_map_some {pageSize : ℕ} {proc : ProcFiles} {pid : ℤ} {requests : List (ℕ × ℤ)}
    {pages : List ResolvedPhysicalPage}
    (h : resolveMany pageSize proc (accessRequests pid requests) = .ok pages) :
    List.Forall₂ OfRequest requests (pages.map some) := by
  have hpages := List.forall₂_map_left_iff.1 (forall₂_resolveMany h)
  refine List.forall₂_map_right_iff.2 (hpages.imp fun e page haddress page' hpage ↦ ?_)
  obtain rfl := Option.some.inj hpage
  exact haddress

omit [Python] in
/-- **`_resolve_page_access` answers every request in its place**, with no page or one that belongs
to its address. -/
theorem resolvePageAccess_spec {answers : PollAnswers κ} {pageSize : ℕ}
    {redisPid redisPid' : Option ℤ} {requests : List (ℕ × ℤ)}
    {pages : List (Option ResolvedPhysicalPage)}
    (h : resolvePageAccess answers pageSize redisPid requests = (.ok pages, redisPid')) :
    List.Forall₂ OfRequest requests pages := by
  rw [resolvePageAccess] at h
  split_ifs at h with hnil
  · obtain rfl := Except.ok.inj (Prod.mk.inj h).1
    exact hnil ▸ .nil
  · split at h
    · obtain rfl := Except.ok.inj (Prod.mk.inj h).1
      exact ofRequest_replicate requests
    · split at h
      · rename_i hpages
        obtain rfl := Except.ok.inj (Prod.mk.inj h).1
        exact ofRequest_map_some hpages
      · split_ifs at h
        · split at h
          · obtain rfl := Except.ok.inj (Prod.mk.inj h).1
            exact ofRequest_replicate requests
          · split at h
            · rename_i hpages
              obtain rfl := Except.ok.inj (Prod.mk.inj h).1
              exact ofRequest_map_some hpages
            · split_ifs at h
              · obtain rfl := Except.ok.inj (Prod.mk.inj h).1
                exact ofRequest_replicate requests
              · exact absurd (Prod.mk.inj h).1 (by simp)
        · exact absurd (Prod.mk.inj h).1 (by simp)

/-- The page of a sample belongs to the sample's own address. -/
def OwnPage (sample : PendingVAPtrSample) : Prop :=
  ∀ page, sample.resolvedPage = some page →
    sample.available = true ∧ sample.pageAddr = PyStr.hex page.virtualAddress

/-- The page address of a raw sample is the text of its number, and there is one only where the
value is available. -/
theorem pageAddr_rawSample {pageSize : ℕ} {keyLine addrLine : PyStr} {a : ℤ}
    (ha : (rawSample pageSize keyLine addrLine).pageAddrInt = some a) :
    (rawSample pageSize keyLine addrLine).pageAddr = PyStr.hex a := by
  rw [rawSample] at ha ⊢
  rcases hstart : addrLine.strip.startswith ['0', 'x'] with - | -
  · simp [hstart] at ha
  · rcases hint : addrLine.strip.int 16 with - | addrInt
    · simp [hstart, hint] at ha
    · simp only [hstart, hint, if_true] at ha ⊢
      rw [Option.some.inj ha]

theorem pageAddr_of_mem_rawSamples {pageSize : ℕ} {lines : List PyStr} {sample : RawSample}
    (h : sample ∈ rawSamples pageSize lines) {a : ℤ} (ha : sample.pageAddrInt = some a) :
    sample.pageAddr = PyStr.hex a := by
  induction lines using rawSamples.induct with
  | case1 keyLine addrLine lines ih =>
    rw [rawSamples] at h
    rcases List.mem_cons.1 h with rfl | h
    · exact pageAddr_rawSample ha
    · exact ih h
  | case2 lines hshort =>
    have hnil : rawSamples pageSize lines = [] := by
      rw [rawSamples]
      exact hshort
    exact absurd (hnil ▸ h) List.not_mem_nil

omit [Python] in
/-- No index is asked for twice. -/
theorem nodup_pageRequests (samples : List RawSample) :
    ((pageRequests samples).map Prod.fst).Nodup := by
  have hindices : (samples.zipIdx.map Prod.snd).Nodup := by
    rw [List.zipIdx_map_snd]
    exact List.nodup_range'
  refine hindices.sublist (Lists.sublist_map_filterMap (fun e e' he ↦ ?_) _)
  split_ifs at he
  obtain ⟨a, -, rfl⟩ := Option.map_eq_some_iff.1 he
  rfl

omit [Python] in
/-- The requests with their index are the addresses of the samples at it. -/
theorem mem_pageRequests {samples : List RawSample} {i : ℕ} {a : ℤ} :
    (i, a) ∈ pageRequests samples ↔
      ∃ sample, samples[i]? = some sample ∧ sample.available = true ∧
        sample.pageAddrInt = some a := by
  rw [pageRequests, List.mem_filterMap]
  constructor
  · rintro ⟨⟨sample, j⟩, hmem, hsome⟩
    split_ifs at hsome with havailable
    obtain ⟨a', ha', heq⟩ := Option.map_eq_some_iff.1 hsome
    obtain ⟨rfl, rfl⟩ := Prod.mk.inj heq
    exact ⟨sample, List.mk_mem_zipIdx_iff_getElem?.1 hmem, havailable, ha'⟩
  · rintro ⟨sample, hget, havailable, ha⟩
    refine ⟨(sample, i), List.mk_mem_zipIdx_iff_getElem?.2 hget, ?_⟩
    rw [if_pos havailable, ha, Option.map_some]

/-- **Every prepared sample has the page of its own address**: the page looked up under the index
of a sample is the one that was resolved for this sample's address. -/
theorem ownPage_prepared {answers : PollAnswers κ} {pageSize : ℕ} {redisPid redisPid' : Option ℤ}
    {output : PyStr} {prepared : List PendingVAPtrSample}
    (h : preparePendingSamples answers pageSize redisPid (parseVaptrOutput pageSize output) =
      (.ok prepared, redisPid')) {sample : PendingVAPtrSample} (hsample : sample ∈ prepared) :
    OwnPage sample := by
  intro page hpage
  simp only [preparePendingSamples] at h
  rcases hresolve : resolvePageAccess answers pageSize redisPid
    (pageRequests (parseVaptrOutput pageSize output)) with ⟨e | pages, redisPid₁⟩
  · simp [hresolve] at h
  · simp only [hresolve] at h
    obtain rfl := Except.ok.inj (Prod.mk.inj h).1
    obtain ⟨⟨raw, i⟩, hraw, rfl⟩ := List.mem_map.1 hsample
    have hkeys := nodup_pageRequests (parseVaptrOutput pageSize output)
    have hget := (Dict.get?_ofZip hkeys pages).1 (Option.join_eq_some_iff.1 hpage)
    rw [List.zip_map_left] at hget
    obtain ⟨⟨⟨j, a⟩, v⟩, hzip, heq⟩ := List.mem_map.1 hget
    obtain ⟨rfl, rfl⟩ := Prod.mk.inj heq
    obtain ⟨raw', hraw', havailable, ha⟩ := mem_pageRequests.1 (List.of_mem_zip hzip).1
    obtain rfl : raw' = raw :=
      Option.some.inj (hraw'.symm.trans (List.mk_mem_zipIdx_iff_getElem?.1 hraw))
    have haddress : page.virtualAddress = a :=
      (List.forall₂_iff_zip.1 (resolvePageAccess_spec hresolve)).2 hzip page rfl
    refine ⟨havailable, ?_⟩
    rw [haddress]
    exact pageAddr_of_mem_rawSamples (List.mem_of_getElem? hraw') ha

/-- What the second part of a poll leaves: nothing new, or freshly prepared samples whose pages are
armed. The rows it appends have no access result. -/
structure Refreshed (hadPendingSamples : Bool) (tsUptimeUs : ℤ) (hook hook' : VAPtrHook) :
    Prop where
  keyNames : hook'.keyNames = hook.keyNames
  ownPage : ∀ sample ∈ hook'.pendingSamples, OwnPage sample
  armed : ∀ p ∈ trackingPfns (resolvedPages hook'.pendingSamples),
    p ∈ hook'.pageAccessTracker.armedPfns
  samples : hook'.samples = hook.samples ++ if hadPendingSamples then []
    else hook'.pendingSamples.map fun sample ↦ sampleRow tsUptimeUs sample none

omit [Python] in
/-- Without a new list of samples there is nothing to arm and nothing to append. -/
theorem Refreshed.of_nil {had : Bool} {ts : ℤ} {hook hook' : VAPtrHook}
    (hkeys : hook'.keyNames = hook.keyNames) (hnil : hook'.pendingSamples = [])
    (hsamples : hook'.samples = hook.samples) : Refreshed had ts hook hook' where
  keyNames := hkeys
  ownPage := by
    rw [hnil]
    exact fun sample h ↦ absurd h List.not_mem_nil
  armed := by
    rw [hnil]
    exact fun p h ↦ absurd h List.not_mem_nil
  samples := by
    rw [hnil, hsamples, List.map_nil, ite_self, List.append_nil]

/-- **What comes after `_run_vaptr`**, unless `arm_many` raises. -/
theorem refreshSamples_spec {answers : PollAnswers κ} {had : Bool} {result : CompletedProcess}
    {hook hook' : VAPtrHook} {k k' : κ} {ended : PollEnd} (hnil : hook.pendingSamples = [])
    (h : refreshSamples F answers had result hook k = (ended, hook', k')) :
    (∃ e, ended = .armRaised e) ∨ Refreshed had answers.tsUptimeUs hook hook' := by
  simp only [refreshSamples] at h
  split at h
  · obtain ⟨rfl, rfl, rfl⟩ : PollEnd.returned = ended ∧ hook = hook' ∧ k = k' := by simpa using h
    exact Or.inr (.of_nil rfl hnil rfl)
  · split at h
    · obtain ⟨rfl, rfl, rfl⟩ : PollEnd.returned = ended ∧ _ = hook' ∧ k = k' := by simpa using h
      exact Or.inr (.of_nil rfl hnil rfl)
    · split at h
      · obtain ⟨rfl, rfl, rfl⟩ : PollEnd.resolveRaised _ = ended ∧ _ = hook' ∧ k = k' := by
          simpa using h
        exact Or.inr (.of_nil rfl hnil rfl)
      · rename_i prepared redisPid hprepare
        split at h
        · exact Or.inl ⟨_, (Prod.mk.inj h).1.symm⟩
        · rename_i tracker k₁ harm
          obtain ⟨rfl, rfl, rfl⟩ : PollEnd.returned = ended ∧ _ = hook' ∧ k₁ = k' := by
            simpa only [Prod.mk.injEq] using h
          exact Or.inr ⟨rfl, fun sample ↦ ownPage_prepared hprepare,
            fun p ↦ armed_of_armMany harm, rfl⟩

/-! ### Runs -/

/-- The hook and the bitmap. -/
structure HookState (κ : Type*) where
  hook : VAPtrHook
  bitmap : κ

/-- A poll in which neither `read_many` nor `arm_many` raises. -/
def pollStep (F : IdleFile κ) (s : HookState κ) (answers : PollAnswers κ) : Option (HookState κ) :=
  match poll F answers s.hook (answers.accesses s.bitmap) with
  | (.readRaised _, _, _) => none
  | (.armRaised _, _, _) => none
  | (_, hook, bitmap) => some ⟨hook, bitmap⟩

/-- What a poll does: the tracker and the bitmap that it starts with, the rows that it appends for
the pending samples and those that it appends without a result, and the samples that it leaves. -/
structure Batch (κ : Type*) where
  tsUptimeUs : ℤ
  tracker : PageAccessTracker
  bitmap : κ
  recorded : List VAPtrData
  fresh : List VAPtrData
  prepared : List PendingVAPtrSample

/-- The hook after `_record_pending_samples`. -/
def afterRecord (F : IdleFile κ) (s : HookState κ) (answers : PollAnswers κ) : VAPtrHook :=
  let keyNames := if s.hook.keyNames = [] then answers.discoveredKeys else s.hook.keyNames
  if keyNames = [] then s.hook
  else (recordPendingSamples F answers.tsUptimeUs { s.hook with keyNames }
    (answers.accesses s.bitmap)).2.1

/-- The batch of a poll. -/
def batch (F : IdleFile κ) (s : HookState κ) (answers : PollAnswers κ) : Batch κ where
  tsUptimeUs := answers.tsUptimeUs
  tracker := s.hook.pageAccessTracker
  bitmap := answers.accesses s.bitmap
  recorded := (afterRecord F s answers).samples.drop s.hook.samples.length
  fresh := (poll F answers s.hook (answers.accesses s.bitmap)).2.1.samples.drop
    (afterRecord F s answers).samples.length
  prepared := (poll F answers s.hook (answers.accesses s.bitmap)).2.1.pendingSamples

/-- The batches of a run. -/
def batches (F : IdleFile κ) : HookState κ → List (PollAnswers κ) → List (Batch κ)
  | _, [] => []
  | s, answers :: rest => batch F s answers ::
    match pollStep F s answers with
    | none => []
    | some s' => batches F s' rest

/-- **The row of a sample** with the result for a page, from the dictionary of the pages that were
read: its key and address, what is known of the page, and its access bit, which is valid exactly
where the page has a PFN. Without a page there is no result. -/
structure RowOf (tsUptimeUs : ℤ) (idle : Dict ℕ Bool) (sample : PendingVAPtrSample)
    (page : Option ResolvedPhysicalPage) (row : VAPtrData) : Prop where
  tsUptimeUs : row.tsUptimeUs = tsUptimeUs
  key : row.key = sample.key
  address : row.address = sample.address
  pageAddr : row.pageAddr = sample.pageAddr
  available : row.available = sample.available
  mappedPfn : row.mappedPfn = page.bind (·.mappedPfn)
  trackingPfn : row.trackingPfn = page.bind (·.trackingPfn)
  physicalPageAddr : row.physicalPageAddr = page.bind (·.physicalPageAddr)
  trackingPhysicalPageAddr : row.trackingPhysicalPageAddr = page.bind (·.trackingPhysicalPageAddr)
  pageIdle : row.pageIdle = row.trackingPfn.bind idle.get?
  accessBit : row.accessBit = row.pageIdle.map (!·)
  accessBitValid : row.accessBitValid = row.trackingPfn.isSome

/-- A batch records samples: it reads their pages before anything else happens to the tracker, and
its rows are those of the samples, in order, each with the result for its own page. -/
def Records (F : IdleFile κ) (b : Batch κ) (samples : List PendingVAPtrSample) : Prop :=
  ∃ idle k', readMany F b.tracker (resolvedPages samples) b.bitmap =
      (.ok ((resolvedPages samples).map (resultFromResolved idle)), k') ∧
    samples.Forall₂ (fun sample row ↦ RowOf b.tsUptimeUs idle sample sample.resolvedPage row)
      b.recorded

/-- The rows without a result that a batch appends for the samples that it has prepared. -/
def RecordsFresh (b : Batch κ) : Prop :=
  b.prepared.Forall₂ (fun sample row ↦ RowOf b.tsUptimeUs .empty sample none row) b.fresh

/-- The batches record in turn what the batch before has prepared; rows without a result are
appended only where there was nothing to record; and every sample has the page of its own
address. -/
def RecordsInTurn (F : IdleFile κ) : List PendingVAPtrSample → List (Batch κ) → Prop
  | _, [] => True
  | samples, b :: bs => Records F b samples ∧
    (if samples = [] then RecordsFresh b else b.fresh = []) ∧
    (∀ sample ∈ b.prepared, OwnPage sample) ∧ RecordsInTurn F b.prepared bs

section RowOf

variable {tsUptimeUs : ℤ} {sample : PendingVAPtrSample}

omit [Python] in
theorem rowOf_sampleRow_none : RowOf tsUptimeUs .empty sample none
    (sampleRow tsUptimeUs sample none) := by
  constructor <;> rfl

omit [Python] in
/-- The row that is appended with the result for the sample's own page. -/
theorem rowOf_sampleRow {idle : Dict ℕ Bool} (hknown : ∀ page p, sample.resolvedPage = some page →
    page.trackingPfn = some p → p ∈ idle.keys) :
    RowOf tsUptimeUs idle sample sample.resolvedPage
      (sampleRow tsUptimeUs sample (sample.resolvedPage.map (resultFromResolved idle))) := by
  rcases hpage : sample.resolvedPage with - | page
  · constructor <;> rfl
  · rcases hpfn : page.trackingPfn with - | p
    · constructor <;> simp [sampleRow, resultFromResolved, hpfn]
    · have hkey : p ∈ idle.keys := hknown page p hpage hpfn
      constructor <;> simp [sampleRow, resultFromResolved, hpfn, hkey]

omit [Python] in
/-- The rows of samples, where the dictionary holds the PFNs of their pages. -/
theorem forall₂_resultRows {idle : Dict ℕ Bool} {samples : List PendingVAPtrSample}
    (hknown : ∀ p ∈ trackingPfns (resolvedPages samples), p ∈ idle.keys) :
    samples.Forall₂ (fun sample row ↦ RowOf tsUptimeUs idle sample sample.resolvedPage row)
      (resultRows tsUptimeUs idle samples) := by
  rw [resultRows, List.forall₂_map_right_iff, List.forall₂_same]
  intro sample hsample
  refine rowOf_sampleRow fun page p hpage hp ↦ hknown p ?_
  exact mem_trackingPfns.2 ⟨page, List.mem_filterMap.2 ⟨sample, hsample, hpage⟩, hp⟩

end RowOf

/-- Pending samples come from keys, and their pages are armed. -/
structure PendingArmed (hook : VAPtrHook) : Prop where
  keyNames : hook.keyNames = [] → hook.pendingSamples = []
  armed : ∀ p ∈ trackingPfns (resolvedPages hook.pendingSamples),
    p ∈ hook.pageAccessTracker.armedPfns

/-- What a poll has done: it read the pages of the pending samples, all of whose PFNs were armed,
and appended their rows, then rows without a result where there were none; and it leaves samples
with their own pages, which are armed. -/
structure Polled (F : IdleFile κ) (s : HookState κ) (answers : PollAnswers κ) (hook' : VAPtrHook)
    (idle : Dict ℕ Bool) (k₁ : κ) : Prop where
  read : readMany F s.hook.pageAccessTracker (resolvedPages s.hook.pendingSamples)
    (answers.accesses s.bitmap) =
      (.ok ((resolvedPages s.hook.pendingSamples).map (resultFromResolved idle)), k₁)
  known : ∀ p ∈ trackingPfns (resolvedPages s.hook.pendingSamples), p ∈ idle.keys
  recorded : (afterRecord F s answers).samples =
    s.hook.samples ++ resultRows answers.tsUptimeUs idle s.hook.pendingSamples
  fresh : hook'.samples = (afterRecord F s answers).samples ++ if s.hook.pendingSamples = []
    then hook'.pendingSamples.map fun sample ↦ sampleRow answers.tsUptimeUs sample none
    else []
  ownPage : ∀ sample ∈ hook'.pendingSamples, OwnPage sample
  armed : PendingArmed hook'

omit [Python] in
/-- A poll that has no keys has nothing to record and leaves nothing. -/
theorem Polled.of_no_keys {s : HookState κ} {answers : PollAnswers κ} (hs : PendingArmed s.hook)
    (hnone : (if s.hook.keyNames = [] then answers.discoveredKeys else s.hook.keyNames) = [])
    {hook' : VAPtrHook} (hsamples : hook'.samples = s.hook.samples)
    (hpending' : hook'.pendingSamples = s.hook.pendingSamples) :
    Polled F s answers hook' Dict.empty (answers.accesses s.bitmap) := by
  have hpending : s.hook.pendingSamples = [] := by
    refine hs.keyNames ?_
    split_ifs at hnone with hnil
    · exact hnil
    · exact hnone
  have hafter : (afterRecord F s answers).samples = s.hook.samples := by
    rw [afterRecord, if_pos hnone]
  rw [hpending] at hpending'
  constructor
  · rw [hpending]
    rfl
  · rw [hpending]
    exact fun p hp ↦ absurd hp List.not_mem_nil
  · rw [hafter, hpending]
    exact (List.append_nil _).symm
  · rw [hafter, hsamples, hpending, if_pos rfl, hpending']
    exact (List.append_nil _).symm
  · rw [hpending']
    exact fun sample hsample ↦ absurd hsample List.not_mem_nil
  · refine ⟨fun _ ↦ hpending', ?_⟩
    rw [hpending']
    exact fun p hp ↦ absurd hp List.not_mem_nil

/-- **What `poll` does**, unless `read_many` or `arm_many` raises. -/
theorem poll_spec {s : HookState κ} {answers : PollAnswers κ} {hook' : VAPtrHook} {k' : κ}
    {ended : PollEnd} (hs : PendingArmed s.hook)
    (h : poll F answers s.hook (answers.accesses s.bitmap) = (ended, hook', k')) :
    (∃ e, ended = .readRaised e ∨ ended = .armRaised e) ∨
      ∃ idle k₁, Polled F s answers hook' idle k₁ := by
  rw [poll] at h
  generalize hkeys : (if s.hook.keyNames = [] then answers.discoveredKeys
    else s.hook.keyNames) = keyNames at h
  simp only at h
  split at h
  · rename_i hnone
    obtain ⟨rfl, rfl, rfl⟩ : PollEnd.returned = ended ∧ _ = hook' ∧ _ = k' := by
      simpa only [Prod.mk.injEq] using h
    exact Or.inr ⟨_, _, .of_no_keys hs (hkeys.trans hnone) rfl rfl⟩
  · rename_i hsome
    rcases hrecord : recordPendingSamples F answers.tsUptimeUs { s.hook with keyNames }
      (answers.accesses s.bitmap) with ⟨ended₁, hook₁, k₁⟩
    rw [hrecord] at h
    have hafter : afterRecord F s answers = hook₁ := by
      rw [afterRecord, hkeys, if_neg hsome, hrecord]
    rcases recordPendingSamples_spec hrecord with ⟨e, rfl⟩ | ⟨rfl, idle, hread, hidle, hhook₁⟩
    · exact Or.inl ⟨e, Or.inl (Prod.mk.inj h).1.symm⟩
    · have hnil : hook₁.pendingSamples = [] := by rw [hhook₁]
      have hrefreshed : (∃ e, ended = .armRaised e) ∨ Refreshed
          (decide (s.hook.pendingSamples.length ≠ 0)) answers.tsUptimeUs hook₁ hook' := by
        rcases hvaptr : answers.vaptr with - | result
        · simp only [hvaptr] at h
          obtain ⟨rfl, rfl, rfl⟩ : PollEnd.returned = ended ∧ hook₁ = hook' ∧ k₁ = k' := by
            simpa only [Prod.mk.injEq] using h
          exact Or.inr (.of_nil rfl hnil rfl)
        · simp only [hvaptr] at h
          exact refreshSamples_spec hnil h
      refine hrefreshed.imp (fun ⟨e, he⟩ ↦ ⟨e, Or.inr he⟩) fun hnew ↦ ⟨idle, k₁, hread,
        fun p hp ↦ (hidle p hp).2 (hs.armed p hp), ?_, ?_, hnew.ownPage,
        ⟨fun hkeys' ↦ ?_, hnew.armed⟩⟩
      · rw [hafter, hhook₁]
      · rw [hafter, hnew.samples]
        rcases hpending : s.hook.pendingSamples with - | ⟨sample, rest⟩
        · simp
        · simp
      · rw [hnew.keyNames, hhook₁] at hkeys'
        exact absurd hkeys' hsome

/-- **What one poll does**: it records what was pending, and leaves what it has prepared. -/
theorem pollStep_spec {s s' : HookState κ} {answers : PollAnswers κ}
    (hs : PendingArmed s.hook) (h : pollStep F s answers = some s') :
    Records F (batch F s answers) s.hook.pendingSamples ∧
    (if s.hook.pendingSamples = [] then RecordsFresh (batch F s answers)
      else (batch F s answers).fresh = []) ∧
    s'.hook.samples = s.hook.samples ++ (batch F s answers).recorded ++ (batch F s answers).fresh ∧
    s'.hook.pendingSamples = (batch F s answers).prepared ∧
    (∀ sample ∈ (batch F s answers).prepared, OwnPage sample) ∧ PendingArmed s'.hook := by
  rcases hpoll : poll F answers s.hook (answers.accesses s.bitmap) with ⟨ended, hook', k'⟩
  rw [pollStep, hpoll] at h
  rcases poll_spec hs hpoll with ⟨e, rfl | rfl⟩ | ⟨idle, k₁, hpolled⟩
  · exact absurd h (by simp)
  · exact absurd h (by simp)
  · have hs' : s' = ⟨hook', k'⟩ := by
      split at h
      · exact absurd h (by simp)
      · exact absurd h (by simp)
      · rename_i heq
        obtain ⟨-, rfl, rfl⟩ : _ ∧ hook' = _ ∧ k' = _ := by simpa only [Prod.mk.injEq] using heq
        exact (Option.some.inj h).symm
    have hprepared : (batch F s answers).prepared = hook'.pendingSamples := by
      rw [batch, hpoll]
    have hrows : (batch F s answers).recorded =
        resultRows answers.tsUptimeUs idle s.hook.pendingSamples := by
      rw [batch, hpolled.recorded]
      exact List.drop_left
    have hnew : (batch F s answers).fresh = if s.hook.pendingSamples = []
        then hook'.pendingSamples.map fun sample ↦ sampleRow answers.tsUptimeUs sample none
        else [] := by
      rw [batch, hpoll, hpolled.fresh]
      exact List.drop_left
    refine ⟨⟨idle, k₁, hpolled.read, ?_⟩, ?_, ?_, ?_, ?_, ?_⟩
    · rw [hrows]
      exact forall₂_resultRows hpolled.known
    · split_ifs with hnil
      · rw [RecordsFresh, hnew, if_pos hnil, hprepared, List.forall₂_map_right_iff,
          List.forall₂_same]
        exact fun sample _ ↦ rowOf_sampleRow_none
      · exact hnew.trans (if_neg hnil)
    · rw [hs', hrows, hnew, ← hpolled.recorded]
      exact hpolled.fresh
    · rw [hs', hprepared]
    · rw [hprepared]
      exact hpolled.ownPage
    · rw [hs']
      exact hpolled.armed

/-- A run from any state whose pending samples are armed. -/
theorem recordsInTurn_exec {s t : HookState κ} {run : List (PollAnswers κ)}
    (hs : PendingArmed s.hook) (h : Run.exec (pollStep F) s run = some t) :
    t.hook.samples = s.hook.samples ++
        (batches F s run).flatMap (fun b ↦ b.recorded ++ b.fresh) ∧
      t.hook.pendingSamples = ((batches F s run).getLast?.map Batch.prepared).getD
        s.hook.pendingSamples ∧
      RecordsInTurn F s.hook.pendingSamples (batches F s run) := by
  induction run generalizing s with
  | nil =>
    obtain rfl := Option.some.inj h
    exact ⟨(List.append_nil _).symm, rfl, trivial⟩
  | cons answers run ih =>
    obtain ⟨s', hstep, hrun⟩ := Run.exec_cons.1 h
    obtain ⟨hrecords, hfresh, hsamples, hpending, hown, harmed⟩ := pollStep_spec hs hstep
    obtain ⟨hsamples', hpending', hturn⟩ := ih harmed hrun
    have hbatches : batches F s (answers :: run) = batch F s answers :: batches F s' run := by
      rw [batches, hstep]
    rw [hbatches]
    refine ⟨?_, ?_, hrecords, hfresh, hown, hpending ▸ hturn⟩
    · rw [hsamples', hsamples, List.flatMap_cons, List.append_assoc, List.append_assoc,
        List.append_assoc]
    · rw [hpending', List.getLast?_cons, Option.map_some, Option.getD_some]
      rcases (batches F s' run).getLast? with - | b
      · exact hpending
      · rfl

omit [Python] in
/-- **A row with a PFN is valid**, whichever poll appended it. -/
theorem RecordsInTurn.valid {samples : List PendingVAPtrSample} {bs : List (Batch κ)}
    (h : RecordsInTurn F samples bs) {row : VAPtrData}
    (hrow : row ∈ bs.flatMap fun b ↦ b.recorded ++ b.fresh) :
    row.accessBitValid = row.trackingPfn.isSome := by
  induction bs generalizing samples with
  | nil => exact absurd hrow List.not_mem_nil
  | cons b bs ih =>
    obtain ⟨⟨idle, k', -, hrecorded⟩, hfresh, -, hturn⟩ := h
    rw [List.flatMap_cons, List.mem_append, List.mem_append] at hrow
    rcases hrow with (hrow | hrow) | hrow
    · obtain ⟨sample, -, hof⟩ := Lists.exists_of_mem_of_forall₂ hrecorded.flip hrow
      exact hof.accessBitValid
    · split_ifs at hfresh
      · obtain ⟨sample, -, hof⟩ := Lists.exists_of_mem_of_forall₂ hfresh.flip hrow
        exact hof.accessBitValid
      · rw [hfresh] at hrow
        exact absurd hrow List.not_mem_nil
    · exact ih hturn hrow

/-- **Prepared samples are recorded once, by the next poll, in order and with their own pages.** In
every run of polls of a new hook, the rows are those of the batches of its polls; each batch records
what the batch before has prepared, and only the samples of the last one are still pending; and
every row with a PFN is valid. -/
theorem recorded_once (F : IdleFile κ) (keyNames : List PyStr) (tracker : PageAccessTracker)
    (bitmap : κ) {run : List (PollAnswers κ)} {t : HookState κ}
    (h : Run.exec (pollStep F) ⟨.new keyNames tracker, bitmap⟩ run = some t) :
    t.hook.samples = (batches F ⟨.new keyNames tracker, bitmap⟩ run).flatMap
        (fun b ↦ b.recorded ++ b.fresh) ∧
      t.hook.pendingSamples = ((batches F ⟨.new keyNames tracker, bitmap⟩
        run).getLast?.map Batch.prepared).getD [] ∧
      RecordsInTurn F [] (batches F ⟨.new keyNames tracker, bitmap⟩ run) ∧
      ∀ row ∈ t.hook.samples, row.trackingPfn.isSome = true → row.accessBitValid = true := by
  have hnew : PendingArmed (VAPtrHook.new keyNames tracker) :=
    ⟨fun _ ↦ rfl, fun _ hp ↦ absurd hp List.not_mem_nil⟩
  obtain ⟨hsamples, hpending, hturn⟩ := recordsInTurn_exec hnew h
  refine ⟨hsamples, hpending, hturn, fun row hrow hpfn ↦ ?_⟩
  rw [hsamples] at hrow
  rw [hturn.valid hrow, hpfn]

end Poll

/-- The text `user1`. -/
def user1 : PyStr := ['u', 's', 'e', 'r', '1']

/-- A system where every address of process 321 is mapped to page 11. -/
def mappedFiles : ProcFiles where
  isDir pid := pid = 321
  pagemap _ _ := .ok (some (pagePresentBit + 11))
  kpageflags _ := .ok (some 0)

/-- The answers during a poll that finds the value of `user1` at an address, where page 11 is
accessed before it. -/
def user1Answers (address : PyStr) : PollAnswers (ℕ → Bool) where
  accesses bits p := bits p && decide (p ≠ 11)
  discoveredKeys := []
  tsUptimeUs := 0
  vaptr := some ⟨user1 ++ ['\n'] ++ address ++ ['\n'], [], 0⟩
  first := (⟨fun _ ↦ true, some 321⟩, mappedFiles)
  second := (⟨fun _ ↦ true, some 321⟩, mappedFiles)

/-- The value moves between two polls. -/
def user1Polls : List (PollAnswers (ℕ → Bool)) :=
  [user1Answers ['0', 'x', '1', '0', '0', '8'], user1Answers ['0', 'x', '2', '0', '0', '8']]

omit [Python] in
/-- The second poll records the first address, with its page accessed. -/
theorem recorded_once_user1 : ∃ t : HookState (ℕ → Bool),
    letI := Python.ascii
    Run.exec (pollStep (kernelFile fun _ ↦ true)) ⟨.new [user1] ⟨4096, ∅⟩, fun _ ↦ false⟩
      user1Polls = some t ∧
    t.hook.samples =
      [⟨0, user1, ['0', 'x', '1', '0', '0', '8'], ['0', 'x', '1', '0', '0', '0'], true,
          none, none, none, none, none, none, false⟩,
        ⟨0, user1, ['0', 'x', '1', '0', '0', '8'], ['0', 'x', '1', '0', '0', '0'], true,
          some 11, some 11, some 45056, some 45056, some false, some true, true⟩] ∧
    RecordsInTurn (kernelFile fun _ ↦ true) []
      (batches (kernelFile fun _ ↦ true) ⟨.new [user1] ⟨4096, ∅⟩, fun _ ↦ false⟩ user1Polls) := by
  let _ := Python.ascii
  have hrows : (Run.exec (pollStep (kernelFile fun _ ↦ true))
      ⟨.new [user1] ⟨4096, ∅⟩, fun _ ↦ false⟩ user1Polls).map (fun t ↦ t.hook.samples) =
      some [⟨0, user1, ['0', 'x', '1', '0', '0', '8'], ['0', 'x', '1', '0', '0', '0'], true,
          none, none, none, none, none, none, false⟩,
        ⟨0, user1, ['0', 'x', '1', '0', '0', '8'], ['0', 'x', '1', '0', '0', '0'], true,
          some 11, some 11, some 45056, some 45056, some false, some true, true⟩] := by
    decide +kernel
  obtain ⟨t, ht, hrows⟩ := Option.map_eq_some_iff.1 hrows
  exact ⟨t, ht, hrows, (recorded_once _ _ _ _ ht).2.2.1⟩

end Pages
