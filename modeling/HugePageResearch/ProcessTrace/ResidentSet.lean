import HugePageResearch.Library.Fill
import HugePageResearch.Library.Sorts
import HugePageResearch.Thp.CollapsePairs

/-!
# The resident set of a process over time

`clean_rss_pid` of `analysis/bloat.py`. An event of the trace gives the count of one member of the
resident set; a column of each of three members is filled forward and then backward, a row of zeros
before all others fills the columns of members that never occur, and the sum of the three is the
count of the row.

## The result

`cleanRssPid_timeline`: one row for each event of the process, in the order of time, with the sum of
the last observations of the three members. Nothing else in the trace has a part in it
(`Timeline.count_eq`).
-/

namespace ProcessTrace

open Sorts Fill Thp.Collapse

/-! ### The table -/

/-- The columns of the trace that are kept. -/
structure RssEvent where
  tgid : ℤ
  tsNs : ℤ
  member : PyStr
  count : ℤ
  deriving DecidableEq

/-- A row of the trace. -/
structure RssRow extends RssEvent where
  pid : ℤ
  collectionId : PyStr

/-- A row with a column for each member. -/
structure FilledRow where
  tgid : ℤ
  tsNs : ℤ
  file : Option ℤ
  anon : Option ℤ
  swap : Option ℤ

/-- A row of the result. -/
structure RssCount where
  tgid : ℤ
  tsNs : ℤ
  count : Option ℤ
  deriving DecidableEq

/-- The two sorts by `ts_ns`. -/
structure RssSorts where
  events : SortBy RssEvent.tsNs
  rows : SortBy FilledRow.tsNs

/-- The rows of a frame with these columns. -/
def FilledRow.ofColumns (tgid tsNs : List ℤ) (file anon swap : List (Option ℤ)) :
    List FilledRow :=
  (tgid.zip (tsNs.zip (file.zip (anon.zip swap)))).map fun p ↦
    ⟨p.1, p.2.1, p.2.2.1, p.2.2.2.1, p.2.2.2.2⟩

/-- The count of an event of the member. -/
def memberCount (member : PyStr) (e : RssEvent) : Option ℤ :=
  if e.member = member then some e.count else none

/-- The column of a member. -/
def memberColumn (member : PyStr) (df : List RssEvent) : List (Option ℤ) :=
  backward (forward (df.map (memberCount member)))

/-- The frame with the columns of the members. -/
def withMembers (df : List RssEvent) : List FilledRow :=
  FilledRow.ofColumns (df.map RssEvent.tgid) (df.map RssEvent.tsNs)
    (memberColumn "MM_FILEPAGES".toList df) (memberColumn "MM_ANONPAGES".toList df)
    (memberColumn "MM_SWAPENTS".toList df)

/-- `zero_df`. -/
def zeroRow (pid : ℤ) : FilledRow := ⟨pid, -1, some 0, some 0, some 0⟩

/-- `df.fill_null(strategy="forward")`. -/
def fillNull (df : List FilledRow) : List FilledRow :=
  FilledRow.ofColumns (df.map FilledRow.tgid) (df.map FilledRow.tsNs)
    (forward (df.map FilledRow.file)) (forward (df.map FilledRow.anon))
    (forward (df.map FilledRow.swap))

/-- The sum of the three columns. -/
def FilledRow.total (r : FilledRow) : RssCount where
  tgid := r.tgid
  tsNs := r.tsNs
  count := r.file.bind fun file ↦ r.anon.bind fun anon ↦ r.swap.map fun swap ↦ file + anon + swap

/-- `clean_rss_pid`. -/
def cleanRssPid (S : RssSorts) (rssDf : List RssRow) (pid : ℤ) : List RssCount :=
  let df := (S.events.sort (rssDf.map RssRow.toRssEvent)).filter fun e ↦ e.tgid = pid
  let df := S.rows.sort (withMembers df ++ [zeroRow pid])
  ((fillNull df).filter fun r ↦ r.tsNs ≥ 0).map FilledRow.total

/-! ### The resident set over time -/

/-- The events of a process. -/
def eventsOf (rssDf : List RssRow) (pid : ℤ) : List RssRow := rssDf.filter fun r ↦ r.tgid = pid

/-- The times of a process's events are different, and none is negative. -/
structure WellTimed (rssDf : List RssRow) (pid : ℤ) : Prop where
  distinct : ((eventsOf rssDf pid).map fun r ↦ r.tsNs).Nodup
  nonneg : ∀ r ∈ eventsOf rssDf pid, 0 ≤ r.tsNs

/-- What a row of the trace observes of a member of the process. -/
def observed (pid : ℤ) (member : PyStr) (r : RssRow) : Option ℤ :=
  if r.tgid = pid ∧ r.member = member then some r.count else none

/-- The last observation of a member, before the first one the earliest later, 0 where there is
none. -/
def MemberValue (rssDf : List RssRow) (pid : ℤ) (member : PyStr) (t n : ℤ) : Prop :=
  ∃ v, LastObservation (fun r : RssRow ↦ r.tsNs) (observed pid member) rssDf t v ∧ n = v.getD 0

/-- **The resident set over time.** -/
structure Timeline (rssDf : List RssRow) (pid : ℤ) (rows : List RssCount) : Prop where
  tgid : ∀ r ∈ rows, r.tgid = pid
  increasing : rows.Pairwise fun r s ↦ r.tsNs < s.tsNs
  events : (rows.map RssCount.tsNs).Perm ((eventsOf rssDf pid).map fun r ↦ r.tsNs)
  count : ∀ r ∈ rows, ∃ file anon swap, r.count = some (file + anon + swap) ∧
    MemberValue rssDf pid "MM_FILEPAGES".toList r.tsNs file ∧
    MemberValue rssDf pid "MM_ANONPAGES".toList r.tsNs anon ∧
    MemberValue rssDf pid "MM_SWAPENTS".toList r.tsNs swap

/-- Two traces have the same events of the three members of the process. -/
def SameMembers (rssDf rssDf' : List RssRow) (pid : ℤ) : Prop :=
  ∀ member ∈ ["MM_FILEPAGES".toList, "MM_ANONPAGES".toList, "MM_SWAPENTS".toList], ∀ t n,
    (∃ r ∈ rssDf, r.tsNs = t ∧ observed pid member r = some n) ↔
      ∃ r ∈ rssDf', r.tsNs = t ∧ observed pid member r = some n

/-! ### Rows and columns -/

section Columns

variable {S : RssSorts} {pid : ℤ} {df : List RssEvent} {rows : List FilledRow} {r : FilledRow}
  {i : ℕ}

/-- **The rows of a frame**, by its columns. -/
theorem getElem?_ofColumns {tgid tsNs : List ℤ} {file anon swap : List (Option ℤ)} :
    (FilledRow.ofColumns tgid tsNs file anon swap)[i]? = some r ↔ tgid[i]? = some r.tgid ∧
      tsNs[i]? = some r.tsNs ∧ file[i]? = some r.file ∧ anon[i]? = some r.anon ∧
        swap[i]? = some r.swap := by
  rw [FilledRow.ofColumns, List.getElem?_map, Option.map_eq_some_iff]
  constructor
  · rintro ⟨p, hp, rfl⟩
    simpa only [List.getElem?_zip_eq_some] using hp
  · intro h
    refine ⟨(r.tgid, r.tsNs, r.file, r.anon, r.swap), ?_, rfl⟩
    simpa only [List.getElem?_zip_eq_some] using h

/-- The columns of rows make the rows again. -/
theorem ofColumns_map (f : FilledRow → FilledRow) (rows : List FilledRow) :
    FilledRow.ofColumns (rows.map fun r ↦ (f r).tgid) (rows.map fun r ↦ (f r).tsNs)
      (rows.map fun r ↦ (f r).file) (rows.map fun r ↦ (f r).anon)
      (rows.map fun r ↦ (f r).swap) = rows.map f := by
  induction rows with
  | nil => rfl
  | cons r rows ih => exact congrArg (f r :: ·) ih

/-- **What the row of an event holds.** -/
theorem getElem?_withMembers : (withMembers df)[i]? = some r ↔
    ∃ e, df[i]? = some e ∧ r.tgid = e.tgid ∧ r.tsNs = e.tsNs ∧
      (memberColumn "MM_FILEPAGES".toList df)[i]? = some r.file ∧
      (memberColumn "MM_ANONPAGES".toList df)[i]? = some r.anon ∧
      (memberColumn "MM_SWAPENTS".toList df)[i]? = some r.swap := by
  rw [withMembers, getElem?_ofColumns, List.getElem?_map, List.getElem?_map]
  rcases df[i]? with - | e
  · exact ⟨fun h ↦ absurd h.1 (Option.some_ne_none _).symm,
      fun ⟨_, h, _⟩ ↦ absurd h (Option.some_ne_none _).symm⟩
  · constructor
    · rintro ⟨htgid, htsNs, hcolumns⟩
      exact ⟨e, rfl, (Option.some.inj htgid).symm, (Option.some.inj htsNs).symm, hcolumns⟩
    · rintro ⟨e', he, htgid, htsNs, hcolumns⟩
      obtain rfl := Option.some.inj he
      exact ⟨congrArg some htgid.symm, congrArg some htsNs.symm, hcolumns⟩

@[simp] theorem length_memberColumn (member : PyStr) (df : List RssEvent) :
    (memberColumn member df).length = df.length := by
  rw [memberColumn, length_backward, length_forward, List.length_map]

/-- The columns of a frame, read back from its rows. -/
theorem map_ofColumns {tgid tsNs : List ℤ} {file anon swap : List (Option ℤ)} {n : ℕ}
    (htgid : tgid.length = n) (htsNs : tsNs.length = n) (hfile : file.length = n)
    (hanon : anon.length = n) (hswap : swap.length = n) :
    let rows := FilledRow.ofColumns tgid tsNs file anon swap
    rows.map FilledRow.tsNs = tsNs ∧ rows.map FilledRow.file = file ∧
      rows.map FilledRow.anon = anon ∧ rows.map FilledRow.swap = swap := by
  induction n generalizing tgid tsNs file anon swap with
  | zero =>
    rw [List.length_eq_zero_iff] at htgid htsNs hfile hanon hswap
    subst htgid htsNs hfile hanon hswap
    exact ⟨rfl, rfl, rfl, rfl⟩
  | succ n ih =>
    obtain ⟨a, tgid, rfl⟩ := List.exists_cons_of_length_eq_add_one htgid
    obtain ⟨t, tsNs, rfl⟩ := List.exists_cons_of_length_eq_add_one htsNs
    obtain ⟨x, file, rfl⟩ := List.exists_cons_of_length_eq_add_one hfile
    obtain ⟨y, anon, rfl⟩ := List.exists_cons_of_length_eq_add_one hanon
    obtain ⟨z, swap, rfl⟩ := List.exists_cons_of_length_eq_add_one hswap
    obtain ⟨hts, hf, ha, hs⟩ := ih (Nat.succ.inj htgid) (Nat.succ.inj htsNs) (Nat.succ.inj hfile)
      (Nat.succ.inj hanon) (Nat.succ.inj hswap)
    exact ⟨congrArg (t :: ·) hts, congrArg (x :: ·) hf, congrArg (y :: ·) ha, congrArg (z :: ·) hs⟩

theorem map_withMembers (df : List RssEvent) :
    (withMembers df).map FilledRow.tsNs = df.map RssEvent.tsNs ∧
      (withMembers df).map FilledRow.file = memberColumn "MM_FILEPAGES".toList df ∧
      (withMembers df).map FilledRow.anon = memberColumn "MM_ANONPAGES".toList df ∧
      (withMembers df).map FilledRow.swap = memberColumn "MM_SWAPENTS".toList df :=
  map_ofColumns (List.length_map _) (List.length_map _) (length_memberColumn _ _)
    (length_memberColumn _ _) (length_memberColumn _ _)

/-! ### The row of zeros -/

/-- A row whose gaps are filled with zeros. -/
def FilledRow.fillZero (r : FilledRow) : FilledRow where
  tgid := r.tgid
  tsNs := r.tsNs
  file := some (r.file.getD 0)
  anon := some (r.anon.getD 0)
  swap := some (r.swap.getD 0)

/-- **Below the row of zeros**, a column without values is filled with zeros. -/
theorem fillNull_zeroRow (pid : ℤ) (df : List RssEvent) :
    fillNull (zeroRow pid :: withMembers df) =
      zeroRow pid :: (withMembers df).map FilledRow.fillZero := by
  obtain ⟨-, hfile, hanon, hswap⟩ := map_withMembers df
  have hcolumn : ∀ (g : FilledRow → Option ℤ) (member : PyStr),
      (withMembers df).map g = memberColumn member df →
      forwardFrom (some 0) ((withMembers df).map g) =
        (withMembers df).map fun r ↦ some ((g r).getD 0) := by
    intro g member h
    rw [h, memberColumn, forwardFrom_backward_forward, ← memberColumn, ← h, List.map_map]
    rfl
  have hrows := ofColumns_map FilledRow.fillZero (withMembers df)
  rw [show (withMembers df).map (fun r ↦ r.fillZero.file) = _ from (hcolumn _ _ hfile).symm,
    show (withMembers df).map (fun r ↦ r.fillZero.anon) = _ from (hcolumn _ _ hanon).symm,
    show (withMembers df).map (fun r ↦ r.fillZero.swap) = _ from (hcolumn _ _ hswap).symm] at hrows
  rw [← hrows]
  rfl

end Columns

/-! ### The result -/

section Result

variable {S S' : RssSorts} {rssDf rssDf' : List RssRow} {pid : ℤ}

/-- The events of the process, sorted. -/
def sortedEvents (S : RssSorts) (rssDf : List RssRow) (pid : ℤ) : List RssEvent :=
  (S.events.sort (rssDf.map RssRow.toRssEvent)).filter fun e ↦ e.tgid = pid

theorem perm_sortedEvents (S : RssSorts) (rssDf : List RssRow) (pid : ℤ) :
    (sortedEvents S rssDf pid).Perm ((eventsOf rssDf pid).map RssRow.toRssEvent) := by
  have hperm := (S.events.perm (rssDf.map RssRow.toRssEvent)).filter fun e ↦ e.tgid = pid
  rw [List.filter_map] at hperm
  exact hperm

theorem mem_sortedEvents {e : RssEvent} :
    e ∈ sortedEvents S rssDf pid ↔ ∃ r ∈ rssDf, r.tgid = pid ∧ r.toRssEvent = e := by
  rw [(perm_sortedEvents S rssDf pid).mem_iff, List.mem_map]
  constructor
  · rintro ⟨r, hr, rfl⟩
    obtain ⟨hr, hpid⟩ := List.mem_filter.1 hr
    exact ⟨r, hr, of_decide_eq_true hpid, rfl⟩
  · rintro ⟨r, hr, hpid, rfl⟩
    exact ⟨r, List.mem_filter.2 ⟨hr, decide_eq_true hpid⟩, rfl⟩

/-- The sorted events come one after the other. -/
theorem WellTimed.pairwise_sortedEvents (h : WellTimed rssDf pid) (S : RssSorts) :
    (sortedEvents S rssDf pid).Pairwise fun a b ↦ a.tsNs < b.tsNs := by
  have hle : (sortedEvents S rssDf pid).Pairwise fun a b ↦ a.tsNs ≤ b.tsNs :=
    (S.events.sorted _).sublist List.filter_sublist
  have hnd : ((sortedEvents S rssDf pid).map RssEvent.tsNs).Nodup := by
    rw [((perm_sortedEvents S rssDf pid).map _).nodup_iff, List.map_map]
    exact h.distinct
  exact (hle.and (List.pairwise_map.1 hnd)).imp fun ⟨hle, hne⟩ ↦ lt_of_le_of_ne hle hne

/-- **The table in one step**: the rows of the events, with gaps filled with zeros. -/
theorem WellTimed.cleanRssPid_eq (h : WellTimed rssDf pid) (S : RssSorts) :
    cleanRssPid S rssDf pid = (withMembers (sortedEvents S rssDf pid)).map fun r ↦
      r.fillZero.total := by
  have htimes := (map_withMembers (sortedEvents S rssDf pid)).1
  have hnonneg : ∀ r ∈ withMembers (sortedEvents S rssDf pid), 0 ≤ r.tsNs := by
    intro r hr
    have hmem : r.tsNs ∈ (sortedEvents S rssDf pid).map RssEvent.tsNs :=
      htimes ▸ List.mem_map_of_mem hr
    obtain ⟨e, he, htime⟩ := List.mem_map.1 hmem
    obtain ⟨r', hr', hpid, rfl⟩ := mem_sortedEvents.1 he
    rw [← htime]
    exact h.nonneg r' (List.mem_filter.2 ⟨hr', decide_eq_true hpid⟩)
  have hsorted : (zeroRow pid :: withMembers (sortedEvents S rssDf pid)).Pairwise
      fun a b ↦ a.tsNs < b.tsNs := by
    refine List.pairwise_cons.2 ⟨fun r hr ↦ ?_, ?_⟩
    · exact lt_of_lt_of_le (show (-1 : ℤ) < 0 by decide) (hnonneg r hr)
    · rw [← List.pairwise_map (f := FilledRow.tsNs) (R := (· < ·)), htimes, List.pairwise_map]
      exact h.pairwise_sortedEvents S
  have hsort : S.rows.sort (withMembers (sortedEvents S rssDf pid) ++ [zeroRow pid]) =
      zeroRow pid :: withMembers (sortedEvents S rssDf pid) :=
    sort_eq_of_perm S.rows List.perm_append_comm hsorted
  have hkept : ∀ r ∈ (withMembers (sortedEvents S rssDf pid)).map FilledRow.fillZero,
      decide (r.tsNs ≥ 0) = true := by
    intro r hr
    obtain ⟨r', hr', rfl⟩ := List.mem_map.1 hr
    exact decide_eq_true (hnonneg r' hr')
  have hzero : ¬ decide ((zeroRow pid).tsNs ≥ 0) = true := by
    show ¬ decide ((-1 : ℤ) ≥ 0) = true
    decide
  rw [cleanRssPid]
  show ((fillNull (S.rows.sort (withMembers (sortedEvents S rssDf pid) ++ [zeroRow pid]))).filter
    fun r ↦ r.tsNs ≥ 0).map FilledRow.total = _
  rw [hsort, fillNull_zeroRow, List.filter_cons, if_neg hzero, List.filter_eq_self.2 hkept,
    List.map_map]
  rfl

/-- What is filled in for a member is its last observation in the whole trace. -/
theorem WellTimed.memberValue (h : WellTimed rssDf pid) {member : PyStr} {i : ℕ} {e : RssEvent}
    (he : (sortedEvents S rssDf pid)[i]? = some e) {v : Option ℤ}
    (hv : (memberColumn member (sortedEvents S rssDf pid))[i]? = some v) :
    MemberValue rssDf pid member e.tsNs (v.getD 0) := by
  refine ⟨v, (lastObservation_fill (h.pairwise_sortedEvents S) he hv).congr fun t n ↦ ?_, rfl⟩
  constructor
  · rintro ⟨e, he, rfl, hcount⟩
    obtain ⟨r, hr, hpid, rfl⟩ := mem_sortedEvents.1 he
    rw [memberCount] at hcount
    split_ifs at hcount with hmember
    exact ⟨r, hr, rfl, by rw [observed, if_pos ⟨hpid, hmember⟩, hcount]⟩
  · rintro ⟨r, hr, rfl, hcount⟩
    rw [observed] at hcount
    split_ifs at hcount with hmember
    exact ⟨r.toRssEvent, mem_sortedEvents.2 ⟨r, hr, hmember.1, rfl⟩, rfl,
      by rw [memberCount, if_pos hmember.2, hcount]⟩

/-- A member has one value at a time. -/
theorem WellTimed.memberValue_unique (h : WellTimed rssDf pid) {member : PyStr} {t n n' : ℤ}
    (hn : MemberValue rssDf pid member t n) (hn' : MemberValue rssDf pid member t n') : n = n' := by
  obtain ⟨v, hv, rfl⟩ := hn
  obtain ⟨v', hv', rfl⟩ := hn'
  have hmem : ∀ r ∈ rssDf, (observed pid member r).isSome = true → r ∈ eventsOf rssDf pid := by
    intro r hr hsome
    rw [observed] at hsome
    split_ifs at hsome with hmember
    · exact List.mem_filter.2 ⟨hr, decide_eq_true hmember.1⟩
    · cases hsome
  rw [hv.unique hv' fun r hr r' hr' hsome hsome' htime ↦ ?_]
  rw [List.inj_on_of_nodup_map h.distinct (hmem r hr hsome) (hmem r' hr' hsome') htime]

/-- **The resident set of a process over time** is that of its last observations. -/
theorem WellTimed.timeline (h : WellTimed rssDf pid) (S : RssSorts) :
    Timeline rssDf pid (cleanRssPid S rssDf pid) := by
  have htimes : (cleanRssPid S rssDf pid).map RssCount.tsNs =
      (sortedEvents S rssDf pid).map RssEvent.tsNs := by
    rw [h.cleanRssPid_eq, List.map_map]
    exact (map_withMembers (sortedEvents S rssDf pid)).1
  -- the row of zeros before all others is dropped, and each row left is that of its event
  have hrow : ∀ r ∈ cleanRssPid S rssDf pid, ∃ (i : ℕ) (e : RssEvent) (row : FilledRow),
      (sortedEvents S rssDf pid)[i]? = some e ∧
      (withMembers (sortedEvents S rssDf pid))[i]? = some row ∧ r = row.fillZero.total := by
    intro r hr
    rw [h.cleanRssPid_eq, List.mem_map] at hr
    obtain ⟨row, hrow, rfl⟩ := hr
    obtain ⟨i, hi⟩ := List.mem_iff_getElem?.1 hrow
    obtain ⟨e, he, -⟩ := getElem?_withMembers.1 hi
    exact ⟨i, e, row, he, hi, rfl⟩
  refine ⟨fun r hr ↦ ?_, ?_, ?_, fun r hr ↦ ?_⟩
  · obtain ⟨i, e, row, he, hi, rfl⟩ := hrow r hr
    obtain ⟨e', he', htgid, -⟩ := getElem?_withMembers.1 hi
    obtain ⟨r', -, hpid, rfl⟩ := mem_sortedEvents.1 (List.mem_of_getElem? he')
    exact htgid.trans hpid
  · rw [← List.pairwise_map (f := RssCount.tsNs) (R := (· < ·)), htimes, List.pairwise_map]
    exact h.pairwise_sortedEvents S
  · rw [htimes]
    have hperm := (perm_sortedEvents S rssDf pid).map RssEvent.tsNs
    rwa [List.map_map] at hperm
  · obtain ⟨i, e, row, he, hi, rfl⟩ := hrow r hr
    obtain ⟨e', he', -, htime, hfile, hanon, hswap⟩ := getElem?_withMembers.1 hi
    obtain rfl := Option.some.inj (he'.symm.trans he)
    have hts : row.fillZero.total.tsNs = e'.tsNs := htime
    rw [hts]
    exact ⟨_, _, _, rfl, h.memberValue he' hfile, h.memberValue he' hanon, h.memberValue he' hswap⟩

/-- **Each event of a process has a row with the sum of the last observations of the three
members**, and nothing but the events of these members has a part in it. -/
theorem cleanRssPid_timeline (S : RssSorts) (h : WellTimed rssDf pid) :
    Timeline rssDf pid (cleanRssPid S rssDf pid) ∧
      ∀ S' rssDf', WellTimed rssDf' pid → SameMembers rssDf rssDf' pid →
        ∀ r ∈ cleanRssPid S rssDf pid, ∀ r' ∈ cleanRssPid S' rssDf' pid, r.tsNs = r'.tsNs →
          r.count = r'.count := by
  refine ⟨h.timeline S, fun S' rssDf' h' hsame r hr r' hr' htime ↦ ?_⟩
  obtain ⟨file, anon, swap, hcount, hfile, hanon, hswap⟩ := (h.timeline S).count r hr
  obtain ⟨file', anon', swap', hcount', hfile', hanon', hswap'⟩ := (h'.timeline S').count r' hr'
  have hmember : ∀ member ∈ ["MM_FILEPAGES".toList, "MM_ANONPAGES".toList, "MM_SWAPENTS".toList],
      ∀ n n', MemberValue rssDf pid member r.tsNs n → MemberValue rssDf' pid member r'.tsNs n' →
        n = n' := by
    rintro member hin n n' ⟨v, hv, rfl⟩ hn'
    rw [← htime] at hn'
    exact h'.memberValue_unique ⟨v, hv.congr (hsame member hin), rfl⟩ hn'
  rw [hcount, hcount', hmember _ (by simp) _ _ hfile hfile', hmember _ (by simp) _ _ hanon hanon',
    hmember _ (by simp) _ _ hswap hswap']

end Result

/-! ### Examples -/

/-- Stable sorts. -/
def stableSorts : RssSorts := ⟨.ofInsertionSort _, .ofInsertionSort _⟩

/-- An event of the process 7. -/
def rssRow (tsNs : ℤ) (member : PyStr) (count : ℤ) : RssRow :=
  ⟨⟨7, tsNs, member, count⟩, 8, []⟩

/-- Anonymous pages before any file page, out of order, and an event of another process. -/
def mixedTrace : List RssRow :=
  [rssRow 30 "MM_FILEPAGES".toList 5, rssRow 10 "MM_ANONPAGES".toList 2,
    ⟨⟨9, 20, "MM_SWAPENTS".toList, 100⟩, 9, []⟩, rssRow 20 "MM_SHMEMPAGES".toList 50]

/-- The file pages count from the start, and swap entries never. -/
example : cleanRssPid stableSorts mixedTrace 7 =
    [⟨7, 10, some 7⟩, ⟨7, 20, some 7⟩, ⟨7, 30, some 7⟩] := by decide +kernel

theorem cleanRssPid_timeline_mixedTrace : Timeline mixedTrace 7
    (cleanRssPid stableSorts mixedTrace 7) :=
  (cleanRssPid_timeline stableSorts
    (⟨by decide +kernel, by decide +kernel⟩ : WellTimed mixedTrace 7)).1

end ProcessTrace
