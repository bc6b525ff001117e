import HugePageResearch.Library.Hash
import HugePageResearch.Library.Run
import Mathlib.Data.BitVec
import Mathlib.Logic.Function.Basic

/-!
# The calls that `madvise.bpf.c` reports

`bpf/madvise.bpf.c`: an entry probe of `do_madvise` and one of `do_vmi_align_munmap` keep what was
called under the thread, and the return probe submits it if the call succeeded. The entry probes
`insert`, so that an entry which a missed return left behind is kept, and the call that comes then
is reported as the one before it. `bpf/thp_trace.bpf.c` updates the entry.

## The result

`carriesLatest_of_fresh`: along every run, what is submitted was recorded by the latest entry probe
of the function for the thread, where each return probe that is told of success finds an entry only
if that entry probe had found none; and only there, if time goes on between the entries of a thread.
-/

namespace Madvise

/-! ### The program -/

/-- `madvise_output_t`. -/
structure MadviseOutput where
  tgid : BitVec 32
  tsNs : BitVec 64
  address : BitVec 64
  length : BitVec 64
  advice : BitVec 32
  deriving DecidableEq

/-- The functions that are probed. -/
inductive Fn where
  | doMadvise
  | doVmiAlignMunmap
  deriving DecidableEq

/-- The hashes, and what was submitted. -/
structure Maps where
  madviseHash : Dict (BitVec 32) MadviseOutput
  munmapHash : Dict (BitVec 32) MadviseOutput
  madviseOutput : List MadviseOutput

/-- The size of the hashes. -/
def hashSize : ℕ := 32768

/-- The hash of a function. -/
def Maps.hash (m : Maps) : Fn → Dict (BitVec 32) MadviseOutput
  | .doMadvise => m.madviseHash
  | .doVmiAlignMunmap => m.munmapHash

/-- The hash of a function is replaced. -/
def Maps.setHash (m : Maps) (d : Dict (BitVec 32) MadviseOutput) : Fn → Maps
  | .doMadvise => { m with madviseHash := d }
  | .doVmiAlignMunmap => { m with munmapHash := d }

/-- The entry of a thread is removed. -/
def Maps.delete (m : Maps) (f : Fn) (pid : BitVec 32) : Maps :=
  m.setHash ((m.hash f).erase pid) f

/-- `madvise_output.perf_submit`. -/
def Maps.submit (m : Maps) (data : MadviseOutput) : Maps :=
  { m with madviseOutput := m.madviseOutput ++ [data] }

/-- What both entry probes do. -/
def kprobe (f : Fn) (pid : BitVec 32) (data : MadviseOutput) (m : Maps) : Maps :=
  m.setHash (Hash.insert hashSize (m.hash f) pid data) f

/-- `kprobe__do_madvise`. -/
def kprobeDoMadvise (pid ownerTgid : BitVec 32) (ts addr length : BitVec 64)
    (advice : BitVec 32) : Maps → Maps :=
  kprobe .doMadvise pid ⟨ownerTgid, ts, addr, length, advice⟩

/-- `kprobe__do_vmi_align_munmap`. -/
def kprobeDoVmiAlignMunmap (pid ownerTgid : BitVec 32) (ts start stop : BitVec 64) : Maps → Maps :=
  kprobe .doVmiAlignMunmap pid ⟨ownerTgid, ts, start, stop - start, -1⟩

/-- `kretprobe__do_madvise`. The value returned is read as an `int`. -/
def kretprobeDoMadvise (pid : BitVec 32) (rc : BitVec 64) (m : Maps) : Maps :=
  -- each path deletes the entry, also where none is found
  if rc.setWidth 32 ≠ 0 then m.delete .doMadvise pid
  else
    match (m.hash .doMadvise).get? pid with
    | none => m.delete .doMadvise pid
    | some data => (m.submit data).delete .doMadvise pid

/-- `kretprobe__do_vmi_align_munmap`. -/
def kretprobeDoVmiAlignMunmap (pid : BitVec 32) (rc : BitVec 64) (m : Maps) : Maps :=
  match (m.hash .doVmiAlignMunmap).get? pid with
  | none => m
  | some data =>
    if rc.setWidth 32 ≠ 0 then m.delete .doVmiAlignMunmap pid
    else (m.submit data).delete .doVmiAlignMunmap pid

/-! ### Runs -/

/-- What the probes see. -/
inductive Event where
  | kprobeDoMadvise (pid ownerTgid : BitVec 32) (ts addr length : BitVec 64) (advice : BitVec 32)
  | kretprobeDoMadvise (pid : BitVec 32) (rc : BitVec 64)
  | kprobeDoVmiAlignMunmap (pid ownerTgid : BitVec 32) (ts start stop : BitVec 64)
  | kretprobeDoVmiAlignMunmap (pid : BitVec 32) (rc : BitVec 64)

namespace Event

/-- The function that is entered or returns, and the thread. -/
def key : Event → Fn × BitVec 32
  | kprobeDoMadvise pid .. => (.doMadvise, pid)
  | kretprobeDoMadvise pid _ => (.doMadvise, pid)
  | kprobeDoVmiAlignMunmap pid .. => (.doVmiAlignMunmap, pid)
  | kretprobeDoVmiAlignMunmap pid _ => (.doVmiAlignMunmap, pid)

/-- What an entry probe records. -/
def record : Event → Option MadviseOutput
  | kprobeDoMadvise _ ownerTgid ts addr length advice => some ⟨ownerTgid, ts, addr, length, advice⟩
  | kprobeDoVmiAlignMunmap _ ownerTgid ts start stop =>
    some ⟨ownerTgid, ts, start, stop - start, -1⟩
  | _ => none

/-- A return probe is told of success. -/
def Succeeds : Event → Prop
  | kretprobeDoMadvise _ rc => rc.setWidth 32 = 0
  | kretprobeDoVmiAlignMunmap _ rc => rc.setWidth 32 = 0
  | _ => False

/-- The probe that sees the event. -/
def probe : Event → Maps → Maps
  | kprobeDoMadvise pid ownerTgid ts addr length advice =>
    Madvise.kprobeDoMadvise pid ownerTgid ts addr length advice
  | kretprobeDoMadvise pid rc => Madvise.kretprobeDoMadvise pid rc
  | kprobeDoVmiAlignMunmap pid ownerTgid ts start stop =>
    Madvise.kprobeDoVmiAlignMunmap pid ownerTgid ts start stop
  | kretprobeDoVmiAlignMunmap pid rc => Madvise.kretprobeDoVmiAlignMunmap pid rc

end Event

/-- What the hash of a function holds for a thread. -/
def Maps.get? (m : Maps) (k : Fn × BitVec 32) : Option MadviseOutput := (m.hash k.1).get? k.2

/-- What an entry probe recorded, and whether it found an entry that was left. -/
structure Entered where
  record : MadviseOutput
  found : Bool

/-- The hashes, and the latest entry probe of each function for each thread. -/
structure World where
  maps : Maps
  entered : Fn × BitVec 32 → Option Entered

/-- One event. -/
def step (w : World) (e : Event) : Option World :=
  some
    { maps := e.probe w.maps
      entered :=
        match e.record with
        | some data => Function.update w.entered e.key (some ⟨data, (w.maps.get? e.key).isSome⟩)
        | none => w.entered }

/-- The program is loaded. -/
def init : World := ⟨⟨.empty, .empty, []⟩, fun _ ↦ none⟩

/-! ### What is expected -/

/-- The event makes the program submit a record. -/
def Submits (w : World) (e : Event) (r : MadviseOutput) : Prop :=
  (e.probe w.maps).madviseOutput = w.maps.madviseOutput ++ [r]

/-- **What is submitted** was recorded by the latest entry probe of the function for the thread. -/
def CarriesLatest (w : World) (e : Event) : Prop :=
  ∀ r, Submits w e r → ∃ c, w.entered e.key = some c ∧ c.record = r

/-- **What is needed for it**: a return probe that is told of success finds an entry only where the
latest entry probe of the function for the thread had found none. -/
def Fresh (w : World) (e : Event) : Prop :=
  e.Succeeds → (w.maps.get? e.key).isSome → ∀ c, w.entered e.key = some c → c.found = false

/-- Time goes on from one entry of a thread to its next. -/
def Clocked (w : World) (e : Event) : Prop :=
  ∀ data, e.record = some data → ∀ c, w.entered e.key = some c →
    c.record.tsNs.toNat < data.tsNs.toNat

/-! ### The probes -/

section Probes

variable {m : Maps} {e : Event} {f : Fn} {pid : BitVec 32} {rc : BitVec 64}
  {k : Fn × BitVec 32} {d : Dict (BitVec 32) MadviseOutput}

theorem get?_setHash : (m.setHash d f).get? k = if f = k.1 then d.get? k.2 else m.get? k := by
  obtain ⟨f', k⟩ := k
  cases f with
  | doMadvise => cases f' with
    | doMadvise => rfl
    | doVmiAlignMunmap => rfl
  | doVmiAlignMunmap => cases f' with
    | doMadvise => rfl
    | doVmiAlignMunmap => rfl

theorem madviseOutput_setHash : (m.setHash d f).madviseOutput = m.madviseOutput := by
  cases f with
  | doMadvise => rfl
  | doVmiAlignMunmap => rfl

theorem get?_submit (data : MadviseOutput) : (m.submit data).get? k = m.get? k := by
  obtain ⟨f, k⟩ := k
  cases f with
  | doMadvise => rfl
  | doVmiAlignMunmap => rfl

theorem get?_delete : (m.delete f pid).get? k = if (f, pid) = k then none else m.get? k := by
  obtain ⟨f', k⟩ := k
  rw [Maps.delete, get?_setHash, Dict.get?_erase]
  simp only [Prod.mk.injEq]
  by_cases hf : f = f'
  · subst hf
    simp [Maps.get?]
  · simp [hf]

/-- **What an entry probe does**: it writes its record where the thread has no entry, unless the
hash is full. -/
theorem probe_of_record {data : MadviseOutput} (he : e.record = some data) (m : Maps) :
    (e.probe m).madviseOutput = m.madviseOutput ∧
    (∀ k, k ≠ e.key → (e.probe m).get? k = m.get? k) ∧
    (∀ r, m.get? e.key = some r → (e.probe m).get? e.key = some r) ∧
    (m.get? e.key = none → ∀ r, (e.probe m).get? e.key = some r → r = data) := by
  have hprobe : e.probe m = kprobe e.key.1 e.key.2 data m := by
    cases e with
    | kprobeDoMadvise => exact Option.some.inj he ▸ rfl
    | kprobeDoVmiAlignMunmap => exact Option.some.inj he ▸ rfl
    | kretprobeDoMadvise => exact nomatch he
    | kretprobeDoVmiAlignMunmap => exact nomatch he
  rw [hprobe, kprobe]
  refine ⟨madviseOutput_setHash, fun k hk ↦ ?_, fun r hr ↦ ?_, fun hnone r hr ↦ ?_⟩
  · rw [get?_setHash]
    split_ifs with hf
    · have hne : e.key.2 ≠ k.2 := fun h ↦ hk (Prod.ext hf.symm h.symm)
      rw [Hash.get?_insert_of_ne hne, hf]
      rfl
    · rfl
  · rw [get?_setHash, if_pos rfl, Hash.insert_of_get? hr]
    exact hr
  · rw [get?_setHash, if_pos rfl] at hr
    exact Hash.eq_of_get?_insert hnone hr

/-- **What a return probe does**: it removes the entry, and submits it if the call succeeded. -/
structure Returned (k : Fn × BitVec 32) (ok : Prop) (m m' : Maps) : Prop where
  get? : ∀ k', m'.get? k' = if k = k' then none else m.get? k'
  silent : ¬ ok → m'.madviseOutput = m.madviseOutput
  submits : ok → m'.madviseOutput = m.madviseOutput ++ (m.get? k).toList

theorem returned_kretprobeDoMadvise (pid : BitVec 32) (rc : BitVec 64) (m : Maps) :
    Returned (.doMadvise, pid) (rc.setWidth 32 = 0) m (kretprobeDoMadvise pid rc m) := by
  rw [kretprobeDoMadvise]
  split_ifs with hrc
  · exact ⟨fun k ↦ get?_delete, fun _ ↦ madviseOutput_setHash, fun h ↦ absurd h hrc⟩
  have hok := not_not.1 hrc
  have hsame : m.get? (.doMadvise, pid) = (m.hash .doMadvise).get? pid := rfl
  cases hget : (m.hash .doMadvise).get? pid with
  | none =>
    refine ⟨fun k ↦ get?_delete, fun h ↦ absurd hok h, fun _ ↦ ?_⟩
    rw [hsame, hget]
    exact madviseOutput_setHash.trans (List.append_nil _).symm
  | some data =>
    refine ⟨fun k ↦ ?_, fun h ↦ absurd hok h, fun _ ↦ ?_⟩
    · exact get?_delete.trans (if_congr Iff.rfl rfl (get?_submit data))
    · rw [hsame, hget]
      exact madviseOutput_setHash

theorem returned_kretprobeDoVmiAlignMunmap (pid : BitVec 32) (rc : BitVec 64) (m : Maps) :
    Returned (.doVmiAlignMunmap, pid) (rc.setWidth 32 = 0) m
      (kretprobeDoVmiAlignMunmap pid rc m) := by
  have hsame : m.get? (.doVmiAlignMunmap, pid) = (m.hash .doVmiAlignMunmap).get? pid := rfl
  rw [kretprobeDoVmiAlignMunmap]
  cases hget : (m.hash .doVmiAlignMunmap).get? pid with
  | none =>
    refine ⟨fun k ↦ ?_, fun _ ↦ rfl, fun _ ↦ ?_⟩
    · show m.get? k = _
      split_ifs with hk
      · rw [← hk, hsame, hget]
      · rfl
    · rw [hsame, hget]
      exact (List.append_nil _).symm
  | some data =>
    show Returned _ _ m (if _ then _ else _)
    split_ifs with hrc
    · exact ⟨fun k ↦ get?_delete, fun _ ↦ madviseOutput_setHash, fun h ↦ absurd h hrc⟩
    · refine ⟨fun k ↦ ?_, fun h ↦ absurd (not_not.1 hrc) h, fun _ ↦ ?_⟩
      · exact get?_delete.trans (if_congr Iff.rfl rfl (get?_submit data))
      · rw [hsame, hget]
        exact madviseOutput_setHash

theorem returned_of_record (he : e.record = none) (m : Maps) :
    Returned e.key e.Succeeds m (e.probe m) := by
  cases e with
  | kprobeDoMadvise => exact nomatch he
  | kprobeDoVmiAlignMunmap => exact nomatch he
  | kretprobeDoMadvise pid rc => exact returned_kretprobeDoMadvise pid rc m
  | kretprobeDoVmiAlignMunmap pid rc => exact returned_kretprobeDoVmiAlignMunmap pid rc m

end Probes

/-! ### The law -/

section Law

variable {w w' : World} {e : Event} {es : List Event} {r : MadviseOutput}

/-- What is submitted is the entry, by a return probe that is told of success. -/
theorem submits_iff : Submits w e r ↔ e.Succeeds ∧ w.maps.get? e.key = some r := by
  have hself : ∀ (l : List MadviseOutput), l ≠ l ++ [r] := fun l h ↦ by
    have := congrArg List.length h
    rw [List.length_append, List.length_singleton] at this
    omega
  rw [Submits]
  cases hrec : e.record with
  | some data =>
    obtain ⟨hout, -⟩ := probe_of_record hrec w.maps
    rw [hout]
    refine ⟨fun h ↦ absurd h (hself _), fun ⟨hs, _⟩ ↦ ?_⟩
    cases e with
    | kprobeDoMadvise => exact hs.elim
    | kprobeDoVmiAlignMunmap => exact hs.elim
    | kretprobeDoMadvise => exact nomatch hrec
    | kretprobeDoVmiAlignMunmap => exact nomatch hrec
  | none =>
    have hret := returned_of_record hrec w.maps
    by_cases hs : e.Succeeds
    · rw [hret.submits hs, List.append_cancel_left_eq]
      cases hget : w.maps.get? e.key with
      | none => exact ⟨nofun, nofun⟩
      | some data => simp [hs]
    · rw [hret.silent hs]
      exact ⟨fun h ↦ absurd h (hself _), fun h ↦ absurd h.1 hs⟩

/-- **What the hashes hold**: where the latest entry probe of a thread found no entry, what it
recorded. -/
def Inv (w : World) : Prop :=
  ∀ k v, w.maps.get? k = some v →
    ∃ c, w.entered k = some c ∧ (c.found = false → c.record = v)

/-- Where it found an entry, what the hashes hold is older. -/
def Older (w : World) : Prop :=
  ∀ k v c, w.maps.get? k = some v → w.entered k = some c → c.found = true →
    v.tsNs.toNat < c.record.tsNs.toNat

theorem inv_init : Inv init := by
  rintro ⟨f, k⟩ v hv
  cases f with
  | doMadvise => exact nomatch hv
  | doVmiAlignMunmap => exact nomatch hv

theorem older_init : Older init := fun _ _ _ _ h ↦ nomatch h

/-- A return probe changes nothing else. -/
theorem entered_of_return (he : e.record = none) (hstep : step w e = some w') :
    w'.entered = w.entered ∧ ∀ k v, w'.maps.get? k = some v → w.maps.get? k = some v := by
  obtain rfl := Option.some.inj hstep
  refine ⟨by simp only [he], fun k v hv ↦ ?_⟩
  rw [(returned_of_record he w.maps).get?] at hv
  exact (Option.ite_none_left_eq_some.1 hv).2

/-- What is known after an entry probe. -/
theorem entered_of_record {data : MadviseOutput} (he : e.record = some data)
    (hstep : step w e = some w') :
    w'.entered e.key = some ⟨data, (w.maps.get? e.key).isSome⟩ ∧
      ∀ k, k ≠ e.key → w'.entered k = w.entered k ∧ w'.maps.get? k = w.maps.get? k := by
  obtain rfl := Option.some.inj hstep
  obtain ⟨-, hother, -⟩ := probe_of_record he w.maps
  simp only [he]
  exact ⟨Function.update_self _ _ _, fun k hk ↦ ⟨Function.update_of_ne hk _ _, hother k hk⟩⟩

/-- **Every event keeps the invariant.** -/
theorem Inv.step (h : Inv w) (hstep : step w e = some w') : Inv w' := by
  intro k v hv
  cases hrec : e.record with
  | none =>
    obtain ⟨hentered, hget⟩ := entered_of_return hrec hstep
    rw [hentered]
    exact h k v (hget k v hv)
  | some data =>
    obtain ⟨hself, hother⟩ := entered_of_record hrec hstep
    by_cases hk : k = e.key
    · subst hk
      refine ⟨_, hself, fun hfound ↦ ?_⟩
      have hnone := Option.isNone_iff_eq_none.1 (Option.isSome_eq_false_iff.1 hfound)
      obtain rfl := Option.some.inj hstep
      exact ((probe_of_record hrec w.maps).2.2.2 hnone v hv).symm
    · rw [(hother k hk).1]
      exact h k v ((hother k hk).2 ▸ hv)

/-- An entry that is left is older than what comes then, while time goes on. -/
theorem Older.step (h : Older w) (hinv : Inv w) (hclock : Clocked w e)
    (hstep : step w e = some w') : Older w' := by
  intro k v c hv hc hfound
  cases hrec : e.record with
  | none =>
    obtain ⟨hentered, hget⟩ := entered_of_return hrec hstep
    rw [hentered] at hc
    exact h k v c (hget k v hv) hc hfound
  | some data =>
    obtain ⟨hself, hother⟩ := entered_of_record hrec hstep
    by_cases hk : k = e.key
    · subst hk
      obtain rfl := Option.some.inj (hself.symm.trans hc)
      obtain ⟨v', hv'⟩ := Option.isSome_iff_exists.1 hfound
      obtain rfl := Option.some.inj hstep
      obtain rfl := Option.some.inj (((probe_of_record hrec w.maps).2.2.1 v' hv').symm.trans hv)
      -- the entry is that of the probe before this one, or one that this probe had found
      obtain ⟨c', hc', hlatest⟩ := hinv _ v' hv'
      have hlt := hclock data hrec c' hc'
      cases hfound' : c'.found with
      | false => exact hlatest hfound' ▸ hlt
      | true => exact Nat.lt_trans (h _ v' c' hv' hc' hfound') hlt
    · rw [(hother k hk).1] at hc
      exact h k v c ((hother k hk).2 ▸ hv) hc hfound

/-- What is submitted is the record of the latest entry probe, where that had found no entry. -/
theorem carriesLatest_of_inv (h : Inv w) (hfresh : Fresh w e) : CarriesLatest w e := by
  intro r hr
  obtain ⟨hs, hget⟩ := submits_iff.1 hr
  obtain ⟨c, hc, hlatest⟩ := h e.key r hget
  exact ⟨c, hc, hlatest (hfresh hs (Option.isSome_iff_exists.2 ⟨r, hget⟩) c hc)⟩

/-- And only there, where what is left is older. -/
theorem fresh_of_older (h : Older w) (hcarries : CarriesLatest w e) : Fresh w e := by
  intro hs hsome c hc
  obtain ⟨r, hget⟩ := Option.isSome_iff_exists.1 hsome
  obtain ⟨c', hc', hr⟩ := hcarries r (submits_iff.2 ⟨hs, hget⟩)
  obtain rfl := Option.some.inj (hc.symm.trans hc')
  rw [← Bool.not_eq_true]
  intro hfound
  have hlt := h e.key r c hget hc hfound
  rw [hr] at hlt
  exact Nat.lt_irrefl _ hlt

/-- **Every submission carries the latest record** along each run in which a successful return finds
an entry only where the latest entry probe had found none, and along no other in which time goes
on. -/
theorem carriesLatest_of_fresh (es : List Event) :
    (Run.Always step Fresh init es → Run.Always step CarriesLatest init es) ∧
      (Run.Always step Clocked init es → Run.Always step CarriesLatest init es →
        Run.Always step Fresh init es) := by
  constructor
  · exact Run.always_of_always (fun _ _ _ h ↦ h.step) inv_init
      fun _ _ h ↦ carriesLatest_of_inv h
  · exact Run.always_of_always₂ (I := fun w ↦ Inv w ∧ Older w)
      (fun _ _ _ h hclock hstep ↦ ⟨h.1.step hstep, h.2.step h.1 hclock hstep⟩)
      ⟨inv_init, older_init⟩ fun _ _ h _ ↦ fresh_of_older h.2

/-- Two calls of a thread, of which both returns are seen. -/
def seenReturns : List Event :=
  [.kprobeDoMadvise 5 5 1000 4096 8192 14, .kretprobeDoMadvise 5 0,
    .kprobeDoMadvise 5 5 2000 65536 4096 4, .kretprobeDoMadvise 5 0]

theorem carriesLatest_seenReturns : Run.Always step CarriesLatest init seenReturns := by
  have hreturn : ∀ w c, w.entered (.doMadvise, 5) = some c → c.found = false →
      Fresh w (.kretprobeDoMadvise 5 0) := by
    intro w c hc hfound _ _ c' hc'
    exact Option.some.inj (hc.symm.trans hc') ▸ hfound
  refine (carriesLatest_of_fresh seenReturns).1 ⟨False.elim, ?_⟩
  rintro _ ⟨⟩
  refine ⟨hreturn _ _ rfl rfl, ?_⟩
  rintro _ ⟨⟩
  refine ⟨False.elim, ?_⟩
  rintro _ ⟨⟩
  exact ⟨hreturn _ _ rfl rfl, fun _ _ ↦ trivial⟩

/-- A return is missed, and the thread's next call succeeds. -/
def missedReturn : List Event :=
  [.kprobeDoMadvise 5 5 1000 4096 8192 14, .kprobeDoMadvise 5 5 2000 65536 4096 4,
    .kretprobeDoMadvise 5 0]

/-- The call of which the return was missed is submitted for the next one. -/
theorem not_carriesLatest_of_missedReturn : ¬ ∀ es, Run.Always step CarriesLatest init es := by
  intro hall
  obtain ⟨w, hw⟩ : ∃ w, Run.exec step init (missedReturn.take 2) = some w := ⟨_, rfl⟩
  have hrun : Run.Always step CarriesLatest init
      (missedReturn.take 2 ++ .kretprobeDoMadvise 5 0 :: []) := hall missedReturn
  have hlast := hrun.at_step hw
  obtain rfl := Option.some.inj hw
  obtain ⟨c, hc, hr⟩ := hlast ⟨5, 1000, 4096, 8192, 14⟩ rfl
  obtain rfl := Option.some.inj hc
  exact absurd hr (by decide)

end Law

end Madvise
