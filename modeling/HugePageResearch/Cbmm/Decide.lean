import HugePageResearch.Library.Hash
import HugePageResearch.Library.Lists
import HugePageResearch.Library.Run
import Mathlib.Data.BitVec
import Mathlib.Logic.Function.Basic

/-!
# The inputs of memory management decisions

`bpf/cbmm.bpf.c`: a thread that estimates the cost of an action, and then decides, leaves the inputs
of the decision in one entry of a hash, which the return probe of `mm_decide` submits and removes.
The entry is made by `lookup_or_try_init`, which keeps one that is there; for an action that is
neither eager paging nor prezeroing none is made, and none is removed.

A pointer is read at the time of the probe: a probe takes what the memory holds at each address. A
read that fails gives zeros.

## The result

`faithful_iff_clean`: along a run, what is submitted is of the kind that the thread's latest
`mm_estimate_changes` announced and has inputs of that episode, exactly where each return of
`mm_decide` that finds an entry finds one that this episode made, or one that was left for the same
kind and of which the episode recorded anew all that is not zero.
-/

namespace Cbmm

/-! ### The program -/

/-- The actions. -/
inductive MmAction where
  | eagerPaging
  | runPrezeroing
  | other
  deriving DecidableEq

/-- `struct mm_cost_delta`. -/
structure MmCostDelta where
  cost : BitVec 64
  benefit : BitVec 64

/-- `struct cbmm_eager_paging`. -/
structure CbmmEagerPaging where
  cost : BitVec 64
  freqCycles : BitVec 64
  greatestRangeBenefit : BitVec 64
  deriving DecidableEq

/-- `struct cbmm_async_prezeroing`, of which only these fields are used. -/
structure CbmmAsyncPrezeroing where
  load : BitVec 64
  loadInfo : BitVec 64
  daemonCost : BitVec 64
  prezeroN : BitVec 64
  zeroingPerPageCost : BitVec 64
  recentUsed : BitVec 64
  deriving DecidableEq

/-- `struct cbmm_action`. -/
structure CbmmAction where
  action : MmAction
  eager : CbmmEagerPaging
  prezero : CbmmAsyncPrezeroing
  deriving DecidableEq

/-- `struct cbmm_eager_paging_inputs`. -/
structure CbmmEagerPagingInputs where
  freqCycles : BitVec 64
  greatestRangeBenefit : BitVec 64
  decision : BitVec 32
  deriving DecidableEq

/-- `struct cbmm_async_prezeroing_inputs`. -/
structure CbmmAsyncPrezeroingInputs where
  load : BitVec 64
  daemonCost : BitVec 64
  prezeroN : BitVec 64
  nfree : BitVec 64
  criticalSectionCost : BitVec 64
  zeroingPerPageCost : BitVec 64
  recentUsed : BitVec 64
  decision : BitVec 32
  deriving DecidableEq

/-- The hash, and what was submitted to the two outputs. -/
structure Maps where
  cbmmActionHash : Dict (BitVec 64) CbmmAction
  cbmmEager : List CbmmEagerPagingInputs
  cbmmPrezero : List CbmmAsyncPrezeroingInputs

/-- The size of the hash. -/
def hashSize : ℕ := 1024

/-- An entry that is zero but for its action. -/
def storedAction (action : MmAction) : CbmmAction := ⟨action, ⟨0, 0, 0⟩, ⟨0, 0, 0, 0, 0, 0⟩⟩

/-- `insert_mm_estimate_changes`, in the thread of the given `bpf_get_current_pid_tgid`. -/
def insertMmEstimateChanges (k : BitVec 64) (action : MmAction) (m : Maps) : Maps :=
  { m with cbmmActionHash :=
      (Hash.lookupOrTryInit hashSize m.cbmmActionHash k (storedAction action)).2 }

/-- `kprobe__mm_estimate_changes`. -/
def kprobeMmEstimateChanges (k : BitVec 64) (action : MmAction) (m : Maps) : Maps :=
  match action with
  | .eagerPaging => insertMmEstimateChanges k .eagerPaging m
  | .runPrezeroing => insertMmEstimateChanges k .runPrezeroing m
  | .other => m

/-- The inputs that `mm_decide_push_eager` submits. -/
def eagerInputs (decision : BitVec 32) (a : CbmmAction) : CbmmEagerPagingInputs where
  decision := decision
  freqCycles := a.eager.freqCycles
  greatestRangeBenefit := a.eager.greatestRangeBenefit

/-- The inputs that `mm_decide_push_prezero` submits. -/
def prezeroInputs (decision : BitVec 32) (a : CbmmAction) : CbmmAsyncPrezeroingInputs where
  decision := decision
  load := a.prezero.loadInfo
  daemonCost := a.prezero.daemonCost
  prezeroN := a.prezero.prezeroN
  criticalSectionCost := 150 * 2
  nfree := 10 * 3000 * 1000 / (150 * 2)
  zeroingPerPageCost := a.prezero.zeroingPerPageCost
  recentUsed := a.prezero.recentUsed

/-- `mm_decide_push_eager`. -/
def mmDecidePushEager (decision : BitVec 32) (a : CbmmAction) (m : Maps) : Maps :=
  { m with cbmmEager := m.cbmmEager ++ [eagerInputs decision a] }

/-- `mm_decide_push_prezero`. -/
def mmDecidePushPrezero (decision : BitVec 32) (a : CbmmAction) (m : Maps) : Maps :=
  { m with cbmmPrezero := m.cbmmPrezero ++ [prezeroInputs decision a] }

/-- `kretprobe__mm_decide`. -/
def kretprobeMmDecide (k rc : BitVec 64) (m : Maps) : Maps :=
  match m.cbmmActionHash.get? k with
  | none => m
  | some a =>
    let m : Maps :=
      match a.action with
      | .eagerPaging => mmDecidePushEager (rc.setWidth 32) a m
      | .runPrezeroing => mmDecidePushPrezero (rc.setWidth 32) a m
      | .other => m
    { m with cbmmActionHash := m.cbmmActionHash.erase k }

/-- What the helpers' probes do: they change the entry of the thread, if there is one. -/
def withStorageAction (k : BitVec 64) (f : CbmmAction → CbmmAction) (m : Maps) : Maps :=
  match m.cbmmActionHash.get? k with
  | none => m
  | some a => { m with cbmmActionHash := m.cbmmActionHash.set k (f a) }

/-- `kprobe__mm_estimate_eager_page_cost_benefit`. -/
def kprobeMmEstimateEagerPageCostBenefit (k cost : BitVec 64) : Maps → Maps :=
  withStorageAction k fun a ↦ { a with eager.cost := cost }

/-- `kretprobe__mm_estimate_eager_page_cost_benefit`. -/
def kretprobeMmEstimateEagerPageCostBenefit (k : BitVec 64) (memory : BitVec 64 → MmCostDelta) :
    Maps → Maps :=
  withStorageAction k fun a ↦ { a with
    eager.freqCycles := (memory a.eager.cost).cost
    eager.greatestRangeBenefit := (memory a.eager.cost).benefit }

/-- `kprobe__mm_estimate_daemon_cost`. -/
def kprobeMmEstimateDaemonCost (k prezeroN : BitVec 64) : Maps → Maps :=
  withStorageAction k fun a ↦ { a with
    prezero.prezeroN := prezeroN
    prezero.daemonCost := 1000000 }

/-- `kprobe__get_avenrun`. -/
def kprobeGetAvenrun (k loads : BitVec 64) : Maps → Maps :=
  withStorageAction k fun a ↦ { a with prezero.load := loads }

/-- `LOAD_INT`. -/
def loadInt (x : BitVec 64) : BitVec 64 := x >>> 11

/-- `kretprobe__get_avenrun`. -/
def kretprobeGetAvenrun (k : BitVec 64) (memory : BitVec 64 → BitVec 64) : Maps → Maps :=
  withStorageAction k fun a ↦ { a with prezero.loadInfo := loadInt (memory a.prezero.load) }

/-- `kretprobe__mm_estimated_prezeroed_used`. -/
def kretprobeMmEstimatedPrezeroedUsed (k rc : BitVec 64) : Maps → Maps :=
  withStorageAction k fun a ↦ { a with
    prezero.zeroingPerPageCost := 1000000
    prezero.recentUsed := rc }

/-! ### Runs -/

/-- What the probes see, in the thread of the given `bpf_get_current_pid_tgid`. -/
inductive Event where
  | kprobeMmEstimateChanges (k : BitVec 64) (action : MmAction)
  | kprobeMmEstimateEagerPageCostBenefit (k cost : BitVec 64)
  | kretprobeMmEstimateEagerPageCostBenefit (k : BitVec 64) (memory : BitVec 64 → MmCostDelta)
  | kprobeMmEstimateDaemonCost (k prezeroN : BitVec 64)
  | kprobeGetAvenrun (k loads : BitVec 64)
  | kretprobeGetAvenrun (k : BitVec 64) (memory : BitVec 64 → BitVec 64)
  | kretprobeMmEstimatedPrezeroedUsed (k rc : BitVec 64)
  | kretprobeMmDecide (k rc : BitVec 64)

/-- The inputs of a decision that probes record. -/
inductive Input where
  | freqCycles
  | greatestRangeBenefit
  | load
  | prezeroN
  | recentUsed
  deriving DecidableEq

/-- What an entry has for an input. -/
def Input.get : Input → CbmmAction → BitVec 64
  | freqCycles, a => a.eager.freqCycles
  | greatestRangeBenefit, a => a.eager.greatestRangeBenefit
  | load, a => a.prezero.loadInfo
  | prezeroN, a => a.prezero.prezeroN
  | recentUsed, a => a.prezero.recentUsed

/-- The action that an input is one of. -/
def Input.action : Input → MmAction
  | freqCycles => .eagerPaging
  | greatestRangeBenefit => .eagerPaging
  | load => .runPrezeroing
  | prezeroN => .runPrezeroing
  | recentUsed => .runPrezeroing

namespace Event

/-- The thread. -/
def key : Event → BitVec 64
  | kprobeMmEstimateChanges k _ => k
  | kprobeMmEstimateEagerPageCostBenefit k _ => k
  | kretprobeMmEstimateEagerPageCostBenefit k _ => k
  | kprobeMmEstimateDaemonCost k _ => k
  | kprobeGetAvenrun k _ => k
  | kretprobeGetAvenrun k _ => k
  | kretprobeMmEstimatedPrezeroedUsed k _ => k
  | kretprobeMmDecide k _ => k

/-- The inputs that a probe records. -/
def records : Event → List Input
  | kretprobeMmEstimateEagerPageCostBenefit _ _ => [.freqCycles, .greatestRangeBenefit]
  | kprobeMmEstimateDaemonCost _ _ => [.prezeroN]
  | kretprobeGetAvenrun _ _ => [.load]
  | kretprobeMmEstimatedPrezeroedUsed _ _ => [.recentUsed]
  | _ => []

/-- The probe that sees the event. -/
def probe : Event → Maps → Maps
  | kprobeMmEstimateChanges k action => Cbmm.kprobeMmEstimateChanges k action
  | kprobeMmEstimateEagerPageCostBenefit k cost =>
    Cbmm.kprobeMmEstimateEagerPageCostBenefit k cost
  | kretprobeMmEstimateEagerPageCostBenefit k memory =>
    Cbmm.kretprobeMmEstimateEagerPageCostBenefit k memory
  | kprobeMmEstimateDaemonCost k prezeroN => Cbmm.kprobeMmEstimateDaemonCost k prezeroN
  | kprobeGetAvenrun k loads => Cbmm.kprobeGetAvenrun k loads
  | kretprobeGetAvenrun k memory => Cbmm.kretprobeGetAvenrun k memory
  | kretprobeMmEstimatedPrezeroedUsed k rc => Cbmm.kretprobeMmEstimatedPrezeroedUsed k rc
  | kretprobeMmDecide k rc => Cbmm.kretprobeMmDecide k rc

end Event

/-- **An episode** of a thread: the action that `mm_estimate_changes` announced, the entry that its
probe found, and what the probes have recorded since. -/
structure Episode where
  announced : MmAction
  left : Option CbmmAction
  recorded : Input → Option (BitVec 64)

/-- The hash and the outputs, and the latest episode of each thread. -/
structure World where
  maps : Maps
  episodes : BitVec 64 → Option Episode

/-- The latest episode of the thread after an event. -/
def Event.episode (e : Event) (w : World) : Option Episode :=
  match e with
  | .kprobeMmEstimateChanges k action =>
    some ⟨action, w.maps.cbmmActionHash.get? k, fun _ ↦ none⟩
  | e => (w.episodes e.key).map fun c ↦ { c with
      recorded := fun x ↦
        if x ∈ e.records then ((e.probe w.maps).cbmmActionHash.get? e.key).map x.get
        else c.recorded x }

/-- One event. -/
def step (w : World) (e : Event) : Option World :=
  some ⟨e.probe w.maps, Function.update w.episodes e.key (e.episode w)⟩

/-- The program is loaded. -/
def init : World := ⟨⟨.empty, [], []⟩, fun _ ↦ none⟩

/-! ### What is expected -/

/-- A value is what the episode recorded for an input, or 0. -/
def Episode.Has (c : Episode) (x : Input) (v : BitVec 64) : Prop := v = 0 ∨ c.recorded x = some v

/-- **What an event makes the program submit** is of the kind that the thread's latest episode
announced, and its inputs are that episode's. -/
structure Faithful (w : World) (e : Event) : Prop where
  eager : ∀ i, (e.probe w.maps).cbmmEager = w.maps.cbmmEager ++ [i] →
    ∃ c, w.episodes e.key = some c ∧ c.announced = .eagerPaging ∧
      c.Has .freqCycles i.freqCycles ∧ c.Has .greatestRangeBenefit i.greatestRangeBenefit
  prezero : ∀ i, (e.probe w.maps).cbmmPrezero = w.maps.cbmmPrezero ++ [i] →
    ∃ c, w.episodes e.key = some c ∧ c.announced = .runPrezeroing ∧
      c.Has .load i.load ∧ c.Has .prezeroN i.prezeroN ∧ c.Has .recentUsed i.recentUsed

/-- **What is needed for it**: where a return of `mm_decide` finds an entry, the episode had found
none, or one for its own action of which it recorded anew what was not zero. -/
def Clean (w : World) (e : Event) : Prop :=
  ∀ k rc, e = .kretprobeMmDecide k rc → (w.maps.cbmmActionHash.get? k).isSome →
    ∀ c a, w.episodes k = some c → c.left = some a →
      a.action = c.announced ∧
        ∀ x : Input, x.action = c.announced → x.get a ≠ 0 → (c.recorded x).isSome

/-! ### The probes -/

section Probes

variable {m : Maps} {k k' : BitVec 64} {action : MmAction} {e : Event}

/-- What a helper's probe does to the hash. -/
theorem get?_withStorageAction (f : CbmmAction → CbmmAction) :
    (withStorageAction k f m).cbmmActionHash.get? k' =
      if k = k' then (m.cbmmActionHash.get? k).map f else m.cbmmActionHash.get? k' := by
  rw [withStorageAction]
  cases hget : m.cbmmActionHash.get? k with
  | none =>
    show m.cbmmActionHash.get? k' = _
    split_ifs with hk
    · rw [← hk, hget]
      rfl
    · rfl
  | some a => exact Dict.get?_set _ _ _ _

/-- It submits nothing. -/
theorem outputs_withStorageAction (f : CbmmAction → CbmmAction) :
    (withStorageAction k f m).cbmmEager = m.cbmmEager ∧
      (withStorageAction k f m).cbmmPrezero = m.cbmmPrezero := by
  rw [withStorageAction]
  cases m.cbmmActionHash.get? k with
  | none => exact ⟨rfl, rfl⟩
  | some a => exact ⟨rfl, rfl⟩

/-- **The helpers**: what the probe of an event does that is neither an estimate of changes nor a
decision. -/
structure Helps (e : Event) (f : CbmmAction → CbmmAction) : Prop where
  probe : ∀ m, e.probe m = withStorageAction e.key f m
  action : ∀ a, (f a).action = a.action
  frame : ∀ a, ∀ x : Input, x ∉ e.records → x.get (f a) = x.get a
  episode : ∀ w, e.episode w = (w.episodes e.key).map fun c ↦ { c with
    recorded := fun x ↦
      if x ∈ e.records then ((e.probe w.maps).cbmmActionHash.get? e.key).map x.get
      else c.recorded x }

theorem helps_cases (e : Event) : (∃ k action, e = .kprobeMmEstimateChanges k action) ∨
    (∃ k rc, e = .kretprobeMmDecide k rc) ∨ ∃ f, Helps e f := by
  cases e with
  | kprobeMmEstimateChanges k action => exact .inl ⟨k, action, rfl⟩
  | kretprobeMmDecide k rc => exact .inr (.inl ⟨k, rc, rfl⟩)
  | kprobeMmEstimateEagerPageCostBenefit k cost =>
    exact .inr (.inr ⟨_, fun _ ↦ rfl, fun _ ↦ rfl, fun a x _ ↦ by cases x <;> rfl, fun _ ↦ rfl⟩)
  | kretprobeMmEstimateEagerPageCostBenefit k memory =>
    refine .inr (.inr ⟨_, fun _ ↦ rfl, fun _ ↦ rfl, fun a x hx ↦ ?_, fun _ ↦ rfl⟩)
    cases x with
    | freqCycles => exact absurd List.mem_cons_self hx
    | greatestRangeBenefit => exact absurd (List.mem_cons_of_mem _ List.mem_cons_self) hx
    | load => rfl
    | prezeroN => rfl
    | recentUsed => rfl
  | kprobeMmEstimateDaemonCost k prezeroN =>
    refine .inr (.inr ⟨_, fun _ ↦ rfl, fun _ ↦ rfl, fun a x hx ↦ ?_, fun _ ↦ rfl⟩)
    cases x with
    | prezeroN => exact absurd List.mem_cons_self hx
    | freqCycles => rfl
    | greatestRangeBenefit => rfl
    | load => rfl
    | recentUsed => rfl
  | kprobeGetAvenrun k loads =>
    exact .inr (.inr ⟨_, fun _ ↦ rfl, fun _ ↦ rfl, fun a x _ ↦ by cases x <;> rfl, fun _ ↦ rfl⟩)
  | kretprobeGetAvenrun k memory =>
    refine .inr (.inr ⟨_, fun _ ↦ rfl, fun _ ↦ rfl, fun a x hx ↦ ?_, fun _ ↦ rfl⟩)
    cases x with
    | load => exact absurd List.mem_cons_self hx
    | freqCycles => rfl
    | greatestRangeBenefit => rfl
    | prezeroN => rfl
    | recentUsed => rfl
  | kretprobeMmEstimatedPrezeroedUsed k rc =>
    refine .inr (.inr ⟨_, fun _ ↦ rfl, fun _ ↦ rfl, fun a x hx ↦ ?_, fun _ ↦ rfl⟩)
    cases x with
    | recentUsed => exact absurd List.mem_cons_self hx
    | freqCycles => rfl
    | greatestRangeBenefit => rfl
    | load => rfl
    | prezeroN => rfl

/-- **What an estimate of changes does**: an entry that is there is kept, and one that is made is
zero but for the action. -/
structure Estimated (k : BitVec 64) (action : MmAction) (m m' : Maps) : Prop where
  eager : m'.cbmmEager = m.cbmmEager
  prezero : m'.cbmmPrezero = m.cbmmPrezero
  frame : ∀ k', k ≠ k' → m'.cbmmActionHash.get? k' = m.cbmmActionHash.get? k'
  kept : ∀ a, m.cbmmActionHash.get? k = some a → m'.cbmmActionHash.get? k = some a
  made : m.cbmmActionHash.get? k = none → ∀ a, m'.cbmmActionHash.get? k = some a →
    action ≠ .other ∧ a = storedAction action

theorem estimated_insertMmEstimateChanges (k : BitVec 64) (h : action ≠ .other) (m : Maps) :
    Estimated k action m (insertMmEstimateChanges k action m) := by
  refine ⟨rfl, rfl, fun k' hk ↦ Hash.get?_insert_of_ne hk, fun a ha ↦ ?_,
    fun hnone a ha ↦ ⟨h, Hash.eq_of_get?_insert hnone ha⟩⟩
  show (Hash.insert hashSize m.cbmmActionHash k _).get? k = some a
  rw [Hash.insert_of_get? ha, ha]

theorem estimated_kprobeMmEstimateChanges (k : BitVec 64) (action : MmAction) (m : Maps) :
    Estimated k action m (kprobeMmEstimateChanges k action m) := by
  have heager : MmAction.eagerPaging ≠ .other := nofun
  have hprezero : MmAction.runPrezeroing ≠ .other := nofun
  cases action with
  | eagerPaging => exact estimated_insertMmEstimateChanges k heager m
  | runPrezeroing => exact estimated_insertMmEstimateChanges k hprezero m
  | other =>
    exact ⟨rfl, rfl, fun _ _ ↦ rfl, fun _ ↦ id, fun hnone a ha ↦ nomatch hnone.symm.trans ha⟩

/-- **What a decision does**: the entry of the thread is removed, and submitted by its action. -/
structure Decided (k : BitVec 64) (rc : BitVec 32) (m m' : Maps) : Prop where
  get? : ∀ k', m'.cbmmActionHash.get? k' = if k = k' then none else m.cbmmActionHash.get? k'
  eager : m'.cbmmEager = m.cbmmEager ++ (((m.cbmmActionHash.get? k).filter
    fun a ↦ a.action = .eagerPaging).map (eagerInputs rc)).toList
  prezero : m'.cbmmPrezero = m.cbmmPrezero ++ (((m.cbmmActionHash.get? k).filter
    fun a ↦ a.action = .runPrezeroing).map (prezeroInputs rc)).toList

theorem decided_kretprobeMmDecide (k rc : BitVec 64) (m : Maps) :
    Decided k (rc.setWidth 32) m (kretprobeMmDecide k rc m) := by
  rw [kretprobeMmDecide]
  cases hget : m.cbmmActionHash.get? k with
  | none =>
    refine ⟨fun k' ↦ ?_, ?_, ?_⟩
    · show m.cbmmActionHash.get? k' = _
      split_ifs with hk
      · rw [← hk, hget]
      · rfl
    · rw [hget]
      exact (List.append_nil _).symm
    · rw [hget]
      exact (List.append_nil _).symm
  | some a =>
    obtain ⟨action, eager, prezero⟩ := a
    cases action with
    | eagerPaging =>
      exact ⟨fun k' ↦ Dict.get?_erase _ _ _, by rw [hget]; rfl,
        by rw [hget]; exact (List.append_nil _).symm⟩
    | runPrezeroing =>
      exact ⟨fun k' ↦ Dict.get?_erase _ _ _, by rw [hget]; exact (List.append_nil _).symm,
        by rw [hget]; rfl⟩
    | other =>
      exact ⟨fun k' ↦ Dict.get?_erase _ _ _, by rw [hget]; exact (List.append_nil _).symm,
        by rw [hget]; exact (List.append_nil _).symm⟩

end Probes

/-! ### The invariant -/

section Invariant

variable {w w' : World} {e : Event} {k : BitVec 64} {a : CbmmAction} {c : Episode}

/-- What the thread's entry has, by its latest episode: the action and the inputs that the episode
found, or else announced and 0, but for the inputs that it recorded. -/
structure Traces (c : Episode) (a : CbmmAction) : Prop where
  stored : a.action ≠ .other
  action : a.action = (c.left.map CbmmAction.action).getD c.announced
  inputs : ∀ x : Input, x.get a = (c.recorded x).getD ((c.left.map x.get).getD 0)

/-- **Each entry belongs to the latest episode of its thread.** -/
def Inv (w : World) : Prop :=
  ∀ k a, w.maps.cbmmActionHash.get? k = some a → ∃ c, w.episodes k = some c ∧ Traces c a

theorem inv_init : Inv init := fun _ _ h ↦ nomatch h

theorem traces_storedAction {action : MmAction} (h : action ≠ .other) :
    Traces ⟨action, none, fun _ ↦ none⟩ (storedAction action) :=
  ⟨h, rfl, fun x ↦ by cases x <;> rfl⟩

/-- What concerns the other threads. -/
theorem Inv.of_ne (h : Inv w) (hstep : step w e = some w') (hk : e.key ≠ k)
    (hframe : (e.probe w.maps).cbmmActionHash.get? k = w.maps.cbmmActionHash.get? k)
    (ha : w'.maps.cbmmActionHash.get? k = some a) : ∃ c, w'.episodes k = some c ∧ Traces c a := by
  obtain rfl := Option.some.inj hstep
  obtain ⟨c, hc, htraces⟩ := h k a (hframe ▸ ha)
  exact ⟨c, (Function.update_of_ne hk.symm _ _).trans hc, htraces⟩

theorem episodes_step_self (hstep : step w e = some w') :
    w'.episodes e.key = e.episode w := by
  obtain rfl := Option.some.inj hstep
  exact Function.update_self _ _ _

/-- **Every event keeps the invariant.** -/
theorem Inv.step (h : Inv w) (hstep : step w e = some w') : Inv w' := by
  intro k a ha
  have hmaps : w'.maps = e.probe w.maps := by
    obtain rfl := Option.some.inj hstep
    rfl
  obtain ⟨k₀, action, rfl⟩ | ⟨k₀, rc, rfl⟩ | ⟨f, hf⟩ := helps_cases e
  · have hest : Estimated k₀ action w.maps w'.maps :=
      hmaps ▸ estimated_kprobeMmEstimateChanges k₀ action w.maps
    by_cases hk : k₀ = k
    · subst hk
      refine ⟨_, episodes_step_self hstep, ?_⟩
      show Traces ⟨action, w.maps.cbmmActionHash.get? k₀, fun _ ↦ none⟩ a
      cases hget : w.maps.cbmmActionHash.get? k₀ with
      | none =>
        obtain ⟨hother, rfl⟩ := hest.made hget a ha
        exact traces_storedAction hother
      | some a' =>
        obtain rfl := Option.some.inj ((hest.kept a' hget).symm.trans ha)
        obtain ⟨c, -, htraces⟩ := h k₀ a' hget
        exact ⟨htraces.stored, rfl, fun _ ↦ rfl⟩
    · exact h.of_ne hstep hk (hmaps ▸ hest.frame k hk) ha
  · have hdec := decided_kretprobeMmDecide k₀ rc w.maps
    have hget := hdec.get? k
    by_cases hk : k₀ = k
    · rw [hmaps] at ha
      rw [if_pos hk] at hget
      exact nomatch hget.symm.trans ha
    · exact h.of_ne hstep hk (hget.trans (if_neg hk)) ha
  · by_cases hk : e.key = k
    · subst hk
      have hget : (e.probe w.maps).cbmmActionHash.get? e.key =
          (w.maps.cbmmActionHash.get? e.key).map f := by
        rw [hf.probe, get?_withStorageAction, if_pos rfl]
      rw [hmaps, hget] at ha
      obtain ⟨a', ha', rfl⟩ := Option.map_eq_some_iff.1 ha
      obtain ⟨c, hc, htraces⟩ := h e.key a' ha'
      refine ⟨_, (episodes_step_self hstep).trans ((hf.episode w).trans (by rw [hc]; rfl)), ?_⟩
      refine ⟨(hf.action a').symm ▸ htraces.stored, (hf.action a').trans htraces.action, fun x ↦ ?_⟩
      show x.get (f a') = Option.getD (if x ∈ e.records then _ else _) _
      split_ifs with hx
      · rw [hget, ha']
        rfl
      · rw [hf.frame a' x hx, htraces.inputs]
    · refine h.of_ne hstep hk ?_ ha
      rw [hf.probe, get?_withStorageAction, if_neg hk]

end Invariant

/-! ### The law -/

section Law

variable {w : World} {e : Event} {k rc : BitVec 64} {c : Episode} {a : CbmmAction}
  {es : List Event}

/-- Only a decision submits. -/
theorem outputs_of_ne (he : ∀ k rc, e ≠ .kretprobeMmDecide k rc) (m : Maps) :
    (e.probe m).cbmmEager = m.cbmmEager ∧ (e.probe m).cbmmPrezero = m.cbmmPrezero := by
  obtain ⟨k, action, rfl⟩ | ⟨k, rc, rfl⟩ | ⟨f, hf⟩ := helps_cases e
  · have hest := estimated_kprobeMmEstimateChanges k action m
    exact ⟨hest.eager, hest.prezero⟩
  · exact absurd rfl (he k rc)
  · rw [hf.probe]
    exact outputs_withStorageAction f

theorem faithful_of_ne (he : ∀ k rc, e ≠ .kretprobeMmDecide k rc) : Faithful w e := by
  obtain ⟨heager, hprezero⟩ := outputs_of_ne he w.maps
  refine ⟨fun i hi ↦ ?_, fun i hi ↦ ?_⟩
  · have hnone := heager.trans (List.append_nil _).symm
    exact nomatch (Lists.eq_append_singleton_iff (o := none) hnone).1 hi
  · have hnone := hprezero.trans (List.append_nil _).symm
    exact nomatch (Lists.eq_append_singleton_iff (o := none) hnone).1 hi

/-- **What a decision submits** for eager paging is in the entry that it finds. -/
theorem submits_eager_iff {i : CbmmEagerPagingInputs} :
    ((Event.kretprobeMmDecide k rc).probe w.maps).cbmmEager = w.maps.cbmmEager ++ [i] ↔
      ∃ a, w.maps.cbmmActionHash.get? k = some a ∧ a.action = .eagerPaging ∧
        eagerInputs (rc.setWidth 32) a = i := by
  refine (Lists.eq_append_singleton_iff (decided_kretprobeMmDecide k rc w.maps).eager).trans ?_
  rw [Option.map_eq_some_iff]
  simp only [Option.filter_eq_some_iff, decide_eq_true_eq, and_assoc]

/-- And what it submits for prezeroing. -/
theorem submits_prezero_iff {i : CbmmAsyncPrezeroingInputs} :
    ((Event.kretprobeMmDecide k rc).probe w.maps).cbmmPrezero = w.maps.cbmmPrezero ++ [i] ↔
      ∃ a, w.maps.cbmmActionHash.get? k = some a ∧ a.action = .runPrezeroing ∧
        prezeroInputs (rc.setWidth 32) a = i := by
  refine (Lists.eq_append_singleton_iff (decided_kretprobeMmDecide k rc w.maps).prezero).trans ?_
  rw [Option.map_eq_some_iff]
  simp only [Option.filter_eq_some_iff, decide_eq_true_eq, and_assoc]

/-- **The inputs of a kind are the episode's**, and the kind the announced one. -/
def Episode.Covers (c : Episode) (a : CbmmAction) : Prop :=
  c.announced = a.action ∧ ∀ x : Input, x.action = a.action → c.Has x (x.get a)

/-- **A decision is faithful** where the entry that it finds is the episode's. -/
theorem faithful_decide_iff (ha : w.maps.cbmmActionHash.get? k = some a)
    (hc : w.episodes k = some c) (hstored : a.action ≠ .other) :
    Faithful w (.kretprobeMmDecide k rc) ↔ c.Covers a := by
  constructor
  · intro h
    -- the one event that is submitted is of the kind of the entry
    cases haction : a.action with
    | other => exact absurd haction hstored
    | eagerPaging =>
      obtain ⟨c', hc', hannounced, hfreq, hbenefit⟩ :=
        h.eager _ (submits_eager_iff.2 ⟨a, ha, haction, rfl⟩)
      obtain rfl := Option.some.inj (hc.symm.trans hc')
      refine ⟨hannounced.trans haction.symm, fun x hx ↦ ?_⟩
      cases x with
      | freqCycles => exact hfreq
      | greatestRangeBenefit => exact hbenefit
      | load => exact nomatch hx.trans haction
      | prezeroN => exact nomatch hx.trans haction
      | recentUsed => exact nomatch hx.trans haction
    | runPrezeroing =>
      obtain ⟨c', hc', hannounced, hload, hprezeroN, hused⟩ :=
        h.prezero _ (submits_prezero_iff.2 ⟨a, ha, haction, rfl⟩)
      obtain rfl := Option.some.inj (hc.symm.trans hc')
      refine ⟨hannounced.trans haction.symm, fun x hx ↦ ?_⟩
      cases x with
      | freqCycles => exact nomatch hx.trans haction
      | greatestRangeBenefit => exact nomatch hx.trans haction
      | load => exact hload
      | prezeroN => exact hprezeroN
      | recentUsed => exact hused
  · rintro ⟨hannounced, hinputs⟩
    -- and what is submitted has the inputs of that entry
    refine ⟨fun i hi ↦ ?_, fun i hi ↦ ?_⟩
    · obtain ⟨a', ha', haction, rfl⟩ := submits_eager_iff.1 hi
      obtain rfl := Option.some.inj (ha.symm.trans ha')
      exact ⟨c, hc, hannounced.trans haction, hinputs .freqCycles haction.symm,
        hinputs .greatestRangeBenefit haction.symm⟩
    · obtain ⟨a', ha', haction, rfl⟩ := submits_prezero_iff.1 hi
      obtain rfl := Option.some.inj (ha.symm.trans ha')
      exact ⟨c, hc, hannounced.trans haction, hinputs .load haction.symm,
        hinputs .prezeroN haction.symm, hinputs .recentUsed haction.symm⟩

/-- What an entry has is the episode's, by what the episode found. -/
theorem Traces.covers_iff (h : Traces c a) : c.Covers a ↔ ∀ l, c.left = some l →
    l.action = c.announced ∧
      ∀ x : Input, x.action = c.announced → x.get l ≠ 0 → (c.recorded x).isSome := by
  cases hleft : c.left with
  | none =>
    have haction : a.action = c.announced := by rw [h.action, hleft]; rfl
    refine ⟨fun _ ↦ nofun, fun _ ↦ ⟨haction.symm, fun x _ ↦ ?_⟩⟩
    rw [Episode.Has, h.inputs, hleft]
    cases c.recorded x with
    | none => exact .inl rfl
    | some v => exact .inr rfl
  | some l =>
    have haction : a.action = l.action := by rw [h.action, hleft]; rfl
    have hinputs : ∀ x : Input, x.get a = (c.recorded x).getD (x.get l) := fun x ↦ by
      rw [h.inputs, hleft]
      rfl
    constructor
    · rintro ⟨hannounced, hhas⟩ _ ⟨⟩
      refine ⟨haction.symm.trans hannounced.symm, fun x hx hne ↦ ?_⟩
      have hv := hhas x (hx.trans hannounced)
      rw [Episode.Has, hinputs] at hv
      cases hrec : c.recorded x with
      | some v => rfl
      | none =>
        rw [hrec] at hv
        exact absurd (hv.resolve_right nofun) hne
    · intro hall
      obtain ⟨hl, hrec⟩ := hall l rfl
      refine ⟨hl.symm.trans haction.symm, fun x hx ↦ ?_⟩
      rw [Episode.Has, hinputs]
      cases hx' : c.recorded x with
      | some v => exact .inr rfl
      | none =>
        refine .inl ?_
        by_contra hne
        have hsome := hrec x (hx.trans (haction.trans hl)) hne
        rw [hx'] at hsome
        exact Bool.false_ne_true hsome

/-- **An event is faithful exactly where it is clean.** -/
theorem Inv.faithful_iff (h : Inv w) : Faithful w e ↔ Clean w e := by
  by_cases he : ∃ k rc, e = .kretprobeMmDecide k rc
  · obtain ⟨k, rc, rfl⟩ := he
    cases hget : w.maps.cbmmActionHash.get? k with
    | none =>
      refine iff_of_true ⟨fun i hi ↦ ?_, fun i hi ↦ ?_⟩ ?_
      · obtain ⟨a, ha, -⟩ := submits_eager_iff.1 hi
        exact nomatch hget.symm.trans ha
      · obtain ⟨a, ha, -⟩ := submits_prezero_iff.1 hi
        exact nomatch hget.symm.trans ha
      · rintro k' rc' heq hsome
        obtain ⟨rfl, rfl⟩ := Event.kretprobeMmDecide.inj heq
        rw [hget] at hsome
        exact absurd hsome Bool.false_ne_true
    | some a =>
      obtain ⟨c, hc, htraces⟩ := h k a hget
      rw [faithful_decide_iff hget hc htraces.stored, htraces.covers_iff]
      constructor
      · rintro hclean k' rc' heq - c' l hc' hl
        obtain ⟨rfl, rfl⟩ := Event.kretprobeMmDecide.inj heq
        obtain rfl := Option.some.inj (hc.symm.trans hc')
        exact hclean l hl
      · intro hclean l hl
        exact hclean k rc rfl (Option.isSome_iff_exists.2 ⟨a, hget⟩) c l hc hl
  · have hne : ∀ k rc, e ≠ .kretprobeMmDecide k rc := fun k rc h ↦ he ⟨k, rc, h⟩
    exact iff_of_true (faithful_of_ne hne) fun k rc h ↦ absurd h (hne k rc)

/-- **Every decision is submitted with its own inputs** exactly along the runs in which each return
of `mm_decide` that finds an entry finds its own episode's, or one that is as good. -/
theorem faithful_iff_clean (es : List Event) :
    Run.Always step Faithful init es ↔ Run.Always step Clean init es :=
  Run.always_congr (fun _ _ _ h ↦ h.step) inv_init fun _ _ h ↦ h.faithful_iff

/-- The decision of an eager paging is missed, and the thread decides about prezeroing. -/
def missedDecision : List Event :=
  [.kprobeMmEstimateChanges 7 .eagerPaging, .kprobeMmEstimateChanges 7 .runPrezeroing,
    .kprobeMmEstimateDaemonCost 7 3, .kretprobeMmDecide 7 1]

/-- The decision about prezeroing is submitted as one about eager paging. -/
theorem not_faithful_of_missedDecision : ¬ ∀ es, Run.Always step Faithful init es := by
  intro hall
  obtain ⟨w, hw⟩ : ∃ w, Run.exec step init (missedDecision.take 3) = some w := ⟨_, rfl⟩
  have hrun : Run.Always step Faithful init
      (missedDecision.take 3 ++ .kretprobeMmDecide 7 1 :: []) := hall missedDecision
  have hlast := hrun.at_step hw
  obtain rfl := Option.some.inj hw
  obtain ⟨c, hc, hannounced, -⟩ := hlast.eager ⟨0, 0, 1⟩ rfl
  obtain rfl := Option.some.inj hc
  exact nomatch hannounced

end Law

end Cbmm
