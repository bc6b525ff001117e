import HugePageResearch.Library.Hash
import HugePageResearch.Library.Run
import Mathlib.Data.BitVec
import Mathlib.Data.List.Basic

/-!
# How long zswap takes

`bpf/zswap_runtime.bpf.c`: a probe on entering `zswap_store`, `zswap_load` or `zswap_invalidate`
notes the time under the thread, in one hash for each function, and a probe on leaving it submits
both times and removes the note.

A thread is in one call of a function at a time, and may be in calls of different functions. The
probes on leaving are attached after those on entering, so what is left was seen when it was
entered.

## The result

`good_iff_always_sound`: a note is removed and a call is reported in every state of a run exactly if
at every call that is left there was room for its note and the value it returns is none that
`IS_ERR` takes for an error. The probe on leaving returns at such a value, before it submits and
before it deletes, as the one of the fork probe does that it is taken from; there the value is a
task.

`good_of_few` gives the condition in terms of the calls alone: no such value, and never more threads
in the calls of a function than its hash has entries.
-/

namespace Zswap

/-! ### The program -/

/-- The functions that are traced. -/
inductive Kind where
  | store
  | load
  | invalidate
  deriving DecidableEq

/-- `zswap_event_t`. -/
structure ZswapEvent where
  pid : BitVec 32
  tgid : BitVec 32
  startTs : BitVec 64
  endTs : BitVec 64
  deriving DecidableEq

/-- The hashes, by `bpf_get_current_pid_tgid`, and what was submitted to the outputs. -/
structure Maps where
  stores : Dict (BitVec 64) (BitVec 64)
  loads : Dict (BitVec 64) (BitVec 64)
  invalidates : Dict (BitVec 64) (BitVec 64)
  zswapStoreEvents : List ZswapEvent
  zswapLoadEvents : List ZswapEvent
  zswapInvalidateEvents : List ZswapEvent

/-- The size of a hash that is declared without one. -/
def hashSize : ℕ := 10240

/-- `IS_ERR`: the last `MAX_ERRNO` addresses. -/
def isErr (x : BitVec 64) : Bool := (-4095 : BitVec 64) ≤ x

/-- The hash of a function. -/
def Maps.starts (m : Maps) : Kind → Dict (BitVec 64) (BitVec 64)
  | .store => m.stores
  | .load => m.loads
  | .invalidate => m.invalidates

/-- The hash of a function is replaced. -/
def Maps.setStarts (m : Maps) (d : Dict (BitVec 64) (BitVec 64)) : Kind → Maps
  | .store => { m with stores := d }
  | .load => { m with loads := d }
  | .invalidate => { m with invalidates := d }

/-- What was submitted for a function. -/
def Maps.events (m : Maps) : Kind → List ZswapEvent
  | .store => m.zswapStoreEvents
  | .load => m.zswapLoadEvents
  | .invalidate => m.zswapInvalidateEvents

/-- An event is submitted for a function. -/
def Maps.submit (m : Maps) (e : ZswapEvent) : Kind → Maps
  | .store => { m with zswapStoreEvents := m.zswapStoreEvents ++ [e] }
  | .load => { m with zswapLoadEvents := m.zswapLoadEvents ++ [e] }
  | .invalidate => { m with zswapInvalidateEvents := m.zswapInvalidateEvents ++ [e] }

/-- The event of a thread. -/
def zswapEvent (id startTs endTs : BitVec 64) : ZswapEvent where
  pid := id.setWidth 32
  tgid := (id >>> 32).setWidth 32
  startTs
  endTs

/-- What the probes on entering do. -/
def traceEntry (k : Kind) (id startTs : BitVec 64) (m : Maps) : Maps :=
  m.setStarts (Hash.update hashSize (m.starts k) id startTs) k

/-- What the probes on leaving do. -/
def traceReturn (k : Kind) (id rc endTs : BitVec 64) (m : Maps) : Maps :=
  match (m.starts k).get? id with
  | none => m
  | some startTs =>
    -- `task` is not used: none of the functions returns one
    if isErr rc then m
    else
      let m := m.submit (zswapEvent id startTs endTs) k
      m.setStarts ((m.starts k).erase id) k

/-- `trace_zswap_store_entry`. -/
def traceZswapStoreEntry : BitVec 64 → BitVec 64 → Maps → Maps := traceEntry .store

/-- `trace_zswap_store_return`. -/
def traceZswapStoreReturn : BitVec 64 → BitVec 64 → BitVec 64 → Maps → Maps := traceReturn .store

/-- `trace_zswap_load_entry`. -/
def traceZswapLoadEntry : BitVec 64 → BitVec 64 → Maps → Maps := traceEntry .load

/-- `trace_zswap_load_return`. -/
def traceZswapLoadReturn : BitVec 64 → BitVec 64 → BitVec 64 → Maps → Maps := traceReturn .load

/-- `trace_zswap_invalidate_entry`. -/
def traceZswapInvalidateEntry : BitVec 64 → BitVec 64 → Maps → Maps := traceEntry .invalidate

/-- `trace_zswap_invalidate_return`. -/
def traceZswapInvalidateReturn : BitVec 64 → BitVec 64 → BitVec 64 → Maps → Maps :=
  traceReturn .invalidate

/-! ### Runs -/

/-- What the probes see: the function, the thread, the value returned and the time. -/
inductive Event where
  | entry (k : Kind) (id ts : BitVec 64)
  | ret (k : Kind) (id rc ts : BitVec 64)
  deriving DecidableEq

/-- The probe that sees the event. -/
def Event.probe : Event → Maps → Maps
  | entry .store id ts => traceZswapStoreEntry id ts
  | entry .load id ts => traceZswapLoadEntry id ts
  | entry .invalidate id ts => traceZswapInvalidateEntry id ts
  | ret .store id rc ts => traceZswapStoreReturn id rc ts
  | ret .load id rc ts => traceZswapLoadReturn id rc ts
  | ret .invalidate id rc ts => traceZswapInvalidateReturn id rc ts

/-- A call in progress: when it was entered, and whether there was room for its note. -/
structure Call where
  start : BitVec 64
  room : Bool
  deriving DecidableEq

/-- A call that was left. -/
structure ReturnedCall where
  kind : Kind
  id : BitVec 64
  start : BitVec 64
  stop : BitVec 64
  deriving DecidableEq

/-- **The event that is expected of it**: the thread is the low half of the id and its process the
high half, and the times are those at which the call was entered and left. -/
def ReturnedCall.event (c : ReturnedCall) : ZswapEvent where
  pid := c.id.extractLsb' 0 32
  tgid := c.id.extractLsb' 32 32
  startTs := c.start
  endTs := c.stop

/-- The hashes and outputs, the call of each function that each thread is in, and the calls that
were left. -/
structure World where
  maps : Maps
  calls : Kind → BitVec 64 → Option Call
  returned : List ReturnedCall

/-- The call of a function that a thread is in is replaced. -/
def World.setCall (w : World) (k : Kind) (id : BitVec 64) (c : Option Call) :
    Kind → BitVec 64 → Option Call :=
  Function.update w.calls k (Function.update (w.calls k) id c)

/-- One event. A thread leaves the call that it is in. -/
def step (w : World) (e : Event) : Option World :=
  match e with
  | .entry k id ts =>
    if w.calls k id = none then
      some ⟨e.probe w.maps,
        w.setCall k id (some ⟨ts, decide (Hash.Fits hashSize (w.maps.starts k) id)⟩), w.returned⟩
    else none
  | .ret k id _ ts =>
    (w.calls k id).map fun c ↦
      ⟨e.probe w.maps, w.setCall k id none, w.returned ++ [⟨k, id, c.start, ts⟩]⟩

/-- The program is loaded. -/
def init : World := ⟨⟨.empty, .empty, .empty, [], [], []⟩, fun _ _ ↦ none, []⟩

/-! ### What is expected -/

/-- **A clean state**: no note of a thread outside the calls, and one event for each
call that was left, with the time at which that call was entered. -/
structure Good (w : World) : Prop where
  clean : ∀ id, (∀ k, w.calls k id = none) → ∀ k, (w.maps.starts k).get? id = none
  reported : ∀ k, w.maps.events k = (w.returned.filter fun c ↦ c.kind = k).map ReturnedCall.event

/-- At a call that is left there was room for its note, and the value is none that `IS_ERR` takes
for an error. -/
def Sound (w : World) : Event → Prop
  | .entry .. => True
  | .ret k id rc _ => isErr rc = false ∧ ∀ c, w.calls k id = some c → c.room = true

/-! ### The probes -/

section Probes

variable (m : Maps) (d : Dict (BitVec 64) (BitVec 64)) (e : ZswapEvent) (k k' : Kind)

@[simp] theorem starts_setStarts :
    (m.setStarts d k).starts k' = if k = k' then d else m.starts k' := by
  cases k with
  | store => cases k' <;> rfl
  | load => cases k' <;> rfl
  | invalidate => cases k' <;> rfl

@[simp] theorem events_setStarts : (m.setStarts d k).events k' = m.events k' := by
  cases k <;> rfl

@[simp] theorem starts_submit : (m.submit e k).starts k' = m.starts k' := by
  cases k <;> rfl

@[simp] theorem events_submit :
    (m.submit e k).events k' = m.events k' ++ if k = k' then [e] else [] := by
  cases k with
  | store => cases k' <;> simp [Maps.submit, Maps.events]
  | load => cases k' <;> simp [Maps.submit, Maps.events]
  | invalidate => cases k' <;> simp [Maps.submit, Maps.events]

variable (id ts rc : BitVec 64)

theorem probe_entry : (Event.entry k id ts).probe m = traceEntry k id ts m := by
  cases k <;> rfl

theorem probe_ret : (Event.ret k id rc ts).probe m = traceReturn k id rc ts m := by
  cases k <;> rfl

/-- **A value that `IS_ERR` takes for an error** leaves everything as it is, the note included. -/
theorem traceReturn_of_isErr (h : isErr rc = true) : traceReturn k id rc ts m = m := by
  rw [traceReturn]
  split
  · rfl
  · exact if_pos h

theorem traceReturn_of_none (h : (m.starts k).get? id = none) : traceReturn k id rc ts m = m := by
  rw [traceReturn, h]

/-- Every other value: the call is reported and its note removed. -/
theorem traceReturn_of_some {start : BitVec 64} (hrc : isErr rc = false)
    (h : (m.starts k).get? id = some start) : traceReturn k id rc ts m =
      (m.submit (zswapEvent id start ts) k).setStarts ((m.starts k).erase id) k := by
  rw [traceReturn, h]
  show (if isErr rc = true then m else _) = _
  rw [if_neg (by rw [hrc]; decide)]
  simp only [starts_submit]

/-- What is submitted is what is expected of the call. -/
theorem zswapEvent_eq (c : ReturnedCall) : zswapEvent c.id c.start c.stop = c.event := by
  have hpid : c.id.setWidth 32 = c.id.extractLsb' 0 32 := BitVec.setWidth_eq_extractLsb' (by omega)
  rw [zswapEvent, ReturnedCall.event, hpid]
  rfl

end Probes

/-! ### The invariant -/

/-- The note of a call. -/
def Call.note (c : Call) : Option (BitVec 64) := if c.room then some c.start else none

/-- **What the hashes hold**: the notes of the calls in progress for which there was room. -/
structure Inv (w : World) : Prop where
  notes : ∀ k id, (w.maps.starts k).get? id = (w.calls k id).bind Call.note
  reported : ∀ k, w.maps.events k =
    (w.returned.filter fun c ↦ c.kind = k).map ReturnedCall.event

theorem inv_init : Inv init where
  notes k _ := by cases k <;> rfl
  reported k := by cases k <;> rfl

theorem Inv.good {w : World} (h : Inv w) : Good w where
  clean id hid k := by
    rw [h.notes, hid k]
    rfl
  reported := h.reported

section Step

variable {w w' : World} {k k' : Kind} {id id' rc ts : BitVec 64}

theorem setCall_apply (w : World) (k k' : Kind) (id id' : BitVec 64) (c : Option Call) :
    w.setCall k id c k' id' = if k = k' ∧ id = id' then c else w.calls k' id' := by
  rw [World.setCall, Function.update_apply]
  by_cases hk : k = k'
  · subst hk
    rw [if_pos rfl, Function.update_apply]
    simp only [true_and, eq_comm]
  · rw [if_neg (Ne.symm hk), if_neg fun h ↦ hk h.1]

/-- What entering a call does. -/
theorem step_entry (h : step w (.entry k id ts) = some w') : w.calls k id = none ∧
    w' = ⟨traceEntry k id ts w.maps, w.setCall k id
      (some ⟨ts, decide (Hash.Fits hashSize (w.maps.starts k) id)⟩), w.returned⟩ := by
  rw [step] at h
  split_ifs at h with hcall
  exact ⟨hcall, (Option.some.inj h).symm.trans (by rw [probe_entry])⟩

/-- What leaving a call does. -/
theorem step_ret (h : step w (.ret k id rc ts) = some w') : ∃ c, w.calls k id = some c ∧
    w' = ⟨traceReturn k id rc ts w.maps, w.setCall k id none,
      w.returned ++ [⟨k, id, c.start, ts⟩]⟩ := by
  obtain ⟨c, hc, rfl⟩ := Option.map_eq_some_iff.1 h
  exact ⟨c, hc, by rw [probe_ret]⟩

theorem Inv.entry (h : Inv w) (hw : step w (.entry k id ts) = some w') : Inv w' := by
  obtain ⟨-, rfl⟩ := step_entry hw
  refine ⟨fun k' id' ↦ ?_, fun k' ↦ ?_⟩
  · show ((w.maps.setStarts _ k).starts k').get? id' = (w.setCall k id _ k' id').bind Call.note
    rw [starts_setStarts, setCall_apply]
    by_cases hk : k = k'
    · subst hk
      rw [if_pos rfl]
      by_cases hid : id = id'
      · subst hid
        rw [if_pos ⟨rfl, rfl⟩]
        by_cases hroom : Hash.Fits hashSize (w.maps.starts k) id
        · rw [Hash.get?_update_of_fits hroom, decide_eq_true hroom]
          rfl
        · rw [Hash.get?_update_of_not_fits hroom, decide_eq_false hroom]
          rfl
      · rw [Hash.get?_update_of_ne hid, h.notes, if_neg fun hboth ↦ hid hboth.2]
    · rw [if_neg hk, if_neg fun hboth ↦ hk hboth.1, h.notes]
  · show (w.maps.setStarts _ k).events k' = _
    rw [events_setStarts, h.reported]

/-- **A sound leaving** reports the call and removes its note. -/
theorem Inv.ret (h : Inv w) (hsound : Sound w (.ret k id rc ts))
    (hw : step w (.ret k id rc ts) = some w') : Inv w' := by
  obtain ⟨c, hc, rfl⟩ := step_ret hw
  have hnote : (w.maps.starts k).get? id = some c.start := by
    rw [h.notes, hc]
    exact if_pos (hsound.2 c hc)
  rw [traceReturn_of_some _ _ _ _ _ hsound.1 hnote]
  refine ⟨fun k' id' ↦ ?_, fun k' ↦ ?_⟩
  · show (((w.maps.submit _ k).setStarts _ k).starts k').get? id' =
      (w.setCall k id none k' id').bind Call.note
    rw [starts_setStarts, setCall_apply, starts_submit]
    by_cases hk : k = k'
    · subst hk
      rw [if_pos rfl, Dict.get?_erase]
      by_cases hid : id = id'
      · rw [if_pos hid, if_pos ⟨rfl, hid⟩]
        rfl
      · rw [if_neg hid, if_neg fun hboth ↦ hid hboth.2, h.notes]
    · rw [if_neg hk, if_neg fun hboth ↦ hk hboth.1, h.notes]
  · show ((w.maps.submit _ k).setStarts _ k).events k' = _
    rw [events_setStarts, events_submit, h.reported, List.filter_append, List.map_append]
    by_cases hk : k = k'
    · rw [if_pos hk, List.filter_cons_of_pos (by simpa using hk)]
      exact congrArg (fun e ↦ _ ++ [e]) (zswapEvent_eq ⟨k, id, c.start, ts⟩)
    · rw [if_neg hk, List.filter_cons_of_neg (by simpa using hk)]
      rfl

/-- **What sound steps keep.** -/
theorem Inv.step {e : Event} (h : Inv w) (hsound : Sound w e) (hw : step w e = some w') :
    Inv w' := by
  cases e with
  | entry => exact h.entry hw
  | ret => exact h.ret hsound hw

/-- **A step that is not sound** leaves a call that is never reported. -/
theorem Inv.not_good {e : Event} (h : Inv w) (hsound : ¬ Sound w e)
    (hw : Zswap.step w e = some w') : ¬ Good w' := by
  cases e with
  | entry => exact absurd trivial hsound
  | ret k id rc ts =>
    obtain ⟨c, hc, rfl⟩ := step_ret hw
    have hsame : traceReturn k id rc ts w.maps = w.maps := by
      by_cases hrc : isErr rc = true
      · exact traceReturn_of_isErr _ _ _ _ _ hrc
      · refine traceReturn_of_none _ _ _ _ _ ?_
        have hroom : ¬ c.room = true := fun hroom ↦
          hsound ⟨Bool.not_eq_true _ ▸ hrc, fun c' hc' ↦ by
            rwa [Option.some.inj (hc'.symm.trans hc)]⟩
        rw [h.notes, hc]
        exact if_neg hroom
    intro hgood
    have hreported := hgood.reported k
    rw [hsame] at hreported
    have hlength := congrArg List.length hreported
    rw [h.reported, List.length_map, List.length_map, List.filter_append, List.length_append,
      List.filter_cons_of_pos (by simp), List.length_cons] at hlength
    omega

end Step

/-- **In every state of a run the notes are removed and the calls reported** exactly if every call
that is left had room for its note and returns a value that `IS_ERR` does not take for an error. -/
theorem good_iff_always_sound {es : List Event} {w : World} (h : Run.exec step init es = some w) :
    (∀ pre u, pre <+: es → Run.exec step init pre = some u → Good u) ↔
      Run.Always step Sound init es :=
  Run.forall_prefix_iff_always (fun _ _ _ hi ↦ hi.step) (fun _ hi ↦ hi.good)
    (fun _ _ _ hi ↦ hi.not_good) inv_init h

/-- A call that returns `0`. -/
theorem good_iff_always_sound_single :
    (∀ pre u, pre <+: [.entry .store 7 10, .ret .store 7 0 20] →
      Run.exec step init pre = some u → Good u) ↔
        Run.Always step Sound init [.entry .store 7 10, .ret .store 7 0 20] :=
  good_iff_always_sound rfl

/-- **A call of `zswap_store` that returns `-EINVAL`** leaves its note and is not reported. -/
theorem not_good_of_einval : ∃ w, Run.exec step init [.entry .store 7 10, .ret .store 7 (-22) 20] =
    some w ∧ (∀ k, w.calls k 7 = none) ∧ (w.maps.starts .store).get? 7 = some 10 ∧
      w.returned = [⟨.store, 7, 10, 20⟩] ∧ w.maps.events .store = [] ∧ ¬ Good w := by
  refine ⟨_, rfl, fun k ↦ by cases k <;> rfl, by decide, by decide, by decide, fun hgood ↦ ?_⟩
  exact absurd (hgood.clean 7 (fun k ↦ by cases k <;> rfl) .store) (by decide)

/-! ### Room for the notes -/

/-- **Fewer threads than entries** are in the calls of a function that is entered, and no value that
is returned is taken for an error. -/
def Few (w : World) : Event → Prop
  | .entry k _ _ =>
    ∃ ids : List (BitVec 64), ids.length < hashSize ∧ ∀ id, w.calls k id ≠ none → id ∈ ids
  | .ret _ _ rc _ => isErr rc = false

/-- There is room where so few threads are in the calls. -/
theorem Inv.fits {w : World} (h : Inv w) {k : Kind} {ids : List (BitVec 64)}
    (hlt : ids.length < hashSize) (hids : ∀ id, w.calls k id ≠ none → id ∈ ids) (id : BitVec 64) :
    Hash.Fits hashSize (w.maps.starts k) id := by
  have hsub : (w.maps.starts k).keys ⊆ ids := fun id' hid' ↦ by
    obtain ⟨start, hstart⟩ := Dict.exists_get?_of_mem_keys hid'
    refine hids id' fun hnone ↦ ?_
    rw [h.notes, hnone] at hstart
    exact nomatch hstart
  have hle := (List.subperm_of_subset (w.maps.starts k).nodupKeys hsub).length_le
  rw [List.length_map] at hle
  exact .inr (Nat.lt_of_le_of_lt hle hlt)

/-- **Where no more threads than entries are in the calls of a function and no value is taken for an
error**, every note is removed and every call reported, in every state of the run. -/
theorem good_of_few {es : List Event} {w : World} (hfew : Run.Always step Few init es)
    (h : Run.exec step init es = some w) : Good w := by
  have hstep : ∀ s e s', (Inv s ∧ ∀ k id c, s.calls k id = some c → c.room = true) → Few s e →
      step s e = some s' → Inv s' ∧ ∀ k id c, s'.calls k id = some c → c.room = true := by
    intro s e s' hi he hs
    cases e with
    | entry k id ts =>
      refine ⟨hi.1.entry hs, fun k' id' c hc ↦ ?_⟩
      obtain ⟨ids, hlt, hids⟩ := he
      obtain ⟨-, rfl⟩ := step_entry hs
      rw [show World.calls _ k' id' = s.setCall k id _ k' id' from rfl, setCall_apply] at hc
      split_ifs at hc
      · obtain rfl := Option.some.inj hc
        exact decide_eq_true (hi.1.fits hlt hids id)
      · exact hi.2 k' id' c hc
    | ret k id rc ts =>
      refine ⟨hi.1.ret ⟨he, hi.2 k id⟩ hs, fun k' id' c hc ↦ ?_⟩
      obtain ⟨c', -, rfl⟩ := step_ret hs
      rw [show World.calls _ k' id' = s.setCall k id none k' id' from rfl, setCall_apply] at hc
      split_ifs at hc
      exact hi.2 k' id' c hc
  exact (Run.exec_invariant_of_always hstep ⟨inv_init, nofun⟩ hfew h).1.good

end Zswap
