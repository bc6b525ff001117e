import HugePageResearch.Library.Hash
import HugePageResearch.Library.Latest
import HugePageResearch.Library.Run
import Mathlib.Data.BitVec

/-!
# The syscalls of a trace

`bpf/thp_trace.bpf.c`: the probes on entering and leaving `madvise` and `munmap`. The arguments of a
call are not at hand when it is left, so that they are kept under the thread that entered it, in one
hash for each syscall.

A thread makes one such call at a time. Leaving it may go unseen, its id may be taken by another
thread, and calls may be in progress when the program is loaded.

## The result

`exit_carries`: what is reported for leaving a call carries the arguments that were reported for the
latest entering of that syscall by a thread of the same id, or the placeholder, and no entering is
used twice.
-/

namespace ThpTrace

/-! ### The program -/

/-- A thread, by the two halves of `bpf_get_current_pid_tgid`. -/
structure Thread where
  tgid : BitVec 32
  pid : BitVec 32
  deriving DecidableEq

/-- `bpf_get_current_pid_tgid`. -/
def Thread.pidTgid (t : Thread) : BitVec 64 := t.tgid ++ t.pid

/-- `thp_syscall_enter_state_t`. -/
structure SyscallEnterState where
  address : BitVec 64
  length : BitVec 64
  behavior : BitVec 64
  deriving DecidableEq

/-- The syscalls that are traced. -/
inductive Syscall where
  | madvise
  | munmap
  deriving DecidableEq

/-- `SYSCALL_MADVISE` and `SYSCALL_MUNMAP`. -/
def Syscall.id : Syscall → ℕ
  | madvise => 1
  | munmap => 2

/-- `thp_syscall_event_t`. -/
structure SyscallEvent where
  pid : BitVec 32
  tgid : BitVec 32
  tsNs : BitVec 64
  syscallId : ℕ
  phase : ℕ
  address : BitVec 64
  length : BitVec 64
  behavior : BitVec 64
  ret : BitVec 64
  deriving DecidableEq

/-- The hashes, and what was submitted. -/
structure Maps where
  madviseEnterState : Dict (BitVec 64) SyscallEnterState
  munmapEnterState : Dict (BitVec 64) SyscallEnterState
  thpSyscallEvents : List SyscallEvent

/-- The size of the hashes. -/
def hashSize : ℕ := 32768

/-- The hash of a syscall. -/
def Maps.enterState (m : Maps) : Syscall → Dict (BitVec 64) SyscallEnterState
  | .madvise => m.madviseEnterState
  | .munmap => m.munmapEnterState

/-- The hash of a syscall is replaced. -/
def Maps.setEnterState (m : Maps) (d : Dict (BitVec 64) SyscallEnterState) : Syscall → Maps
  | .madvise => { m with madviseEnterState := d }
  | .munmap => { m with munmapEnterState := d }

/-- An event is submitted. -/
def Maps.submit (m : Maps) (e : SyscallEvent) : Maps :=
  { m with thpSyscallEvents := m.thpSyscallEvents ++ [e] }

/-- The event of a phase of a call. -/
def syscallEvent (s : Syscall) (phase : ℕ) (t : Thread) (ts : BitVec 64)
    (state : SyscallEnterState) (ret : BitVec 64) : SyscallEvent :=
  ⟨t.pid, t.tgid, ts, s.id, phase, state.address, state.length, state.behavior, ret⟩

/-- What both entries do. -/
def sysEnter (s : Syscall) (t : Thread) (ts : BitVec 64) (state : SyscallEnterState)
    (m : Maps) : Maps :=
  (m.setEnterState (Hash.update hashSize (m.enterState s) t.pidTgid state) s).submit
    (syscallEvent s 0 t ts state 0)

/-- What both exits do. The behaviour is read off the state that was found. -/
def sysExit (s : Syscall) (behavior : SyscallEnterState → BitVec 64) (t : Thread)
    (ts ret : BitVec 64) (m : Maps) : Maps :=
  match (m.enterState s).get? t.pidTgid with
  | some state =>
    (m.setEnterState ((m.enterState s).erase t.pidTgid) s).submit
      (syscallEvent s 1 t ts { state with behavior := behavior state } ret)
  -- an exit without its entry is reported, with nothing of the call
  | none => m.submit (syscallEvent s 1 t ts ⟨0, 0, -1⟩ ret)

/-- `sys_enter_madvise`. -/
def sysEnterMadvise (t : Thread) (ts start lenIn behavior : BitVec 64) : Maps → Maps :=
  sysEnter .madvise t ts ⟨start, lenIn, behavior⟩

/-- `sys_exit_madvise`. -/
def sysExitMadvise (t : Thread) (ts ret : BitVec 64) : Maps → Maps :=
  sysExit .madvise (fun state ↦ state.behavior) t ts ret

/-- `sys_enter_munmap`. -/
def sysEnterMunmap (t : Thread) (ts addr len : BitVec 64) : Maps → Maps :=
  sysEnter .munmap t ts ⟨addr, len, -1⟩

/-- `sys_exit_munmap`. -/
def sysExitMunmap (t : Thread) (ts ret : BitVec 64) : Maps → Maps :=
  sysExit .munmap (fun _ ↦ -1) t ts ret

/-! ### Runs -/

/-- What the probes see. -/
inductive Event where
  | enterMadvise (t : Thread) (ts start lenIn behavior : BitVec 64)
  | exitMadvise (t : Thread) (ts ret : BitVec 64)
  | enterMunmap (t : Thread) (ts addr len : BitVec 64)
  | exitMunmap (t : Thread) (ts ret : BitVec 64)
  deriving DecidableEq

namespace Event

/-- The call that is entered or left. -/
def syscall : Event → Syscall
  | enterMadvise .. => .madvise
  | exitMadvise .. => .madvise
  | enterMunmap .. => .munmap
  | exitMunmap .. => .munmap

/-- The thread that enters or leaves it. -/
def thread : Event → Thread
  | enterMadvise t .. => t
  | exitMadvise t .. => t
  | enterMunmap t .. => t
  | exitMunmap t .. => t

/-- The call is entered. -/
def Enters : Event → Prop
  | enterMadvise .. => True
  | enterMunmap .. => True
  | _ => False

instance : DecidablePred Enters
  | enterMadvise .. => isTrue trivial
  | enterMunmap .. => isTrue trivial
  | exitMadvise .. => isFalse id
  | exitMunmap .. => isFalse id

/-- The probe that sees the event. -/
def probe : Event → Maps → Maps
  | enterMadvise t ts start lenIn behavior => sysEnterMadvise t ts start lenIn behavior
  | exitMadvise t ts ret => sysExitMadvise t ts ret
  | enterMunmap t ts addr len => sysEnterMunmap t ts addr len
  | exitMunmap t ts ret => sysExitMunmap t ts ret

end Event

/-- A call in progress: the thread group and the syscall. -/
structure Call where
  tgid : BitVec 32
  syscall : Syscall
  deriving DecidableEq

/-- The hashes, and the call that the thread of each id is in. -/
structure World where
  maps : Maps
  calls : BitVec 32 → Option Call

/-- One event. A thread leaves the call that it is in. It enters one also where leaving the call
before went unseen, and so does another thread that took its id. -/
def step (w : World) (e : Event) : Option World :=
  let call : Call := ⟨e.thread.tgid, e.syscall⟩
  if e.Enters then
    some ⟨e.probe w.maps, Function.update w.calls e.thread.pid (some call)⟩
  else if w.calls e.thread.pid = some call then
    some ⟨e.probe w.maps, Function.update w.calls e.thread.pid none⟩
  else none

/-- The program is loaded while calls are in progress. -/
def init (calls : BitVec 32 → Option Call) : World := ⟨⟨.empty, .empty, []⟩, calls⟩

/-! ### What is expected -/

namespace Event

/-- The arguments of a call that is entered. -/
def args : Event → SyscallEnterState
  | enterMadvise _ _ start lenIn behavior => ⟨start, lenIn, behavior⟩
  | enterMunmap _ _ addr len => ⟨addr, len, -1⟩
  | _ => ⟨0, 0, -1⟩

end Event

/-- A thread of the id enters the syscall. -/
def EntersAt (es : List Event) (s : Syscall) (pid : BitVec 32) (i : ℕ) : Prop :=
  ∃ e ∈ es[i]?, e.Enters ∧ e.syscall = s ∧ e.thread.pid = pid

/-- The address, the length and the behaviour are the given ones. -/
structure Carries (r : SyscallEvent) (state : SyscallEnterState) : Prop where
  address : r.address = state.address
  length : r.length = state.length
  behavior : r.behavior = state.behavior

/-- **What is reported for leaving a call**, where its arguments are those of the entering at `i`,
if at all. -/
structure LeftWith (es : List Event) (j : ℕ) (e : Event) (used : Option ℕ) (r : SyscallEvent) :
    Prop where
  phase : r.phase = 1
  syscallId : r.syscallId = e.syscall.id
  pid : r.pid = e.thread.pid
  tgid : r.tgid = e.thread.tgid
  placeholder : used = none → Carries r ⟨0, 0, -1⟩
  carries : ∀ i, used = some i → LastBelow (EntersAt es e.syscall e.thread.pid) j i ∧
    ∃ e' ∈ es[i]?, Carries r e'.args

/-! ### The probes -/

section Probes

variable {m m' : Maps} {s s' : Syscall} {t t' : Thread} {e : Event}

theorem pidTgid_injective (h : t.pidTgid = t'.pidTgid) : t = t' := by
  have hnat : ∀ t : Thread, t.pidTgid.toNat = t.tgid.toNat * 2 ^ 32 + t.pid.toNat := fun t ↦ by
    rw [Thread.pidTgid, BitVec.toNat_append, ← Nat.shiftLeft_add_eq_or_of_lt t.pid.isLt,
      Nat.shiftLeft_eq]
  have heq := congrArg BitVec.toNat h
  rw [hnat, hnat] at heq
  have hlt := t.pid.isLt
  have hlt' := t'.pid.isLt
  have htgid : t.tgid = t'.tgid := BitVec.eq_of_toNat_eq (by omega)
  have hpid : t.pid = t'.pid := BitVec.eq_of_toNat_eq (by omega)
  exact (Thread.mk.injEq _ _ _ _).mpr ⟨htgid, hpid⟩

@[simp] theorem enterState_submit (m : Maps) (r : SyscallEvent) (s : Syscall) :
    (m.submit r).enterState s = m.enterState s := by
  cases s with
  | madvise => rfl
  | munmap => rfl

@[simp] theorem thpSyscallEvents_submit (m : Maps) (r : SyscallEvent) :
    (m.submit r).thpSyscallEvents = m.thpSyscallEvents ++ [r] := rfl

theorem enterState_setEnterState (m : Maps) (d : Dict (BitVec 64) SyscallEnterState)
    (s s' : Syscall) :
    (m.setEnterState d s).enterState s' = if s = s' then d else m.enterState s' := by
  cases s with
  | madvise => cases s' with
    | madvise => rfl
    | munmap => rfl
  | munmap => cases s' with
    | madvise => rfl
    | munmap => rfl

@[simp] theorem thpSyscallEvents_setEnterState (m : Maps) (d : Dict (BitVec 64) SyscallEnterState)
    (s : Syscall) : (m.setEnterState d s).thpSyscallEvents = m.thpSyscallEvents := by
  cases s with
  | madvise => rfl
  | munmap => rfl

/-- **What the probe of an event does**: it touches the state of the thread and the syscall only,
and submits one event. -/
structure Probed (e : Event) (m m' : Maps) (r : SyscallEvent) : Prop where
  frame : ∀ s t, (s ≠ e.syscall ∨ t ≠ e.thread) →
    (m'.enterState s).get? t.pidTgid = (m.enterState s).get? t.pidTgid
  submits : m'.thpSyscallEvents = m.thpSyscallEvents ++ [r]
  pid : r.pid = e.thread.pid
  tgid : r.tgid = e.thread.tgid
  syscallId : r.syscallId = e.syscall.id

/-- The state after an entry is that of the call, or absent. -/
theorem probe_enters (he : e.Enters) (m : Maps) : ∃ r, Probed e m (e.probe m) r ∧
    (((e.probe m).enterState e.syscall).get? e.thread.pidTgid = some e.args ∨
      ((e.probe m).enterState e.syscall).get? e.thread.pidTgid = none) := by
  obtain ⟨ts, hprobe⟩ : ∃ ts, e.probe m = sysEnter e.syscall e.thread ts e.args m := by
    cases e with
    | enterMadvise t ts => exact ⟨ts, rfl⟩
    | enterMunmap t ts => exact ⟨ts, rfl⟩
    | exitMadvise => exact he.elim
    | exitMunmap => exact he.elim
  rw [hprobe, sysEnter]
  refine ⟨syscallEvent e.syscall 0 e.thread ts e.args 0,
    ⟨fun s t hne ↦ ?_, ?_, rfl, rfl, rfl⟩, ?_⟩
  · rw [enterState_submit, enterState_setEnterState]
    split_ifs with hs
    · subst hs
      refine Hash.get?_update_of_ne fun hkey ↦ ?_
      exact hne.elim (fun h ↦ h rfl) fun h ↦ h (pidTgid_injective hkey).symm
    · rfl
  · rw [thpSyscallEvents_submit, thpSyscallEvents_setEnterState]
  · rw [enterState_submit, enterState_setEnterState, if_pos rfl]
    exact Hash.get?_update_self

/-- An exit reports the state that it finds and removes it. -/
theorem probe_exits (he : ¬ e.Enters) (m : Maps) : ∃ r, Probed e m (e.probe m) r ∧
    ((e.probe m).enterState e.syscall).get? e.thread.pidTgid = none ∧ r.phase = 1 ∧
    ((m.enterState e.syscall).get? e.thread.pidTgid = none → Carries r ⟨0, 0, -1⟩) ∧
    ∀ state, (m.enterState e.syscall).get? e.thread.pidTgid = some state →
      (e.syscall = .munmap → state.behavior = -1) → Carries r state := by
  obtain ⟨ts, ret, behavior, hprobe, hmadvise, hmunmap⟩ : ∃ ts ret behavior,
      e.probe m = sysExit e.syscall behavior e.thread ts ret m ∧
      (e.syscall = .madvise → behavior = fun state ↦ state.behavior) ∧
      (e.syscall = .munmap → behavior = fun _ ↦ -1) := by
    cases e with
    | enterMadvise => exact absurd trivial he
    | enterMunmap => exact absurd trivial he
    | exitMadvise t ts ret => exact ⟨ts, ret, _, rfl, fun _ ↦ rfl, nofun⟩
    | exitMunmap t ts ret => exact ⟨ts, ret, _, rfl, nofun, fun _ ↦ rfl⟩
  rw [hprobe, sysExit]
  cases hget : (m.enterState e.syscall).get? e.thread.pidTgid with
  | none =>
    refine ⟨syscallEvent e.syscall 1 e.thread ts ⟨0, 0, -1⟩ ret,
      ⟨fun s t _ ↦ ?_, rfl, rfl, rfl, rfl⟩, ?_, rfl, fun _ ↦ ⟨rfl, rfl, rfl⟩, nofun⟩
    · rw [enterState_submit]
    · rw [enterState_submit, hget]
  | some state =>
    refine ⟨syscallEvent e.syscall 1 e.thread ts { state with behavior := behavior state } ret,
      ⟨fun s t hne ↦ ?_, ?_, rfl, rfl, rfl⟩, ?_, rfl, nofun, ?_⟩
    · rw [enterState_submit, enterState_setEnterState]
      split_ifs with hs
      · subst hs
        refine (Dict.get?_erase _ _ _).trans (if_neg fun hkey ↦ ?_)
        exact hne.elim (fun h ↦ h rfl) fun h ↦ h (pidTgid_injective hkey).symm
      · rfl
    · show (Maps.submit _ _).thpSyscallEvents = _
      rw [thpSyscallEvents_submit, thpSyscallEvents_setEnterState]
    · rw [enterState_submit, enterState_setEnterState, if_pos rfl]
      exact (Dict.get?_erase _ _ _).trans (if_pos rfl)
    · rintro _ ⟨⟩ hbehavior
      refine ⟨rfl, rfl, ?_⟩
      show behavior state = state.behavior
      cases hs : e.syscall with
      | madvise => rw [hmadvise hs]
      | munmap => rw [hmunmap hs, hbehavior hs]

end Probes

/-! ### The invariant -/

section Invariant

variable {es : List Event} {e : Event} {n : ℕ} {w w' : World} {s : Syscall} {t : Thread}
  {pid : BitVec 32}

/-- The thread enters or leaves the syscall. -/
def TouchesState (es : List Event) (s : Syscall) (t : Thread) (i : ℕ) : Prop :=
  ∃ e ∈ es[i]?, e.syscall = s ∧ e.thread = t

/-- The thread enters the syscall. -/
def WritesState (es : List Event) (s : Syscall) (t : Thread) (i : ℕ) : Prop :=
  ∃ e ∈ es[i]?, e.Enters ∧ e.syscall = s ∧ e.thread = t

/-- A thread of the id enters or leaves a call. -/
def Acts (es : List Event) (pid : BitVec 32) (i : ℕ) : Prop := ∃ e ∈ es[i]?, e.thread.pid = pid

/-- The arguments of the call that is entered at a position. -/
def argsAt (es : List Event) (i : ℕ) : SyscallEnterState :=
  (es[i]?.map Event.args).getD ⟨0, 0, -1⟩

/-- What is used for leaving a call at `j`: the latest thing that a thread of its id did before is
to enter it. -/
def Uses (es : List Event) (i j : ℕ) : Prop :=
  ∃ e ∈ es[j]?, ¬ e.Enters ∧ LastBelow (Acts es e.thread.pid) j i ∧
    WritesState es e.syscall e.thread i

/-- **What the hashes hold and what was submitted** after the first `n` events. -/
structure Inv (es : List Event) (n : ℕ) (w : World) : Prop where
  length : w.maps.thpSyscallEvents.length = n
  state : ∀ s t, Recalls (TouchesState es s t) (WritesState es s t) (argsAt es) n
    ((w.maps.enterState s).get? t.pidTgid)
  /-- A call that was not in progress at first was entered by the latest thing its thread did. -/
  calls : ∀ pid call, w.calls pid = some call → (∀ i, i < n → ¬ Acts es pid i) ∨
    ∃ i, LastBelow (Acts es pid) n i ∧ WritesState es call.syscall ⟨call.tgid, pid⟩ i
  reports : ∀ j, j < n → ∀ e ∈ es[j]?, ¬ e.Enters →
    ∃ r used, w.maps.thpSyscallEvents[j]? = some r ∧ LeftWith es j e used r ∧
      ∀ i, used = some i → Uses es i j

theorem inv_init (calls : BitVec 32 → Option Call) : Inv es 0 (init calls) where
  length := rfl
  state s _ := by
    cases s with
    | madvise => exact recalls_none
    | munmap => exact recalls_none
  calls _ _ _ := .inl fun _ h ↦ absurd h (Nat.not_lt_zero _)
  reports _ h := absurd h (Nat.not_lt_zero _)

/-- The state of the other threads and the other syscall is recalled as before. -/
theorem Inv.state_of_frame (h : Inv es n w) (he : es[n]? = some e) {m' : Maps} {r : SyscallEvent}
    (hp : Probed e w.maps m' r) (hne : s ≠ e.syscall ∨ t ≠ e.thread) :
    Recalls (TouchesState es s t) (WritesState es s t) (argsAt es) (n + 1)
      ((m'.enterState s).get? t.pidTgid) := by
  rw [hp.frame s t hne]
  refine (h.state s t).keep fun htouch ↦ ?_
  obtain ⟨hs, ht⟩ := (exists_at_iff he).1 htouch
  exact hne.elim (fun h ↦ h hs.symm) fun h ↦ h ht.symm

/-- The calls of the other ids are in progress as before. -/
theorem Inv.calls_of_ne (h : Inv es n w) (he : es[n]? = some e) (hpid : e.thread.pid ≠ pid)
    {call : Call} (hcall : w.calls pid = some call) : (∀ i, i < n + 1 → ¬ Acts es pid i) ∨
      ∃ i, LastBelow (Acts es pid) (n + 1) i ∧ WritesState es call.syscall ⟨call.tgid, pid⟩ i := by
  have hnot : ¬ Acts es pid n := fun hacts ↦ hpid ((exists_at_iff he).1 hacts)
  obtain hnone | ⟨i, hi, hwrites⟩ := h.calls pid call hcall
  · refine .inl fun i hi hacts ↦ ?_
    obtain hlt | rfl := Nat.lt_succ_iff_lt_or_eq.1 hi
    · exact hnone i hlt hacts
    · exact hnot hacts
  · exact .inr ⟨i, hi.succ hnot, hwrites⟩

/-- What was reported stays. -/
theorem Inv.reports_of_probed (h : Inv es n w) {m' : Maps} {r : SyscallEvent}
    (hp : Probed e w.maps m' r) (j : ℕ) (hj : j < n) (e' : Event) (he' : e' ∈ es[j]?)
    (hexit : ¬ e'.Enters) : ∃ r used, m'.thpSyscallEvents[j]? = some r ∧ LeftWith es j e' used r ∧
      ∀ i, used = some i → Uses es i j := by
  obtain ⟨r', used, hr', hleft, huses⟩ := h.reports j hj e' he' hexit
  refine ⟨r', used, ?_, hleft, huses⟩
  rw [hp.submits, List.getElem?_append_left (h.length.symm ▸ hj), hr']

/-- **Entering a call keeps the invariant.** -/
theorem Inv.enter (h : Inv es n w) (he : es[n]? = some e) (henters : e.Enters) :
    Inv es (n + 1) ⟨e.probe w.maps,
      Function.update w.calls e.thread.pid (some ⟨e.thread.tgid, e.syscall⟩)⟩ := by
  obtain ⟨r, hp, hstate⟩ := probe_enters henters w.maps
  have hwrites : WritesState es e.syscall e.thread n := (exists_at_iff he).2 ⟨henters, rfl, rfl⟩
  refine ⟨?_, fun s t ↦ ?_, fun pid call hcall ↦ ?_, fun j hj e' he' hexit ↦ ?_⟩
  · show (e.probe w.maps).thpSyscallEvents.length = n + 1
    rw [hp.submits, List.length_append, h.length, List.length_singleton]
  · by_cases hne : s ≠ e.syscall ∨ t ≠ e.thread
    · exact h.state_of_frame he hp hne
    · obtain ⟨hs, ht⟩ := not_or.1 hne
      obtain rfl := not_not.1 hs
      obtain rfl := not_not.1 ht
      rcases hstate with hsome | hnone
      · rw [hsome]
        refine recalls_put ((exists_at_iff he).2 ⟨rfl, rfl⟩) hwrites ?_
        rw [argsAt, he]
        rfl
      · rw [hnone]
        exact recalls_none
  · by_cases hpid : e.thread.pid = pid
    · subst hpid
      have hself : Function.update w.calls e.thread.pid (some ⟨e.thread.tgid, e.syscall⟩)
          e.thread.pid = some ⟨e.thread.tgid, e.syscall⟩ := Function.update_self _ _ _
      obtain rfl := Option.some.inj (hself.symm.trans hcall)
      exact .inr ⟨n, .self ((exists_at_iff he).2 rfl), hwrites⟩
    · have hsame : Function.update w.calls e.thread.pid (some ⟨e.thread.tgid, e.syscall⟩) pid =
          w.calls pid := Function.update_of_ne (Ne.symm hpid) _ _
      exact h.calls_of_ne he hpid (hsame.symm.trans hcall)
  · obtain hlt | rfl := Nat.lt_succ_iff_lt_or_eq.1 hj
    · exact h.reports_of_probed hp j hlt e' he' hexit
    · obtain rfl := Option.some.inj (he.symm.trans he')
      exact absurd henters hexit

/-- The state that an exit finds was written by the latest thing that a thread of its id did. -/
theorem Inv.uses_of_get? (h : Inv es n w) (he : es[n]? = some e) (hexit : ¬ e.Enters)
    (hcall : w.calls e.thread.pid = some ⟨e.thread.tgid, e.syscall⟩) {state : SyscallEnterState}
    (hget : (w.maps.enterState e.syscall).get? e.thread.pidTgid = some state) :
    ∃ i, Uses es i n ∧ argsAt es i = state := by
  obtain ⟨i, hi, hwrites, hval⟩ := h.state _ _ state hget
  have hacts : ∀ k, TouchesState es e.syscall e.thread k → Acts es e.thread.pid k :=
    fun k ⟨e', he', _, ht⟩ ↦ ⟨e', he', congrArg Thread.pid ht⟩
  obtain hnone | ⟨i', hi', hwrites'⟩ := h.calls _ _ hcall
  · exact absurd (hacts i hi.holds) (hnone i hi.lt)
  · have htouch : TouchesState es e.syscall e.thread i' :=
      let ⟨e', he', _, hs, ht⟩ := hwrites'
      ⟨e', he', hs, ht⟩
    -- the last of all that the thread did is the last that touches this state
    obtain rfl := hi.unique (hi'.of_imp htouch hacts)
    exact ⟨i, ⟨e, he, hexit, hi', hwrites⟩, hval⟩

/-- What an exit uses is the latest entering of the syscall. -/
theorem Uses.latest {i j : ℕ} (h : Uses es i j) (he : es[j]? = some e) :
    LastBelow (EntersAt es e.syscall e.thread.pid) j i ∧ ∃ e' ∈ es[i]?, e'.Enters ∧
      e'.syscall = e.syscall ∧ argsAt es i = e'.args := by
  obtain ⟨e₁, he₁, hexit, hlast, e', he', henters, hs, ht⟩ := h
  obtain rfl := Option.some.inj (he.symm.trans he₁)
  refine ⟨hlast.of_imp ⟨e', he', henters, hs, congrArg Thread.pid ht⟩ ?_, e', he', henters, hs, ?_⟩
  · exact fun k ⟨e'', he'', _, _, hpid⟩ ↦ ⟨e'', he'', hpid⟩
  · rw [argsAt, he']
    rfl

theorem behavior_args (henters : e.Enters) (hs : e.syscall = .munmap) : e.args.behavior = -1 := by
  cases e with
  | enterMadvise => exact nomatch hs
  | enterMunmap => rfl
  | exitMadvise => exact henters.elim
  | exitMunmap => exact henters.elim

/-- **Leaving a call keeps the invariant.** -/
theorem Inv.exit (h : Inv es n w) (he : es[n]? = some e) (hexit : ¬ e.Enters)
    (hcall : w.calls e.thread.pid = some ⟨e.thread.tgid, e.syscall⟩) :
    Inv es (n + 1) ⟨e.probe w.maps, Function.update w.calls e.thread.pid none⟩ := by
  obtain ⟨r, hp, hgone, hphase, hplaceholder, hcarries⟩ := probe_exits hexit w.maps
  refine ⟨?_, fun s t ↦ ?_, fun pid call hcall' ↦ ?_, fun j hj e' he' hexit' ↦ ?_⟩
  · show (e.probe w.maps).thpSyscallEvents.length = n + 1
    rw [hp.submits, List.length_append, h.length, List.length_singleton]
  · by_cases hne : s ≠ e.syscall ∨ t ≠ e.thread
    · exact h.state_of_frame he hp hne
    · obtain ⟨hs, ht⟩ := not_or.1 hne
      obtain rfl := not_not.1 hs
      obtain rfl := not_not.1 ht
      rw [hgone]
      exact recalls_none
  · by_cases hpid : e.thread.pid = pid
    · subst hpid
      have hnone : Function.update w.calls e.thread.pid none e.thread.pid = none :=
        Function.update_self _ _ _
      exact nomatch hnone.symm.trans hcall'
    · have hsame : Function.update w.calls e.thread.pid none pid = w.calls pid :=
        Function.update_of_ne (Ne.symm hpid) _ _
      exact h.calls_of_ne he hpid (hsame.symm.trans hcall')
  · obtain hlt | rfl := Nat.lt_succ_iff_lt_or_eq.1 hj
    · exact h.reports_of_probed hp j hlt e' he' hexit'
    obtain rfl := Option.some.inj (he.symm.trans he')
    have hr : (e.probe w.maps).thpSyscallEvents[j]? = some r := by
      rw [hp.submits, List.getElem?_append_right (Nat.le_of_eq h.length), h.length, Nat.sub_self]
      rfl
    cases hget : (w.maps.enterState e.syscall).get? e.thread.pidTgid with
    | none =>
      exact ⟨r, none, hr, ⟨hphase, hp.syscallId, hp.pid, hp.tgid, fun _ ↦ hplaceholder hget, nofun⟩,
        nofun⟩
    | some state =>
      obtain ⟨i, huses, hval⟩ := h.uses_of_get? he hexit hcall hget
      obtain ⟨hlatest, e₁, he₁, henters, hs, hargs⟩ := huses.latest he
      have hstate : e₁.args = state := hargs.symm.trans hval
      refine ⟨r, some i, hr, ⟨hphase, hp.syscallId, hp.pid, hp.tgid, nofun, ?_⟩, ?_⟩
      · rintro _ ⟨⟩
        refine ⟨hlatest, e₁, he₁, hstate ▸ hcarries state hget fun hmunmap ↦ ?_⟩
        rw [← hstate]
        exact behavior_args henters (hs.trans hmunmap)
      · rintro _ ⟨⟩
        exact huses

/-- **Every event keeps the invariant.** -/
theorem Inv.step (h : Inv es n w) (he : es[n]? = some e) (hstep : step w e = some w') :
    Inv es (n + 1) w' := by
  rw [ThpTrace.step] at hstep
  by_cases henters : e.Enters
  · rw [if_pos henters] at hstep
    exact Option.some.inj hstep ▸ h.enter he henters
  · rw [if_neg henters] at hstep
    obtain ⟨hcall, hw⟩ := Option.ite_none_right_eq_some.1 hstep
    exact Option.some.inj hw ▸ h.exit he henters hcall

end Invariant

/-! ### The law -/

section Law

variable {es : List Event} {w : World} {calls : BitVec 32 → Option Call}

/-- No entering is used twice. -/
theorem Uses.right_unique {i j j' : ℕ} (h : Uses es i j) (h' : Uses es i j') : j = j' := by
  obtain ⟨e, he, -, hlast, e₁, he₁, -, -, ht⟩ := h
  obtain ⟨e', he', -, hlast', e₂, he₂, -, -, ht'⟩ := h'
  obtain rfl := Option.some.inj (he₁.symm.trans he₂)
  rw [← ht] at hlast
  rw [← ht'] at hlast'
  exact hlast.right_unique hlast' ⟨e, he, congrArg Thread.pid ht.symm⟩
    ⟨e', he', congrArg Thread.pid ht'.symm⟩

/-- **What is reported for leaving a call** carries the arguments of the latest entering of the
syscall by a thread of the id, or the placeholder, and no entering is used twice. -/
theorem exit_carries (h : Run.exec step (init calls) es = some w) :
    ∃ used : ℕ → Option ℕ,
      (∀ j e, es[j]? = some e → ¬ e.Enters →
        ∃ r, w.maps.thpSyscallEvents[j]? = some r ∧ LeftWith es j e (used j) r) ∧
      ∀ i j j', used j = some i → used j' = some i → j = j' := by
  have hinv : Inv es es.length w := Run.exec_invariant_at
    (fun n e w w' he hw hstep ↦ hw.step he hstep) (inv_init calls) h
  have hreports : ∀ j, ∃ used, (∀ e, es[j]? = some e → ¬ e.Enters →
      ∃ r, w.maps.thpSyscallEvents[j]? = some r ∧ LeftWith es j e used r) ∧
      ∀ i, used = some i → Uses es i j := fun j ↦ by
    by_cases hj : ∃ e ∈ es[j]?, ¬ e.Enters
    · obtain ⟨e, he, hexit⟩ := hj
      obtain ⟨r, used, hr, hleft, huses⟩ :=
        hinv.reports j (List.getElem?_eq_some_iff.1 he).1 e he hexit
      refine ⟨used, fun e' he' _ ↦ ?_, huses⟩
      obtain rfl := Option.some.inj (he'.symm.trans he)
      exact ⟨r, hr, hleft⟩
    · exact ⟨none, fun e he hexit ↦ absurd ⟨e, he, hexit⟩ hj, nofun⟩
  choose used hleft huses using hreports
  exact ⟨used, hleft, fun i j j' hj hj' ↦ (huses j i hj).right_unique (huses j' i hj')⟩

/-- A thread's leaving goes unseen, another one takes its id and leaves its own call. -/
def reusedId : List Event :=
  [.enterMadvise ⟨5, 5⟩ 1 4096 8192 14, .enterMadvise ⟨3, 5⟩ 2 65536 4096 4,
    .exitMadvise ⟨3, 5⟩ 3 0, .enterMunmap ⟨3, 5⟩ 4 65536 4096, .exitMunmap ⟨3, 5⟩ 5 0]

theorem exit_carries_reusedId : ∃ w, Run.exec step (init fun _ ↦ none) reusedId = some w ∧
    ∃ used : ℕ → Option ℕ,
      (∀ j e, reusedId[j]? = some e → ¬ e.Enters →
        ∃ r, w.maps.thpSyscallEvents[j]? = some r ∧ LeftWith reusedId j e (used j) r) ∧
      ∀ i j j', used j = some i → used j' = some i → j = j' := by
  obtain ⟨w, hw⟩ : ∃ w, Run.exec step (init fun _ ↦ none) reusedId = some w := ⟨_, rfl⟩
  exact ⟨w, hw, exit_carries hw⟩

end Law

end ThpTrace
