import HugePageResearch.Python.Text
import Mathlib.Data.BitVec
import Mathlib.Data.List.Basic

/-!
# The rows of the process trace

`bpf/fork_and_exit.bpf.c` and `bpf_instrumentation/fork_and_exit.py`: a probe on the creation, one
on the exit and one on the naming of a task, of which each event becomes a row. The first two read
the ids of the task that they are about. The third takes the two halves of
`bpf_get_current_pid_tgid`, which are the ids of the task that runs, the thread group in the upper
half: it gives the upper half as the `pid` and the lower half as the `tgid`.

## The result

`identified_iff`: every row carries the thread id and the thread group of its task, and the rows of
a `tgid` are those of its threads, exactly where each naming is done by a task whose thread group is
the thread id, and whose thread id is the thread group, of the task that is named. For a task that
names itself: where it leads its thread group.
-/

namespace ProcessTrace

/-! ### The probes -/

/-- The ids of a `task_struct`. -/
structure Task where
  pid : BitVec 32
  tgid : BitVec 32
  deriving DecidableEq

/-- `bpf_get_current_pid_tgid`, where the task runs. -/
def Task.pidTgid (t : Task) : BitVec 64 := t.tgid ++ t.pid

/-- `start_data_t` and `exec_data_t`. -/
structure StartData where
  pid : BitVec 32
  tgid : BitVec 32
  ts : BitVec 64
  buff : List UInt8

/-- `stop_data_t`. -/
structure StopData where
  pid : BitVec 32
  tgid : BitVec 32
  ts : BitVec 64

/-- `kretprobe_copy_process`: the new task, unless an error is returned, and the name of the task
that runs. -/
def kretprobeCopyProcess (task : Option Task) (comm : List UInt8) (ts : BitVec 64) :
    Option StartData :=
  task.map fun t ↦ ⟨t.pid, t.tgid, ts, comm⟩

/-- `kprobe_do_exit`. -/
def kprobeDoExit (task : Task) (ts : BitVec 64) : StopData := ⟨task.pid, task.tgid, ts⟩

/-- `kretprobe_exec`: the task that runs, and its name. -/
def kretprobeExec (current : Task) (rc : BitVec 64) (comm : List UInt8) (ts : BitVec 64) :
    Option StartData :=
  if rc ≠ 0 then none
  else some ⟨(current.pidTgid >>> 32).setWidth 32, current.pidTgid.setWidth 32, ts, comm⟩

/-! ### The rows -/

/-- `cap_type`. -/
inductive CapType where
  | start
  | exec
  | stop
  deriving DecidableEq

/-- `TraceProcessStat`. -/
structure TraceProcessStat where
  pid : ℕ
  tgid : ℕ
  tsNs : ℤ
  name : PyStr
  capType : CapType
  deriving DecidableEq

/-- `buff.decode("ascii")`, if it does not raise. -/
def decodeAscii (buff : List UInt8) : Option PyStr :=
  let text := buff.takeWhile (· ≠ 0)
  if text.all (· < 128) then some (text.map fun b ↦ Char.ofNat b.toNat) else none

/-- `_create_task_eh` and `_exec_eh`. -/
def namedRow (capType : CapType) (event : StartData) : Option TraceProcessStat :=
  (decodeAscii event.buff).map fun name ↦
    ⟨event.pid.toNat, event.tgid.toNat, event.ts.toNat, name, capType⟩

/-- `_create_task_eh`. -/
def createTaskEh : StartData → Option TraceProcessStat := namedRow .start

/-- `_exec_eh`. -/
def execEh : StartData → Option TraceProcessStat := namedRow .exec

/-- `_release_task_eh`. -/
def releaseTaskEh (event : StopData) : TraceProcessStat :=
  ⟨event.pid.toNat, event.tgid.toNat, event.ts.toNat, [], .stop⟩

/-- What happens to a task. A naming is done by the task that runs, which can be another one. -/
inductive Event where
  | copyProcess (task : Task) (comm : List UInt8) (ts : BitVec 64)
  | doExit (task : Task) (ts : BitVec 64)
  | setTaskComm (task current : Task) (rc : BitVec 64) (comm : List UInt8) (ts : BitVec 64)

namespace Event

/-- The task that it happens to. -/
def task : Event → Task
  | copyProcess task _ _ => task
  | doExit task _ => task
  | setTaskComm task _ _ _ _ => task

/-- The row that it gives. -/
def row : Event → Option TraceProcessStat
  | copyProcess task comm ts => (kretprobeCopyProcess (some task) comm ts).bind createTaskEh
  | doExit task ts => some (releaseTaskEh (kprobeDoExit task ts))
  | setTaskComm _ current rc comm ts => (kretprobeExec current rc comm ts).bind execEh

end Event

/-- The rows of a trace. -/
def rows (es : List Event) : List TraceProcessStat := es.filterMap Event.row

/-- The rows of a trace with a `tgid`. -/
def selected (g : ℕ) (es : List Event) : List TraceProcessStat :=
  (rows es).filter fun r ↦ r.tgid = g

/-! ### What is expected -/

/-- **A trace that identifies its tasks**: every row carries the ids of its task, and the rows of a
`tgid` are those of the threads of that group. -/
structure Identified (es : List Event) : Prop where
  ids : ∀ e ∈ es, ∀ r, e.row = some r → r.pid = e.task.pid.toNat ∧ r.tgid = e.task.tgid.toNat
  selects : ∀ g : BitVec 32,
    selected g.toNat es = rows (es.filter fun e ↦ e.task.tgid = g)

/-- **What is needed for it**, of an event: a naming that gives a row is done by a task whose ids
are those of the task that is named, exchanged. -/
def Exchanged : Event → Prop
  | .setTaskComm task current rc comm _ =>
    rc = 0 → (decodeAscii comm).isSome → current.tgid = task.pid ∧ current.pid = task.tgid
  | _ => True

/-! ### The ids of a row -/

section Ids

variable {e : Event} {r : TraceProcessStat} {es : List Event}

theorem pidTgid_upper (t : Task) : (t.pidTgid >>> 32).setWidth 32 = t.tgid := by
  -- on numbers: the word is `tgid * 2 ^ 32 + pid`
  refine BitVec.eq_of_toNat_eq ?_
  rw [Task.pidTgid, BitVec.toNat_setWidth, BitVec.toNat_ushiftRight, BitVec.toNat_append,
    ← Nat.shiftLeft_add_eq_or_of_lt t.pid.isLt, Nat.shiftLeft_eq, Nat.shiftRight_eq_div_pow]
  have hpid := t.pid.isLt
  have htgid := t.tgid.isLt
  omega

theorem pidTgid_lower (t : Task) : t.pidTgid.setWidth 32 = t.pid := by
  refine BitVec.eq_of_toNat_eq ?_
  rw [Task.pidTgid, BitVec.toNat_setWidth, BitVec.toNat_append,
    ← Nat.shiftLeft_add_eq_or_of_lt t.pid.isLt, Nat.shiftLeft_eq]
  have hpid := t.pid.isLt
  omega

/-- **The row of a naming** has the ids of the task that runs, exchanged. -/
theorem row_setTaskComm (task current : Task) (rc : BitVec 64) (comm : List UInt8)
    (ts : BitVec 64) : (Event.setTaskComm task current rc comm ts).row =
      if rc ≠ 0 then none else (decodeAscii comm).map fun name ↦
        ⟨current.tgid.toNat, current.pid.toNat, ts.toNat, name, .exec⟩ := by
  show (kretprobeExec current rc comm ts).bind execEh = _
  rw [kretprobeExec, pidTgid_upper, pidTgid_lower]
  split_ifs
  · rfl
  · rfl

/-- An event's row carries the ids of its task exactly where the condition holds. -/
theorem ids_iff (e : Event) :
    (∀ r, e.row = some r → r.pid = e.task.pid.toNat ∧ r.tgid = e.task.tgid.toNat) ↔
      Exchanged e := by
  cases e with
  | copyProcess task comm ts =>
    refine iff_of_true (fun r hr ↦ ?_) trivial
    obtain ⟨name, -, rfl⟩ := Option.map_eq_some_iff.1 hr
    exact ⟨rfl, rfl⟩
  | doExit task ts =>
    refine iff_of_true (fun r hr ↦ ?_) trivial
    obtain rfl := Option.some.inj hr
    exact ⟨rfl, rfl⟩
  | setTaskComm task current rc comm ts =>
    rw [row_setTaskComm]
    constructor
    · intro h hrc hcomm
      obtain ⟨name, hname⟩ := Option.isSome_iff_exists.1 hcomm
      rw [if_neg (not_not.2 hrc), hname] at h
      obtain ⟨hpid, htgid⟩ := h _ rfl
      exact ⟨BitVec.eq_of_toNat_eq hpid, BitVec.eq_of_toNat_eq htgid⟩
    · intro h r hr
      obtain ⟨hrc, hr⟩ := Option.ite_none_left_eq_some.1 hr
      obtain ⟨name, hname, rfl⟩ := Option.map_eq_some_iff.1 hr
      obtain ⟨hp, ht⟩ := h (not_not.1 hrc) (Option.isSome_iff_exists.2 ⟨name, hname⟩)
      exact ⟨congrArg BitVec.toNat hp, congrArg BitVec.toNat ht⟩

/-- Where the rows carry the ids of their tasks, a `tgid` selects those of its threads. -/
theorem selected_eq (h : ∀ e ∈ es, ∀ r, e.row = some r → r.tgid = e.task.tgid.toNat)
    (g : BitVec 32) : selected g.toNat es = rows (es.filter fun e ↦ e.task.tgid = g) := by
  rw [selected, rows, rows]
  induction es with
  | nil => rfl
  | cons e es ih =>
    obtain ⟨he, hrest⟩ := List.forall_mem_cons.1 h
    have hdec : ∀ r, e.row = some r → (decide (r.tgid = g.toNat) = decide (e.task.tgid = g)) :=
      fun r hr ↦ decide_eq_decide.2 (by rw [he r hr]; exact BitVec.toNat_inj)
    rw [List.filterMap_cons, List.filter_cons]
    cases hrow : e.row with
    | none =>
      show List.filter _ (List.filterMap _ es) = _
      rw [ih hrest]
      split_ifs
      · rw [List.filterMap_cons, hrow]
      · rfl
    | some r =>
      show List.filter _ (r :: List.filterMap _ es) = _
      rw [List.filter_cons, hdec r hrow, ih hrest]
      split_ifs
      · rw [List.filterMap_cons, hrow]
      · rfl

/-- **Every row carries the ids of its task**, and a `tgid` selects the rows of its threads, exactly
where each naming is done by a task whose ids are those of the named one, exchanged. -/
theorem identified_iff (es : List Event) : Identified es ↔ ∀ e ∈ es, Exchanged e := by
  constructor
  · exact fun h e he ↦ (ids_iff e).1 (h.ids e he)
  · intro h
    have hids : ∀ e ∈ es, ∀ r, e.row = some r →
        r.pid = e.task.pid.toNat ∧ r.tgid = e.task.tgid.toNat := fun e he ↦ (ids_iff e).2 (h e he)
    exact ⟨hids, selected_eq fun e he r hr ↦ (hids e he r hr).2⟩

/-- The condition, for a task that names itself. -/
theorem exchanged_self_iff {task : Task} {comm : List UInt8} {ts : BitVec 64}
    (hcomm : (decodeAscii comm).isSome) :
    Exchanged (.setTaskComm task task 0 comm ts) ↔ task.pid = task.tgid :=
  ⟨fun h ↦ (h rfl hcomm).2, fun h _ _ ↦ ⟨h.symm, h⟩⟩

/-- A thread of a process names itself. -/
def namedThread : List Event :=
  [.copyProcess ⟨101, 100⟩ [114] 1, .setTaskComm ⟨101, 100⟩ ⟨101, 100⟩ 0 [98, 105, 111] 2,
    .doExit ⟨101, 100⟩ 3]

/-- The row of its naming has the ids of another process. -/
theorem not_identified_namedThread : ¬ ∀ es, Identified es := by
  intro hall
  obtain ⟨hpid, -⟩ := (hall namedThread).ids (.setTaskComm ⟨101, 100⟩ ⟨101, 100⟩ 0 [98, 105, 111] 2)
    (by simp [namedThread]) ⟨100, 101, 2, ['b', 'i', 'o'], .exec⟩ (by decide)
  exact absurd hpid (by decide)

end Ids

end ProcessTrace
