import HugePageResearch.Library.Latest
import HugePageResearch.Library.Run
import HugePageResearch.Python.Dict
import Mathlib.Data.List.Forall2
import Mathlib.Data.BitVec

/-!
# Run quanta and queue times

`bpf/sched_quanta_runtime.bpf.c`: a switch of tasks notes when the next task starts to run, closes
the quantum of the previous one, and reports how long the next one waited. Two hashes by pid carry
the start of a run and of a wait. Whether the probes are attached to tracepoints or to functions of
the kernel, they read the same pids and the same clock.

## The result

`quanta_laws`: in every trace whose times do not decrease and whose runs are shorter than the 32
bits of a length, the quanta are the spans from a pid's latest switch-in to its next switch-out,
they do not overlap and together take at most the elapsed time; a queue time is the span from the
latest wakeup, or closing switch-out, since the previous switch-in, up to a multiple of `2 ^ 32`
microseconds. A wait of so long is reported as none.
-/

namespace Sched

/-! ### The program -/

/-- The fields of a `task_struct` that the probes read. -/
structure Task where
  pid : BitVec 32
  tgid : BitVec 32
  deriving DecidableEq

/-- `quanta_runtime_perf_event_t`. -/
structure QuantaRuntimePerfEvent where
  pid : BitVec 32
  tgid : BitVec 32
  quantaEndUptimeUs : BitVec 64
  quantaRunLengthUs : BitVec 32
  deriving DecidableEq

/-- The hashes, and what was submitted to the two outputs. -/
structure Maps where
  runStart : Dict (BitVec 32) (BitVec 64)
  queueStart : Dict (BitVec 32) (BitVec 64)
  quantaRuntimes : List QuantaRuntimePerfEvent
  quantaQueueTimes : List QuantaRuntimePerfEvent

/-- The event that is submitted at the time `ts` for a span that began at `tsp`. -/
def perfEvent (task : Task) (ts tsp : BitVec 64) : QuantaRuntimePerfEvent where
  pid := task.pid
  tgid := task.tgid
  quantaEndUptimeUs := ts / 1000
  quantaRunLengthUs := ((ts - tsp) / 1000).setWidth 32

/-- `trace_wake_up_new_task`. -/
def traceWakeUpNewTask (p : Task) (ts : BitVec 64) (m : Maps) : Maps :=
  { m with queueStart := m.queueStart.set p.pid ts }

/-- `trace_ttwu_do_wakeup`. -/
def traceTtwuDoWakeup (p : Task) (ts : BitVec 64) (m : Maps) : Maps :=
  if p.pid = 0 then m else { m with queueStart := m.queueStart.set p.pid ts }

/-- The part of `trace_run` about `next`. -/
def traceNext (next : Task) (ts : BitVec 64) (m : Maps) : Maps :=
  if next.pid = 0 then m
  else
    let m : Maps :=
      match m.queueStart.get? next.pid with
      | some tsp =>
        { m with
          quantaQueueTimes := m.quantaQueueTimes ++ [perfEvent next ts tsp]
          queueStart := m.queueStart.erase next.pid }
      | none => m
    { m with runStart := m.runStart.set next.pid ts }

/-- The part of `trace_run` about `prev`. -/
def tracePrev (prev : Task) (ts : BitVec 64) (m : Maps) : Maps :=
  if prev.pid = 0 then m
  else
    match m.runStart.get? prev.pid with
    -- it was switched in before the probes were attached
    | none => m
    | some tsp =>
      { m with
        quantaRuntimes := m.quantaRuntimes ++ [perfEvent prev ts tsp]
        runStart := m.runStart.erase prev.pid
        queueStart := m.queueStart.set prev.pid ts }

/-- `trace_run`. -/
def traceRun (prev next : Task) (ts : BitVec 64) (m : Maps) : Maps :=
  tracePrev prev ts (traceNext next ts m)

/-- What the probes are called for, with the time that they read. -/
inductive Event where
  | wakeUpNewTask (p : Task) (ts : BitVec 64)
  | ttwuDoWakeup (p : Task) (ts : BitVec 64)
  | switch (prev next : Task) (ts : BitVec 64)
  deriving DecidableEq

/-- The time of an event, in nanoseconds. -/
def Event.ts : Event → ℕ
  | .wakeUpNewTask _ ts => ts.toNat
  | .ttwuDoWakeup _ ts => ts.toNat
  | .switch _ _ ts => ts.toNat

/-- One event. -/
def step (m : Maps) : Event → Option Maps
  | .wakeUpNewTask p ts => some (traceWakeUpNewTask p ts m)
  | .ttwuDoWakeup p ts => some (traceTtwuDoWakeup p ts m)
  | .switch prev next ts => some (traceRun prev next ts m)

/-- The program is loaded. -/
def init : Maps := ⟨.empty, .empty, [], []⟩

/-! ### Traces -/

namespace Event

/-- The pid wakes up, or is new. -/
def Wakes (p : BitVec 32) : Event → Prop
  | wakeUpNewTask t _ => t.pid = p
  | ttwuDoWakeup t _ => t.pid = p
  | switch _ _ _ => False

/-- A CPU switches to the pid. -/
def SwitchesIn (p : BitVec 32) : Event → Prop
  | switch _ next _ => next.pid = p
  | _ => False

/-- A CPU switches from the pid. -/
def SwitchesOut (p : BitVec 32) : Event → Prop
  | switch prev _ _ => prev.pid = p
  | _ => False

end Event

/-- The pid wakes up at a position. -/
def Wakes (es : List Event) (p : BitVec 32) (i : ℕ) : Prop := ∃ e ∈ es[i]?, e.Wakes p

/-- The pid is switched in at a position. -/
def SwitchesIn (es : List Event) (p : BitVec 32) (i : ℕ) : Prop := ∃ e ∈ es[i]?, e.SwitchesIn p

/-- The pid is switched out at a position. -/
def SwitchesOut (es : List Event) (p : BitVec 32) (i : ℕ) : Prop := ∃ e ∈ es[i]?, e.SwitchesOut p

/-- The time at a position. -/
def timeAt (es : List Event) (i : ℕ) : ℕ := (es[i]?.map Event.ts).getD 0

/-- **A run**: the pid is switched in, and out at its next switch. -/
structure Runs (es : List Event) (p : BitVec 32) (start stop : ℕ) : Prop where
  opens : SwitchesIn es p start
  closes : SwitchesOut es p stop
  latest : LastBelow (fun i ↦ SwitchesIn es p i ∨ SwitchesOut es p i) stop start

/-- The pid enters the queue: it wakes up, or a switch closes one of its runs. -/
def Queues (es : List Event) (p : BitVec 32) (i : ℕ) : Prop :=
  Wakes es p i ∨ ∃ start, Runs es p start i

/-- **A wait**: the pid enters the queue, and is switched in before it enters again. -/
structure Waits (es : List Event) (p : BitVec 32) (start stop : ℕ) : Prop where
  opens : Queues es p start
  closes : SwitchesIn es p stop
  latest : LastBelow (fun i ↦ Queues es p i ∨ SwitchesIn es p i) stop start

/-- **A trace** of which no run is too long for its length; the idle task's are not measured. -/
structure Trace (es : List Event) : Prop where
  sorted : es.Pairwise fun e e' ↦ e.ts ≤ e'.ts
  differ : ∀ prev next ts, .switch prev next ts ∈ es → prev.pid ≠ next.pid
  shortRuns : ∀ p start stop, p ≠ 0 → Runs es p start stop →
    timeAt es stop - timeAt es start < 2 ^ 32 * 1000

/-! ### What is reported -/

/-- The span of a pid, by its positions in the trace. -/
structure Span where
  pid : BitVec 32
  start : ℕ
  stop : ℕ
  deriving DecidableEq

/-- **An event measures a span**: it ends where the span does and is as long in whole
microseconds. -/
structure Measures (es : List Event) (q : QuantaRuntimePerfEvent) (s : Span) : Prop where
  pid : q.pid = s.pid
  forward : timeAt es s.start ≤ timeAt es s.stop
  ends : q.quantaEndUptimeUs.toNat = timeAt es s.stop / 1000
  length : q.quantaRunLengthUs.toNat = (timeAt es s.stop - timeAt es s.start) / 1000

/-- **An event measures a span in 32 bits**: its length is that of the span up to a multiple of
`2 ^ 32` microseconds. -/
structure MeasuresModulo (es : List Event) (q : QuantaRuntimePerfEvent) (s : Span) : Prop where
  pid : q.pid = s.pid
  forward : timeAt es s.start ≤ timeAt es s.stop
  ends : q.quantaEndUptimeUs.toNat = timeAt es s.stop / 1000
  length : q.quantaRunLengthUs.toNat = (timeAt es s.stop - timeAt es s.start) / 1000 % 2 ^ 32

/-- **A span that is shorter is measured.** -/
theorem MeasuresModulo.measures {es : List Event} {q : QuantaRuntimePerfEvent} {s : Span}
    (h : MeasuresModulo es q s) (hlt : timeAt es s.stop - timeAt es s.start < 2 ^ 32 * 1000) :
    Measures es q s := by
  refine ⟨h.pid, h.forward, h.ends, h.length.trans (Nat.mod_eq_of_lt (Nat.div_lt_of_lt_mul ?_))⟩
  rwa [Nat.mul_comm] at hlt

/-- **The laws of the quanta.** -/
structure QuantaLaws (es : List Event) (quanta : List QuantaRuntimePerfEvent)
    (spans : List Span) : Prop where
  measures : List.Forall₂ (Measures es) quanta spans
  /-- Each is emitted at a switch-out of its pid. -/
  atSwitchOut : ∀ s ∈ spans, SwitchesOut es s.pid s.stop
  /-- It is measured from the latest switch-in of the pid. -/
  fromSwitchIn : ∀ s ∈ spans, LastBelow (SwitchesIn es s.pid) s.stop s.start
  /-- No switch-in is used twice. -/
  once : (spans.map Span.start).Nodup
  /-- The intervals of one pid do not overlap. -/
  disjoint : spans.Pairwise fun s s' ↦ s.pid = s'.pid →
    s.stop < s'.start ∧ timeAt es s.stop ≤ timeAt es s'.start
  /-- Together they take at most the elapsed time. -/
  sum : ∀ p, ((quanta.filter (·.pid = p)).map fun q ↦ q.quantaRunLengthUs.toNat).sum ≤
    (timeAt es (es.length - 1) - timeAt es 0) / 1000

/-- The pid wakes up, or one of the spans of its quanta closes. -/
def Enqueues (es : List Event) (spans : List Span) (p : BitVec 32) (i : ℕ) : Prop :=
  Wakes es p i ∨ ∃ s ∈ spans, s.pid = p ∧ s.stop = i

/-- **The laws of the queue times**, which measure waits as `measuring` says, where the quanta have
the given spans. -/
structure QueueLaws (measuring : QuantaRuntimePerfEvent → Span → Prop) (es : List Event)
    (spans : List Span) (times : List QuantaRuntimePerfEvent) (waits : List Span) : Prop where
  measures : List.Forall₂ measuring times waits
  atSwitchIn : ∀ w ∈ waits, SwitchesIn es w.pid w.stop
  /-- It is measured from the latest entry to the queue. -/
  fromLatest : ∀ w ∈ waits, LastBelow (Enqueues es spans w.pid) w.stop w.start
  /-- That entry comes after the previous switch-in. -/
  sinceSwitchIn : ∀ w ∈ waits, ∀ i, SwitchesIn es w.pid i → i < w.stop → i < w.start

/-! ### What a probe does to the hashes -/

section Probes

variable {m : Maps} {t prev next : Task} {p : BitVec 32} {ts : BitVec 64}

/-- **What the wakeup of a task does.** -/
structure Woken (t : Task) (ts : BitVec 64) (m m' : Maps) : Prop where
  runStart : m'.runStart = m.runStart
  queueStart : ∀ p, p ≠ 0 → m'.queueStart.get? p =
    if t.pid = p then some ts else m.queueStart.get? p
  quanta : m'.quantaRuntimes = m.quantaRuntimes
  times : m'.quantaQueueTimes = m.quantaQueueTimes

theorem woken_traceWakeUpNewTask : Woken t ts m (traceWakeUpNewTask t ts m) :=
  ⟨rfl, fun _ _ ↦ Dict.get?_set _ _ _ _, rfl, rfl⟩

theorem woken_traceTtwuDoWakeup : Woken t ts m (traceTtwuDoWakeup t ts m) := by
  by_cases h0 : t.pid = 0
  · have hskip : traceTtwuDoWakeup t ts m = m := if_pos h0
    have hne : ∀ p, p ≠ 0 → t.pid ≠ p := fun p hp h ↦ hp (h ▸ h0)
    rw [hskip]
    exact ⟨rfl, fun p hp ↦ (if_neg (hne p hp)).symm, rfl, rfl⟩
  · have hset : traceTtwuDoWakeup t ts m = traceWakeUpNewTask t ts m := if_neg h0
    rw [hset]
    exact woken_traceWakeUpNewTask

/-- Since when a task waits, for the probe. -/
def waiting (m : Maps) (t : Task) : Option (BitVec 64) :=
  if t.pid = 0 then none else m.queueStart.get? t.pid

/-- Since when a task runs, for the probe. -/
def running (m : Maps) (t : Task) : Option (BitVec 64) :=
  if t.pid = 0 then none else m.runStart.get? t.pid

theorem traceNext_of_waiting_none (h0 : next.pid ≠ 0) (h : waiting m next = none) :
    traceNext next ts m = { m with runStart := m.runStart.set next.pid ts } := by
  rw [waiting, if_neg h0] at h
  rw [traceNext, if_neg h0, h]

theorem traceNext_of_waiting {tsp : BitVec 64} (h0 : next.pid ≠ 0) (h : waiting m next = some tsp) :
    traceNext next ts m = { m with
      quantaQueueTimes := m.quantaQueueTimes ++ [perfEvent next ts tsp]
      queueStart := m.queueStart.erase next.pid
      runStart := m.runStart.set next.pid ts } := by
  rw [waiting, if_neg h0] at h
  rw [traceNext, if_neg h0, h]

/-- **What `trace_run` does for the next task.** -/
structure NextTraced (next : Task) (ts : BitVec 64) (m m' : Maps) : Prop where
  runStart : ∀ p, p ≠ 0 → m'.runStart.get? p =
    if next.pid = p then some ts else m.runStart.get? p
  queueStart : ∀ p, p ≠ 0 → m'.queueStart.get? p =
    if next.pid = p then none else m.queueStart.get? p
  times : m'.quantaQueueTimes =
    m.quantaQueueTimes ++ ((waiting m next).map (perfEvent next ts)).toList
  quanta : m'.quantaRuntimes = m.quantaRuntimes

theorem nextTraced (next : Task) (ts : BitVec 64) (m : Maps) :
    NextTraced next ts m (traceNext next ts m) := by
  by_cases h0 : next.pid = 0
  · have hskip : traceNext next ts m = m := if_pos h0
    have hwait : waiting m next = none := if_pos h0
    have hne : ∀ p, p ≠ 0 → next.pid ≠ p := fun p hp h ↦ hp (h ▸ h0)
    rw [hskip]
    exact ⟨fun p hp ↦ (if_neg (hne p hp)).symm, fun p hp ↦ (if_neg (hne p hp)).symm,
      by rw [hwait]; exact (List.append_nil _).symm, rfl⟩
  · cases hwait : waiting m next with
    | none =>
      rw [traceNext_of_waiting_none h0 hwait]
      refine ⟨fun p _ ↦ Dict.get?_set _ _ _ _, fun p _ ↦ ?_, ?_, rfl⟩
      · rw [waiting, if_neg h0] at hwait
        show m.queueStart.get? p = _
        split_ifs with h
        · rw [← h, hwait]
        · rfl
      · rw [hwait]
        exact (List.append_nil _).symm
    | some tsp =>
      rw [traceNext_of_waiting h0 hwait]
      exact ⟨fun p _ ↦ Dict.get?_set _ _ _ _, fun p _ ↦ Dict.get?_erase _ _ _, by rw [hwait]; rfl,
        rfl⟩

/-- **What `trace_run` does for the previous task.** -/
structure PrevTraced (prev : Task) (ts : BitVec 64) (m m' : Maps) : Prop where
  runStart : ∀ p, p ≠ 0 → m'.runStart.get? p =
    if prev.pid = p then none else m.runStart.get? p
  queueStart : ∀ p, p ≠ 0 → m'.queueStart.get? p =
    if prev.pid = p ∧ (m.runStart.get? p).isSome then some ts else m.queueStart.get? p
  quanta : m'.quantaRuntimes =
    m.quantaRuntimes ++ ((running m prev).map (perfEvent prev ts)).toList
  times : m'.quantaQueueTimes = m.quantaQueueTimes

theorem prevTraced (prev : Task) (ts : BitVec 64) (m : Maps) :
    PrevTraced prev ts m (tracePrev prev ts m) := by
  by_cases h0 : prev.pid = 0
  · have hskip : tracePrev prev ts m = m := if_pos h0
    have hrun : running m prev = none := if_pos h0
    have hne : ∀ p, p ≠ 0 → prev.pid ≠ p := fun p hp h ↦ hp (h ▸ h0)
    rw [hskip]
    exact ⟨fun p hp ↦ (if_neg (hne p hp)).symm, fun p hp ↦ (if_neg fun h ↦ hne p hp h.1).symm,
      by rw [hrun]; exact (List.append_nil _).symm, rfl⟩
  · have hrun : running m prev = m.runStart.get? prev.pid := if_neg h0
    rw [tracePrev, if_neg h0]
    cases hget : m.runStart.get? prev.pid with
    | none =>
      refine ⟨fun p _ ↦ ?_, fun p _ ↦ (if_neg ?_).symm, ?_, rfl⟩
      · show m.runStart.get? p = _
        split_ifs with h
        · rw [← h, hget]
        · rfl
      · rintro ⟨rfl, hsome⟩
        rw [hget] at hsome
        exact Bool.false_ne_true hsome
      · rw [hrun, hget]
        exact (List.append_nil _).symm
    | some tsp =>
      refine ⟨fun p _ ↦ Dict.get?_erase _ _ _, fun p _ ↦ ?_, by rw [hrun, hget]; rfl, rfl⟩
      show (m.queueStart.set prev.pid ts).get? p = _
      rw [Dict.get?_set]
      refine if_congr (iff_self_and.2 ?_) rfl rfl
      rintro rfl
      rw [hget]
      rfl

/-- **What a switch does**, where the two tasks differ. -/
structure Switched (prev next : Task) (ts : BitVec 64) (m m' : Maps) : Prop where
  runStart : ∀ p, p ≠ 0 → m'.runStart.get? p =
    if prev.pid = p then none else if next.pid = p then some ts else m.runStart.get? p
  queueStart : ∀ p, p ≠ 0 → m'.queueStart.get? p =
    if prev.pid = p ∧ (m.runStart.get? p).isSome then some ts
    else if next.pid = p then none else m.queueStart.get? p
  quanta : m'.quantaRuntimes =
    m.quantaRuntimes ++ ((running m prev).map (perfEvent prev ts)).toList
  times : m'.quantaQueueTimes =
    m.quantaQueueTimes ++ ((waiting m next).map (perfEvent next ts)).toList

theorem switched (hne : prev.pid ≠ next.pid) :
    Switched prev next ts m (traceRun prev next ts m) := by
  have hn := nextTraced next ts m
  have hp := prevTraced prev ts (traceNext next ts m)
  refine ⟨fun p h0 ↦ ?_, fun p h0 ↦ ?_, ?_, hp.times.trans hn.times⟩
  · rw [traceRun, hp.runStart p h0, hn.runStart p h0]
  · rw [traceRun, hp.queueStart p h0, hn.queueStart p h0, hn.runStart p h0]
    refine if_congr (and_congr_right ?_) rfl rfl
    rintro rfl
    rw [if_neg hne.symm]
  · rw [traceRun, hp.quanta, hn.quanta, running, running]
    split_ifs with h0
    · rfl
    · rw [hn.runStart _ h0, if_neg hne.symm]

end Probes

/-! ### What is at a position -/

section Positions

variable {es : List Event} {e : Event} {n i j : ℕ} {p : BitVec 32}

theorem lt_length_of_at {P : Event → Prop} (h : ∃ e ∈ es[n]?, P e) : n < es.length := by
  obtain ⟨e, he, -⟩ := h
  exact (List.getElem?_eq_some_iff.1 he).1

theorem timeAt_of_getElem? (h : es[n]? = some e) : timeAt es n = e.ts := by
  rw [timeAt, h]
  rfl

/-- Times do not decrease along the positions. -/
theorem timeAt_mono (h : es.Pairwise fun e e' ↦ e.ts ≤ e'.ts) (hij : i ≤ j)
    (hj : j < es.length) : timeAt es i ≤ timeAt es j := by
  obtain rfl | hlt := Nat.eq_or_lt_of_le hij
  · exact Nat.le_refl _
  · rw [timeAt_of_getElem? (List.getElem?_eq_getElem (Nat.lt_trans hlt hj)),
      timeAt_of_getElem? (List.getElem?_eq_getElem hj)]
    exact List.pairwise_iff_getElem.1 h i j _ hj hlt

/-- A bound on all times. -/
theorem timeAt_le {b : ℕ} (h : ∀ e ∈ es, e.ts ≤ b) (i : ℕ) : timeAt es i ≤ b := by
  rw [timeAt]
  cases hi : es[i]? with
  | none => exact Nat.zero_le b
  | some e => exact h e (List.mem_of_getElem? hi)

theorem Runs.lt (h : Runs es p i j) : i < j := h.latest.lt

theorem Waits.lt (h : Waits es p i j) : i < j := h.latest.lt

/-- Where a switch is, a run stops of the task switched out only. -/
theorem runs_stop_iff {prev next : Task} {ts : BitVec 64}
    (h : es[n]? = some (.switch prev next ts)) : Runs es p i n ↔ prev.pid = p ∧
      LastBelow (fun i ↦ SwitchesIn es p i ∨ SwitchesOut es p i) n i ∧ SwitchesIn es p i := by
  constructor
  · exact fun hr ↦ ⟨(exists_at_iff h).1 hr.closes, hr.latest, hr.opens⟩
  · rintro ⟨rfl, hlast, hin⟩
    exact ⟨hin, (exists_at_iff h).2 rfl, hlast⟩

/-- **A span is measured in 32 bits** by the event that is made of the times at its ends. -/
theorem measuresModulo_perfEvent {t : Task} {ts tsp : BitVec 64} (hi : timeAt es i = tsp.toNat)
    (hj : timeAt es j = ts.toNat) (hle : timeAt es i ≤ timeAt es j) :
    MeasuresModulo es (perfEvent t ts tsp) ⟨t.pid, i, j⟩ where
  pid := rfl
  forward := hle
  ends := by
    show (ts / 1000).toNat = _
    rw [BitVec.toNat_udiv, hj]
    rfl
  length := by
    have hsub : (ts - tsp).toNat = ts.toNat - tsp.toNat :=
      BitVec.toNat_sub_of_le (BitVec.le_def.2 (hi ▸ hj ▸ hle))
    show (((ts - tsp) / 1000).setWidth 32).toNat = (timeAt es j - timeAt es i) / 1000 % 2 ^ 32
    rw [BitVec.toNat_setWidth, BitVec.toNat_udiv, hsub, hi, hj]
    rfl

end Positions

/-! ### The invariant -/

section Invariant

variable {es : List Event} {n : ℕ} {m m' : Maps} {spans waits : List Span}

/-- **What the hashes and the outputs are** after the first `n` events: the hashes hold the latest
start of a run and of a wait, and the outputs measure the runs and waits that stopped. -/
structure Inv (es : List Event) (n : ℕ) (m : Maps) (spans waits : List Span) : Prop where
  runRecalls : ∀ p, p ≠ 0 → Recalls (fun i ↦ SwitchesIn es p i ∨ SwitchesOut es p i)
    (SwitchesIn es p) (timeAt es) n ((m.runStart.get? p).map BitVec.toNat)
  runRemembers : ∀ p, p ≠ 0 → Remembers (fun i ↦ SwitchesIn es p i ∨ SwitchesOut es p i)
    (SwitchesIn es p) (timeAt es) n ((m.runStart.get? p).map BitVec.toNat)
  queueRecalls : ∀ p, p ≠ 0 → Recalls (fun i ↦ Queues es p i ∨ SwitchesIn es p i)
    (Queues es p) (timeAt es) n ((m.queueStart.get? p).map BitVec.toNat)
  quanta : List.Forall₂ (Measures es) m.quantaRuntimes spans
  mem_spans : ∀ s, s ∈ spans ↔ s.pid ≠ 0 ∧ Runs es s.pid s.start s.stop ∧ s.stop < n
  stops : spans.Pairwise fun s s' ↦ s.stop < s'.stop
  times : List.Forall₂ (MeasuresModulo es) m.quantaQueueTimes waits
  mem_waits : ∀ w ∈ waits, w.pid ≠ 0 ∧ Waits es w.pid w.start w.stop

theorem inv_init : Inv es 0 init [] [] where
  runRecalls _ _ := recalls_none
  runRemembers _ _ := remembers_zero
  queueRecalls _ _ := recalls_none
  quanta := .nil
  mem_spans _ := ⟨fun h ↦ absurd h List.not_mem_nil, fun h ↦ absurd h.2.2 (Nat.not_lt_zero _)⟩
  stops := .nil
  times := .nil
  mem_waits := List.forall_mem_nil _

/-- **A wakeup keeps the invariant.** -/
theorem Inv.wake {t : Task} {ts : BitVec 64} {e : Event} (h : Inv es n m spans waits)
    (he : es[n]? = some e) (hts : e.ts = ts.toNat) (hwakes : ∀ p, e.Wakes p ↔ t.pid = p)
    (hin : ∀ p, ¬ e.SwitchesIn p) (hout : ∀ p, ¬ e.SwitchesOut p) (hm : Woken t ts m m') :
    Inv es (n + 1) m' spans waits := by
  have hnin : ∀ p, ¬ SwitchesIn es p n := fun p hp ↦ hin p ((exists_at_iff he).1 hp)
  have hnout : ∀ p, ¬ SwitchesOut es p n := fun p hp ↦ hout p ((exists_at_iff he).1 hp)
  refine ⟨fun p h0 ↦ ?_, fun p h0 ↦ ?_, fun p h0 ↦ ?_, ?_, fun s ↦ ?_, h.stops, ?_, h.mem_waits⟩
  · rw [hm.runStart]
    exact (h.runRecalls p h0).keep (not_or_intro (hnin p) (hnout p))
  · rw [hm.runStart]
    exact (h.runRemembers p h0).keep (not_or_intro (hnin p) (hnout p))
  · rw [hm.queueStart p h0]
    by_cases hp : t.pid = p
    · have hq : Queues es p n := .inl ((exists_at_iff he).2 ((hwakes p).2 hp))
      rw [if_pos hp]
      exact recalls_put (.inl hq) hq ((timeAt_of_getElem? he).trans hts)
    · rw [if_neg hp]
      refine (h.queueRecalls p h0).keep (not_or_intro ?_ (hnin p))
      rintro (hw | ⟨i, hr⟩)
      · exact hp ((hwakes p).1 ((exists_at_iff he).1 hw))
      · exact hnout p hr.closes
  · rw [hm.quanta]
    exact h.quanta
  · rw [h.mem_spans]
    refine and_congr_right fun _ ↦ and_congr_right fun hr ↦ ⟨Nat.lt_succ_of_lt, fun hlt ↦ ?_⟩
    refine (Nat.lt_succ_iff_lt_or_eq.1 hlt).resolve_right fun heq ↦ ?_
    exact hnout s.pid (heq ▸ hr.closes)
  · rw [hm.times]
    exact h.times

variable {prev next : Task} {ts tsp : BitVec 64}

/-- A start that the probe finds is that of a run which stops here. -/
theorem Inv.runs_of_running (h : Inv es n m spans waits)
    (he : es[n]? = some (.switch prev next ts)) (hrun : running m prev = some tsp) :
    prev.pid ≠ 0 ∧ ∃ i, Runs es prev.pid i n ∧ timeAt es i = tsp.toNat := by
  obtain ⟨h0, hget⟩ := Option.ite_none_left_eq_some.1 hrun
  obtain ⟨i, hi, hin, ht⟩ := h.runRecalls _ h0 tsp.toNat (by rw [hget]; rfl)
  exact ⟨h0, i, (runs_stop_iff he).2 ⟨rfl, hi, hin⟩, ht⟩

/-- The start of a run that stops here is found. -/
theorem Inv.isSome_of_runs (h : Inv es n m spans waits) {p : BitVec 32} {i : ℕ} (h0 : p ≠ 0)
    (hr : Runs es p i n) : (m.runStart.get? p).isSome := by
  have hget := h.runRemembers p h0 i hr.latest hr.opens
  rw [← Option.isSome_map (f := BitVec.toNat), hget]
  rfl

/-- A start of a wait that the probe finds is that of a wait which stops here. -/
theorem Inv.waits_of_waiting (h : Inv es n m spans waits)
    (he : es[n]? = some (.switch prev next ts)) (hwait : waiting m next = some tsp) :
    next.pid ≠ 0 ∧ ∃ i, Waits es next.pid i n ∧ timeAt es i = tsp.toNat := by
  obtain ⟨h0, hget⟩ := Option.ite_none_left_eq_some.1 hwait
  obtain ⟨i, hi, hq, ht⟩ := h.queueRecalls _ h0 tsp.toNat (by rw [hget]; rfl)
  exact ⟨h0, i, ⟨hq, (exists_at_iff he).2 rfl, hi⟩, ht⟩

/-- What the hash of runs holds after a switch. -/
theorem Inv.runStart_switch (h : Inv es n m spans waits)
    (he : es[n]? = some (.switch prev next ts)) (hne : prev.pid ≠ next.pid)
    (hm : Switched prev next ts m m') (p : BitVec 32) (h0 : p ≠ 0) :
    Recalls (fun i ↦ SwitchesIn es p i ∨ SwitchesOut es p i) (SwitchesIn es p) (timeAt es) (n + 1)
        ((m'.runStart.get? p).map BitVec.toNat) ∧
      Remembers (fun i ↦ SwitchesIn es p i ∨ SwitchesOut es p i) (SwitchesIn es p) (timeAt es)
        (n + 1) ((m'.runStart.get? p).map BitVec.toNat) := by
  have hin : SwitchesIn es p n ↔ next.pid = p := exists_at_iff he
  have hout : SwitchesOut es p n ↔ prev.pid = p := exists_at_iff he
  have hts := timeAt_of_getElem? he
  rw [hm.runStart p h0]
  by_cases hprev : prev.pid = p
  · have hnin : ¬ SwitchesIn es p n := fun hp ↦ hne (hprev.trans (hin.1 hp).symm)
    rw [if_pos hprev]
    exact ⟨recalls_none, remembers_clear (.inr (hout.2 hprev)) hnin⟩
  rw [if_neg hprev]
  by_cases hnext : next.pid = p
  · rw [if_pos hnext]
    exact ⟨recalls_put (.inl (hin.2 hnext)) (hin.2 hnext) hts,
      remembers_put (.inl (hin.2 hnext)) hts⟩
  · have hnot : ¬ (SwitchesIn es p n ∨ SwitchesOut es p n) :=
      not_or_intro (fun hp ↦ hnext (hin.1 hp)) fun hp ↦ hprev (hout.1 hp)
    rw [if_neg hnext]
    exact ⟨(h.runRecalls p h0).keep hnot, (h.runRemembers p h0).keep hnot⟩

/-- What the hash of waits holds after a switch. -/
theorem Inv.queueStart_switch (h : Inv es n m spans waits)
    (he : es[n]? = some (.switch prev next ts)) (hm : Switched prev next ts m m') (p : BitVec 32)
    (h0 : p ≠ 0) : Recalls (fun i ↦ Queues es p i ∨ SwitchesIn es p i) (Queues es p) (timeAt es)
      (n + 1) ((m'.queueStart.get? p).map BitVec.toNat) := by
  have hin : SwitchesIn es p n ↔ next.pid = p := exists_at_iff he
  have hts := timeAt_of_getElem? he
  rw [hm.queueStart p h0]
  by_cases hclose : prev.pid = p ∧ (m.runStart.get? p).isSome
  · obtain ⟨rfl, hsome⟩ := hclose
    obtain ⟨tsp, hget⟩ := Option.isSome_iff_exists.1 hsome
    have hrun : running m prev = some tsp := by rw [running, if_neg h0, hget]
    obtain ⟨-, i, hr, -⟩ := h.runs_of_running he hrun
    rw [if_pos ⟨rfl, hsome⟩]
    exact recalls_put (.inl (.inr ⟨i, hr⟩)) (.inr ⟨i, hr⟩) hts
  rw [if_neg hclose]
  by_cases hnext : next.pid = p
  · rw [if_pos hnext]
    exact recalls_none
  · rw [if_neg hnext]
    refine (h.queueRecalls p h0).keep ?_
    rintro ((hw | ⟨i, hr⟩) | hp)
    · exact (exists_at_iff he).1 hw
    · exact hclose ⟨(exists_at_iff he).1 hr.closes, h.isSome_of_runs h0 hr⟩
    · exact hnext (hin.1 hp)

/-- **The spans of the quanta after a switch** are the runs that stopped. -/
theorem Inv.quanta_switch (h : Inv es n m spans waits) (htrace : Trace es)
    (he : es[n]? = some (.switch prev next ts)) (hm : Switched prev next ts m m') :
    ∃ spans', List.Forall₂ (Measures es) m'.quantaRuntimes spans' ∧
      (∀ s, s ∈ spans' ↔ s.pid ≠ 0 ∧ Runs es s.pid s.start s.stop ∧ s.stop < n + 1) ∧
      spans'.Pairwise fun s s' ↦ s.stop < s'.stop := by
  have hlen := (List.getElem?_eq_some_iff.1 he).1
  rw [hm.quanta]
  cases hrun : running m prev with
  | none =>
    refine ⟨spans, ?_, fun s ↦ ?_, h.stops⟩
    · rw [Option.map_none, Option.toList_none, List.append_nil]
      exact h.quanta
    · rw [h.mem_spans]
      refine and_congr_right fun h0 ↦ and_congr_right fun hr ↦ ⟨Nat.lt_succ_of_lt, fun hlt ↦ ?_⟩
      refine (Nat.lt_succ_iff_lt_or_eq.1 hlt).resolve_right fun heq ↦ ?_
      -- a run that stops here would have been found
      rw [heq] at hr
      have hsome := h.isSome_of_runs h0 hr
      have hprev : prev.pid = s.pid := (exists_at_iff he).1 hr.closes
      rw [running, hprev, if_neg h0] at hrun
      rw [hrun] at hsome
      exact Bool.false_ne_true hsome
  | some tsp =>
    -- the run that stops here is the last span
    obtain ⟨h0, i, hr, hi⟩ := h.runs_of_running he hrun
    have hle := timeAt_mono htrace.sorted (Nat.le_of_lt hr.lt) hlen
    have hq := (measuresModulo_perfEvent (t := prev) hi (timeAt_of_getElem? he) hle).measures
      (htrace.shortRuns _ _ _ h0 hr)
    refine ⟨spans ++ [⟨prev.pid, i, n⟩], List.rel_append h.quanta (.cons hq .nil), fun s ↦ ?_, ?_⟩
    · rw [List.mem_append, h.mem_spans, List.mem_singleton]
      constructor
      · rintro (⟨hs0, hs, hlt⟩ | rfl)
        · exact ⟨hs0, hs, Nat.lt_succ_of_lt hlt⟩
        · exact ⟨h0, hr, Nat.lt_succ_self n⟩
      · rintro ⟨hs0, hs, hlt⟩
        obtain hlt | heq := Nat.lt_succ_iff_lt_or_eq.1 hlt
        · exact .inl ⟨hs0, hs, hlt⟩
        · obtain ⟨p, a, b⟩ := s
          obtain rfl : b = n := heq
          obtain rfl : prev.pid = p := (exists_at_iff he).1 hs.closes
          obtain rfl : a = i := hs.latest.unique hr.latest
          exact .inr rfl
    · refine List.pairwise_append.2 ⟨h.stops, List.pairwise_singleton _ _, fun s hs s' hs' ↦ ?_⟩
      obtain rfl := List.mem_singleton.1 hs'
      exact ((h.mem_spans s).1 hs).2.2

/-- **The spans of the queue times after a switch** are waits. -/
theorem Inv.times_switch (h : Inv es n m spans waits) (htrace : Trace es)
    (he : es[n]? = some (.switch prev next ts)) (hm : Switched prev next ts m m') :
    ∃ waits', List.Forall₂ (MeasuresModulo es) m'.quantaQueueTimes waits' ∧
      ∀ w ∈ waits', w.pid ≠ 0 ∧ Waits es w.pid w.start w.stop := by
  have hlen := (List.getElem?_eq_some_iff.1 he).1
  rw [hm.times]
  cases hwait : waiting m next with
  | none =>
    refine ⟨waits, ?_, h.mem_waits⟩
    rw [Option.map_none, Option.toList_none, List.append_nil]
    exact h.times
  | some tsp =>
    obtain ⟨h0, i, hw, hi⟩ := h.waits_of_waiting he hwait
    have hle := timeAt_mono htrace.sorted (Nat.le_of_lt hw.lt) hlen
    have hq := measuresModulo_perfEvent (t := next) hi (timeAt_of_getElem? he) hle
    refine ⟨waits ++ [⟨next.pid, i, n⟩], List.rel_append h.times (.cons hq .nil),
      List.forall_mem_append.2 ⟨h.mem_waits, ?_⟩⟩
    exact List.forall_mem_singleton.2 ⟨h0, hw⟩

/-- **Every event keeps the invariant.** -/
theorem Inv.step (h : Inv es n m spans waits) (htrace : Trace es) {e : Event}
    (he : es[n]? = some e) (hstep : step m e = some m') :
    ∃ spans' waits', Inv es (n + 1) m' spans' waits' := by
  cases e with
  | wakeUpNewTask t ts =>
    obtain rfl := Option.some.inj hstep
    exact ⟨spans, waits, h.wake he rfl (fun _ ↦ Iff.rfl) (fun _ ↦ id) (fun _ ↦ id)
      woken_traceWakeUpNewTask⟩
  | ttwuDoWakeup t ts =>
    obtain rfl := Option.some.inj hstep
    exact ⟨spans, waits, h.wake he rfl (fun _ ↦ Iff.rfl) (fun _ ↦ id) (fun _ ↦ id)
      woken_traceTtwuDoWakeup⟩
  | switch prev next ts =>
    obtain rfl := Option.some.inj hstep
    have hne := htrace.differ prev next ts (List.mem_of_getElem? he)
    have hm : Switched prev next ts m (traceRun prev next ts m) := switched hne
    obtain ⟨spans', hquanta, hspans, hstops⟩ := h.quanta_switch htrace he hm
    obtain ⟨waits', htimes, hwaits⟩ := h.times_switch htrace he hm
    exact ⟨spans', waits', fun p h0 ↦ (h.runStart_switch he hne hm p h0).1,
      fun p h0 ↦ (h.runStart_switch he hne hm p h0).2, h.queueStart_switch he hm, hquanta, hspans,
      hstops, htimes, hwaits⟩

/-- **The invariant holds at the end of every trace.** -/
theorem exists_inv (htrace : Trace es)
    (h : Run.exec Sched.step init es = some m) : ∃ spans waits, Inv es es.length m spans waits := by
  refine Run.exec_invariant_at (I := fun n m ↦ ∃ spans waits, Inv es n m spans waits) ?_
    ⟨[], [], inv_init⟩ h
  rintro n e m m' he ⟨spans, waits, hinv⟩ hstep
  exact hinv.step htrace he hstep

end Invariant

/-! ### The laws -/

section Laws

variable {es : List Event} {m : Maps} {spans waits : List Span} {p : BitVec 32} {i j : ℕ}

theorem Trace.not_switchesIn_of_switchesOut (h : Trace es) (hout : SwitchesOut es p i) :
    ¬ SwitchesIn es p i := by
  obtain ⟨e, he, hout⟩ := hout
  intro hswitch
  have hin := (exists_at_iff he).1 hswitch
  cases e with
  | wakeUpNewTask t ts => exact hout
  | ttwuDoWakeup t ts => exact hout
  | switch prev next ts =>
    exact h.differ prev next ts (List.mem_of_getElem? he) (hout.trans hin.symm)

theorem not_switchesIn_of_wakes (hw : Wakes es p i) : ¬ SwitchesIn es p i := by
  obtain ⟨e, he, hw⟩ := hw
  intro hswitch
  have hin := (exists_at_iff he).1 hswitch
  cases e with
  | wakeUpNewTask t ts => exact hin
  | ttwuDoWakeup t ts => exact hin
  | switch prev next ts => exact hw

theorem Trace.not_switchesIn_of_queues (h : Trace es) (hq : Queues es p i) :
    ¬ SwitchesIn es p i := by
  rcases hq with hw | ⟨start, hr⟩
  · exact not_switchesIn_of_wakes hw
  · exact h.not_switchesIn_of_switchesOut hr.closes

/-- A switch-in is that of one pid. -/
theorem pid_unique {p' : BitVec 32} (h : SwitchesIn es p i) (h' : SwitchesIn es p' i) :
    p = p' := by
  obtain ⟨e, he, hin⟩ := h
  have hin' := (exists_at_iff he).1 h'
  cases e with
  | wakeUpNewTask t ts => exact hin.elim
  | ttwuDoWakeup t ts => exact hin.elim
  | switch prev next ts => exact hin.symm.trans hin'

/-- Two runs of a pid, of which one stops first. -/
theorem Trace.lt_of_runs (h : Trace es) {i' j' : ℕ} (hr : Runs es p i j) (hr' : Runs es p i' j')
    (hlt : j < j') : j < i' := by
  refine Nat.lt_of_le_of_ne (hr'.latest.le_of_lt (.inr hr.closes) hlt) fun heq ↦ ?_
  exact h.not_switchesIn_of_switchesOut hr.closes (heq ▸ hr'.opens)

/-- The lengths of a pid's quanta are those of its spans. -/
theorem map_length_filter {quanta : List QuantaRuntimePerfEvent}
    (h : List.Forall₂ (Measures es) quanta spans) (p : BitVec 32) :
    (quanta.filter (·.pid = p)).map (fun q ↦ q.quantaRunLengthUs.toNat) =
      ((spans.filter (·.pid = p)).map fun s ↦ (timeAt es s.start, timeAt es s.stop)).map
        fun x ↦ (x.2 - x.1) / 1000 := by
  induction h with
  | nil => rfl
  | @cons q s quanta spans hq _ ih =>
    simp only [List.filter_cons, hq.pid]
    split_ifs
    · rw [List.map_cons, List.map_cons, List.map_cons, hq.length, ih]
    · exact ih

/-- **The laws of the quanta** hold where the invariant does. -/
theorem Inv.quantaLaws (h : Inv es es.length m spans waits) (htrace : Trace es) :
    QuantaLaws es m.quantaRuntimes spans := by
  have hruns : ∀ s ∈ spans, Runs es s.pid s.start s.stop := fun s hs ↦ ((h.mem_spans s).1 hs).2.1
  have hlen : ∀ s ∈ spans, s.stop < es.length := fun s hs ↦ ((h.mem_spans s).1 hs).2.2
  have hdisjoint : spans.Pairwise fun s s' ↦ s.pid = s'.pid →
      s.stop < s'.start ∧ timeAt es s.stop ≤ timeAt es s'.start := by
    refine h.stops.imp_of_mem fun {s s'} hs hs' hlt hpid ↦ ?_
    have hstart := htrace.lt_of_runs (hruns s hs) (hpid ▸ hruns s' hs') hlt
    exact ⟨hstart, timeAt_mono htrace.sorted (Nat.le_of_lt hstart)
      (Nat.lt_trans (hruns s' hs').lt (hlen s' hs'))⟩
  refine ⟨h.quanta, fun s hs ↦ (hruns s hs).closes, fun s hs ↦ ?_, ?_, hdisjoint, fun p ↦ ?_⟩
  · exact (hruns s hs).latest.of_imp (hruns s hs).opens fun _ ↦ .inl
  · refine List.pairwise_map.2 (h.stops.imp_of_mem fun {s s'} hs hs' hlt heq ↦ ?_)
    have hpid : s.pid = s'.pid := pid_unique (hruns s hs).opens (heq ▸ (hruns s' hs').opens)
    have hstart := htrace.lt_of_runs (hruns s hs) (hpid ▸ hruns s' hs') hlt
    exact absurd (heq ▸ hstart) (Nat.lt_asymm (hruns s hs).lt)
  · rw [map_length_filter h.quanta]
    refine sum_div_le_of_pairwise 1000 ?_ fun x hx ↦ ?_
    · refine List.pairwise_map.2 ((hdisjoint.sublist List.filter_sublist).imp_of_mem ?_)
      intro s s' hs hs' hle
      have hs := of_decide_eq_true (List.mem_filter.1 hs).2
      have hs' := of_decide_eq_true (List.mem_filter.1 hs').2
      exact (hle (hs.trans hs'.symm)).2
    · obtain ⟨s, hs, rfl⟩ := List.mem_map.1 hx
      have hs := (List.mem_filter.1 hs).1
      have hle := Nat.le_of_lt (hruns s hs).lt
      have hlt := hlen s hs
      exact ⟨timeAt_mono htrace.sorted (Nat.zero_le _) (Nat.lt_of_le_of_lt hle hlt),
        timeAt_mono htrace.sorted hle hlt, timeAt_mono htrace.sorted (by omega) (by omega)⟩

/-- The entries to the queue, by what is reported. -/
theorem Inv.enqueues_iff (h : Inv es es.length m spans waits) (h0 : p ≠ 0) :
    Enqueues es spans p i ↔ Queues es p i := by
  refine or_congr_right ⟨?_, ?_⟩
  · rintro ⟨s, hs, rfl, rfl⟩
    exact ⟨s.start, ((h.mem_spans s).1 hs).2.1⟩
  · rintro ⟨start, hr⟩
    exact ⟨⟨p, start, i⟩, (h.mem_spans _).2 ⟨h0, hr, lt_length_of_at hr.closes⟩, rfl, rfl⟩

/-- **The laws of the queue times** hold where the invariant does. -/
theorem Inv.queueLaws (h : Inv es es.length m spans waits) (htrace : Trace es) :
    QueueLaws (MeasuresModulo es) es spans m.quantaQueueTimes waits := by
  refine ⟨h.times, fun w hw ↦ (h.mem_waits w hw).2.closes, fun w hw ↦ ?_, fun w hw i hi hlt ↦ ?_⟩
  · obtain ⟨h0, hwait⟩ := h.mem_waits w hw
    exact hwait.latest.of_imp ((h.enqueues_iff h0).2 hwait.opens) fun k hk ↦
      .inl ((h.enqueues_iff h0).1 hk)
  · obtain ⟨-, hwait⟩ := h.mem_waits w hw
    refine Nat.lt_of_le_of_ne (Nat.le_of_not_lt fun hgt ↦ ?_) ?_
    · exact hwait.latest.last i hgt hlt (.inr hi)
    · rintro rfl
      exact htrace.not_switchesIn_of_queues hwait.opens hi

/-- Nothing stops the probes. -/
theorem exists_step (m : Maps) (e : Event) : ∃ m', step m e = some m' := by
  cases e with
  | wakeUpNewTask t ts => exact ⟨_, rfl⟩
  | ttwuDoWakeup t ts => exact ⟨_, rfl⟩
  | switch prev next ts => exact ⟨_, rfl⟩

/-- **The quanta are the spans from the latest switch-in to a switch-out**, and the queue times
those from the latest entry to the queue to a switch-in, in 32 bits. That a pid runs on one CPU at a
time is not needed. -/
theorem quanta_laws (htrace : Trace es) :
    ∃ m spans waits, Run.exec step init es = some m ∧ QuantaLaws es m.quantaRuntimes spans ∧
      QueueLaws (MeasuresModulo es) es spans m.quantaQueueTimes waits := by
  obtain ⟨m, hm⟩ := Run.exists_exec exists_step init es
  obtain ⟨spans, waits, h⟩ := exists_inv htrace hm
  exact ⟨m, spans, waits, hm, h.quantaLaws htrace, h.queueLaws htrace⟩

/-- A task wakes up, runs and stops. -/
def shortRun : List Event :=
  [.ttwuDoWakeup ⟨7, 7⟩ 1000, .switch ⟨0, 0⟩ ⟨7, 7⟩ 3000, .switch ⟨7, 7⟩ ⟨0, 0⟩ 9500]

theorem quanta_laws_shortRun : Trace shortRun ∧
    ∃ m spans waits, Run.exec step init shortRun = some m ∧
      QuantaLaws shortRun m.quantaRuntimes spans ∧
      QueueLaws (MeasuresModulo shortRun) shortRun spans m.quantaQueueTimes waits := by
  have hle : ∀ i, timeAt shortRun i ≤ 9500 := timeAt_le (by decide)
  have hdiffer : ∀ e ∈ shortRun, ∀ prev next ts, e = .switch prev next ts →
      prev.pid ≠ next.pid := by
    rintro e he prev next ts rfl
    simp only [shortRun, List.mem_cons, List.not_mem_nil, or_false, reduceCtorEq,
      Event.switch.injEq, false_or] at he
    obtain ⟨rfl, rfl, -⟩ | ⟨rfl, rfl, -⟩ := he
    · decide
    · decide
  have htrace : Trace shortRun :=
    ⟨by decide, fun prev next ts h ↦ hdiffer _ h prev next ts rfl, fun _ i j _ _ ↦ by
      have := hle i
      have := hle j
      omega⟩
  exact ⟨htrace, quanta_laws htrace⟩

/-- A task waits for `2 ^ 32` microseconds. -/
def longWait : List Event := [.ttwuDoWakeup ⟨7, 7⟩ 0, .switch ⟨0, 0⟩ ⟨7, 7⟩ 4294967296000]

/-- The length of a wait wraps: the one of `2 ^ 32` microseconds is reported as 0. -/
theorem not_queueLaws_of_longWait : ¬ ∀ es, Trace es → ∃ m spans waits,
    Run.exec step init es = some m ∧ QuantaLaws es m.quantaRuntimes spans ∧
      QueueLaws (Measures es) es spans m.quantaQueueTimes waits := by
  have hone : ∀ (p : BitVec 32) (i j : ℕ), i < j → SwitchesOut longWait p j → p = 0 := by
    rintro p i j hij ⟨e, he, hout⟩
    obtain _ | _ | j := j
    · exact absurd hij (Nat.not_lt_zero i)
    · obtain rfl := Option.some.inj he
      exact hout.symm
    · exact absurd he (by simp [longWait])
  have htrace : Trace longWait := by
    refine ⟨by decide, fun prev next ts h ↦ ?_, fun p i j h0 hr ↦ ?_⟩
    · simp only [longWait, List.mem_cons, List.not_mem_nil, or_false, reduceCtorEq,
        Event.switch.injEq, false_or] at h
      obtain ⟨rfl, rfl, -⟩ := h
      decide
    · exact absurd (hone p i j hr.lt hr.closes) h0
  intro hall
  obtain ⟨m, spans, waits, hm, -, hlaws⟩ := hall longWait htrace
  have htimes : (Run.exec step init longWait).map Maps.quantaQueueTimes =
      some [⟨7, 7, 4294967296, 0⟩] := by decide
  rw [hm] at htimes
  have hmeasures := hlaws.measures
  rw [Option.some.inj htimes] at hmeasures
  obtain ⟨w, hw, rfl⟩ : ∃ w, Measures longWait ⟨7, 7, 4294967296, 0⟩ w ∧ waits = [w] := by
    obtain ⟨w, ws, hw, hnil, rfl⟩ := List.forall₂_cons_left_iff.1 hmeasures
    exact ⟨w, hw, by rw [List.forall₂_nil_left_iff.1 hnil]⟩
  have hlt := (hlaws.fromLatest w (List.mem_singleton_self w)).lt
  have hstop : w.stop < 2 :=
    @lt_length_of_at longWait _ _ (hlaws.atSwitchIn w (List.mem_singleton_self w))
  have hlength := hw.length
  rw [show w.start = 0 by omega, show w.stop = 1 by omega] at hlength
  exact absurd hlength (by decide)

end Laws

end Sched
