import HugePageResearch.Python.Text
import Mathlib.Tactic.Common

/-!
# The polling thread

`poll_instrumentation` of `cli/collect.py`: the loop that polls every hook and then the benchmark,
the kill of a benchmark that was interrupted, the final drain, and the one `queue.put` that
`run_collect` waits for.

The environment is data: what each call answers, pass by pass. A run of the function is evaluated
against it, and is `none` where the recorded passes end with the loop still going. Three handlers
decide whether an exception ends the thread: the loop catches `BenchmarkNotRunningError` and nothing
else, the kill stands outside every handler, and the drain catches `Exception`.

`pollInstrumentation_queue_iff` says when a thread that ended has fed the queue: exactly when no
call it made raised past the handler around it.
-/

namespace Collect

/-- An exception, by the handlers of this program that tell it apart. -/
inductive PyException where
  /-- `BenchmarkNotRunningError`. -/
  | benchmarkNotRunning
  /-- Another subclass of `Exception`, such as a hook's `RuntimeError`. -/
  | exception (message : PyStr)
  /-- An exception that is no `Exception`, such as `SystemExit`. -/
  | baseException (message : PyStr)
  deriving DecidableEq

/-- What a call answers: a value, or the exception it raises. -/
abbrev Call (α : Type*) := Except PyException α

variable {ι : Type*}

/-- `for bpf_program in bpf_programs: bpf_program.poll()`: the first exception ends the loop. -/
def pollHooks (poll : ι → Call Unit) : List ι → Call Unit
  | [] => .ok ()
  | i :: is => (poll i).bind fun _ ↦ pollHooks poll is

/-- The drain: `bpf_program.poll()` under `except Exception: pass`. -/
def drainHooks (poll : ι → Call Unit) : List ι → Call Unit
  | [] => .ok ()
  | i :: is =>
    match poll i with
    | .error (.baseException m) => .error (.baseException m)
    | _ => drainHooks poll is

/-- What the environment answers in one pass of the loop. -/
structure Pass (ι : Type*) where
  /-- `run_event.is_set()` at the test. -/
  isSet : Bool
  /-- The `poll()` of each hook. -/
  hooks : ι → Call Unit
  /-- `benchmark.poll()`. -/
  benchmark : Call (Option ℤ)

/-- The body of the `try`: the hooks in order, then the benchmark. -/
def Pass.body (bpfPrograms : List ι) (p : Pass ι) : Call (Option ℤ) :=
  (pollHooks p.hooks bpfPrograms).bind fun _ ↦ p.benchmark

/-- What the environment of one run of the thread answers. -/
structure Environment (ι : Type*) where
  /-- The passes of the loop, in order. -/
  passes : List (Pass ι)
  /-- `run_event.is_set()` after the loop. -/
  isSetAfter : Bool
  /-- `benchmark.kill()`. -/
  kill : Call Unit
  /-- `benchmark.name()`. -/
  benchmarkName : PyStr
  /-- The `poll()` of each hook in the drain. -/
  drain : ι → Call Unit

/-- How the loop stands at the end of the recorded passes. -/
inductive LoopEnd where
  /-- Still going. -/
  | polling
  /-- Left by its test, with this return code. -/
  | left (returnCode : Option ℤ)
  /-- Ended by an exception. -/
  | raised (e : PyException)

/-- `while return_code is None and run_event.is_set()`. -/
def pollLoop (bpfPrograms : List ι) : List (Pass ι) → LoopEnd
  | [] => .polling
  | p :: ps =>
    if p.isSet then
      match p.body bpfPrograms with
      | .ok none => pollLoop bpfPrograms ps
      | .ok (some code) => .left (some code)
      | .error .benchmarkNotRunning => pollLoop bpfPrograms ps
      | .error e => .raised e
    else .left none

/-- How the function ended: what it put on the queue, and what it returned or raised. -/
structure Ended where
  /-- The queue, which nobody else feeds. -/
  queue : List ℤ
  /-- The return value or the exception. -/
  result : Call ℤ

/-- Everything after the loop. -/
def finish (bpfPrograms : List ι) (env : Environment ι) (returnCode : Option ℤ) : Ended :=
  let killed : Call (Option ℤ) :=
    if env.isSetAfter then .ok returnCode
    else env.kill.bind fun _ ↦ .ok (some (if env.benchmarkName = "faux".toList then 0 else 1))
  match killed.bind fun code ↦
    (drainHooks env.drain bpfPrograms).bind fun _ ↦ .ok (code.getD 1) with
  | .ok code => ⟨[code], .ok code⟩
  | .error e => ⟨[], .error e⟩

/-- `poll_instrumentation`; `none` while it has not ended. -/
def pollInstrumentation (bpfPrograms : List ι) (env : Environment ι) : Option Ended :=
  match pollLoop bpfPrograms env.passes with
  | .polling => none
  | .raised e => some ⟨[], .error e⟩
  | .left code => some (finish bpfPrograms env code)

/-! ### What the loop lets through -/

/-- A pass after which the loop comes back to its test with no return code. -/
def Pass.GoesOn (bpfPrograms : List ι) (p : Pass ι) : Prop :=
  p.isSet = true ∧
    (p.body bpfPrograms = .ok none ∨ p.body bpfPrograms = .error .benchmarkNotRunning)

/-- A pass in which a hook or the benchmark raises past the handler of the loop. -/
def Pass.Escapes (bpfPrograms : List ι) (p : Pass ι) : Prop :=
  p.isSet = true ∧ ∃ e, p.body bpfPrograms = .error e ∧ e ≠ .benchmarkNotRunning

/-- No pass that the loop reaches lets an exception escape. -/
def LoopQuiet (bpfPrograms : List ι) (passes : List (Pass ι)) : Prop :=
  ∀ pre p post, passes = pre ++ p :: post → (∀ q ∈ pre, q.GoesOn bpfPrograms) →
    ¬ p.Escapes bpfPrograms

variable {bpfPrograms : List ι} {env : Environment ι}

theorem pollLoop_cons_of_goesOn {p : Pass ι} (hp : p.GoesOn bpfPrograms) (ps : List (Pass ι)) :
    pollLoop bpfPrograms (p :: ps) = pollLoop bpfPrograms ps := by
  obtain ⟨hset, hbody | hbody⟩ := hp
  · simp only [pollLoop, hset, hbody, if_true]
  · simp only [pollLoop, hset, hbody, if_true]

/-- An escaping exception ends the loop. -/
theorem Pass.Escapes.raised {p : Pass ι} (hp : p.Escapes bpfPrograms) (ps : List (Pass ι)) :
    ∃ e, pollLoop bpfPrograms (p :: ps) = .raised e := by
  obtain ⟨hset, e, he, hne⟩ := hp
  refine ⟨e, ?_⟩
  cases e with
  | benchmarkNotRunning => exact absurd rfl hne
  | exception m => simp only [pollLoop, hset, he, if_true]
  | baseException m => simp only [pollLoop, hset, he, if_true]

/-- **One pass**: the loop goes on, is left by its test, or an exception escapes. -/
theorem Pass.cases (bpfPrograms : List ι) (p : Pass ι) (ps : List (Pass ι)) :
    p.GoesOn bpfPrograms ∨ (∃ code, pollLoop bpfPrograms (p :: ps) = .left code) ∨
      p.Escapes bpfPrograms := by
  rcases hset : p.isSet with - | -
  · exact Or.inr (Or.inl ⟨none, by simp only [pollLoop, hset, if_false, Bool.false_eq_true]⟩)
  rcases hbody : p.body bpfPrograms with e | code
  · by_cases he : e = .benchmarkNotRunning
    · exact Or.inl ⟨hset, Or.inr (he ▸ hbody)⟩
    · exact Or.inr (Or.inr ⟨hset, e, hbody, he⟩)
  · cases code with
    | none => exact Or.inl ⟨hset, Or.inl hbody⟩
    | some code =>
      exact Or.inr (Or.inl ⟨some code, by simp only [pollLoop, hset, hbody, if_true]⟩)

theorem Pass.GoesOn.not_escapes {p : Pass ι} (hp : p.GoesOn bpfPrograms) :
    ¬ p.Escapes bpfPrograms := by
  rintro ⟨-, e, he, hne⟩
  rcases hp.2 with hbody | hbody
  · rw [hbody] at he
    exact absurd he (by simp)
  · rw [hbody] at he
    exact hne (Except.error.inj he).symm

theorem loopQuiet_cons {p : Pass ι} {ps : List (Pass ι)} : LoopQuiet bpfPrograms (p :: ps) ↔
    ¬ p.Escapes bpfPrograms ∧ (p.GoesOn bpfPrograms → LoopQuiet bpfPrograms ps) := by
  constructor
  · intro h
    refine ⟨h [] p ps rfl (by simp), fun hp pre q post hps hpre ↦ ?_⟩
    refine h (p :: pre) q post (by rw [hps, List.cons_append]) ?_
    intro r hr
    rcases List.mem_cons.1 hr with rfl | hr
    · exact hp
    · exact hpre r hr
  · rintro ⟨hp, hps⟩ pre q post heq hpre
    cases pre with
    | nil =>
      obtain ⟨rfl, -⟩ := List.cons.inj heq
      exact hp
    | cons r pre =>
      obtain ⟨rfl, rfl⟩ := List.cons.inj heq
      exact hps (hpre p List.mem_cons_self) pre q post rfl
        fun s hs ↦ hpre s (List.mem_cons_of_mem _ hs)

/-- **The loop raises exactly when a pass it reaches escapes.** The induction is on the passes; a
pass that goes on hands the question to the rest. -/
theorem loopQuiet_iff (passes : List (Pass ι)) : LoopQuiet bpfPrograms passes ↔
    ∀ e, pollLoop bpfPrograms passes ≠ .raised e := by
  induction passes with
  | nil =>
    refine ⟨fun _ e he ↦ by simp [pollLoop] at he, fun _ pre p post h ↦ ?_⟩
    exact absurd h (by simp)
  | cons p ps ih =>
    rw [loopQuiet_cons]
    rcases p.cases bpfPrograms ps with hp | ⟨code, hleft⟩ | hp
    · rw [pollLoop_cons_of_goesOn hp, ← ih]
      exact ⟨fun h ↦ h.2 hp, fun h ↦ ⟨hp.not_escapes, fun _ ↦ h⟩⟩
    · refine ⟨fun _ e he ↦ by rw [hleft] at he; simp at he, fun h ↦ ⟨fun hp ↦ ?_, fun hp ↦ ?_⟩⟩
      · obtain ⟨e, he⟩ := hp.raised ps
        exact h e he
      · rw [pollLoop_cons_of_goesOn hp] at h
        exact ih.2 h
    · obtain ⟨e, he⟩ := hp.raised ps
      exact ⟨fun h ↦ absurd hp h.1, fun h ↦ absurd he (h e)⟩

/-! ### What the rest lets through -/

/-- The drain ends quietly exactly when no hook raises past `Exception`. -/
theorem drainHooks_ok_iff (poll : ι → Call Unit) (is : List ι) :
    drainHooks poll is = .ok () ↔ ∀ i ∈ is, ∀ m, poll i ≠ .error (.baseException m) := by
  induction is with
  | nil => simp [drainHooks]
  | cons i is ih =>
    rw [List.forall_mem_cons]
    rcases hi : poll i with e | u
    · cases e with
      | baseException m => simp [drainHooks, hi]
      | benchmarkNotRunning => simp [drainHooks, hi, ih]
      | exception m => simp [drainHooks, hi, ih]
    · simp [drainHooks, hi, ih]

/-- No call of the thread raises past the handler around it. -/
structure Quiet (bpfPrograms : List ι) (env : Environment ι) : Prop where
  /-- In the loop, hooks and benchmark raise at most `BenchmarkNotRunningError`. -/
  loop : LoopQuiet bpfPrograms env.passes
  /-- A benchmark that has to be killed can be. -/
  kill : env.isSetAfter = false → env.kill = .ok ()
  /-- In the drain, the hooks raise at most an `Exception`. -/
  drain : ∀ i ∈ bpfPrograms, ∀ m, env.drain i ≠ .error (.baseException m)

/-- After the loop, the queue is fed exactly when kill and drain are quiet. -/
theorem finish_queue_iff (code : Option ℤ) : (finish bpfPrograms env code).queue.length = 1 ↔
    (env.isSetAfter = false → env.kill = .ok ()) ∧
      ∀ i ∈ bpfPrograms, ∀ m, env.drain i ≠ .error (.baseException m) := by
  rw [← drainHooks_ok_iff]
  rcases hset : env.isSetAfter with - | - <;> rcases hkill : env.kill with e | ⟨⟨⟩⟩ <;>
    rcases hdrain : drainHooks env.drain bpfPrograms with e' | ⟨⟨⟩⟩ <;>
    simp [finish, hset, hkill, hdrain, Except.bind]

/-- **A polling thread that ended has put exactly one return code on the queue if and only if no
call it made raised past the handler around it.** -/
theorem pollInstrumentation_queue_iff {r : Ended}
    (h : pollInstrumentation bpfPrograms env = some r) :
    r.queue.length = 1 ↔ Quiet bpfPrograms env := by
  have hquiet : Quiet bpfPrograms env ↔ LoopQuiet bpfPrograms env.passes ∧
      (env.isSetAfter = false → env.kill = .ok ()) ∧
        ∀ i ∈ bpfPrograms, ∀ m, env.drain i ≠ .error (.baseException m) :=
    ⟨fun q ↦ ⟨q.loop, q.kill, q.drain⟩, fun ⟨h1, h2, h3⟩ ↦ ⟨h1, h2, h3⟩⟩
  rw [hquiet, loopQuiet_iff]
  rcases hloop : pollLoop bpfPrograms env.passes with - | code | e
  · rw [pollInstrumentation, hloop] at h
    exact absurd h (by simp)
  · rw [pollInstrumentation, hloop] at h
    obtain rfl := Option.some.inj h
    rw [finish_queue_iff]
    exact ⟨fun h ↦ ⟨by simp, h⟩, fun h ↦ h.2⟩
  · rw [pollInstrumentation, hloop] at h
    obtain rfl := Option.some.inj h
    exact ⟨fun h ↦ absurd h (by simp), fun h ↦ absurd rfl (h.1 e)⟩

/-- One hook and a benchmark that finishes in the first pass. -/
def calmEnvironment : Environment Unit where
  passes := [⟨true, fun _ ↦ .ok (), .ok (some 0)⟩]
  isSetAfter := true
  kill := .ok ()
  benchmarkName := "redis".toList
  drain _ := .ok ()

theorem calmEnvironment_queue_iff : ∃ r, pollInstrumentation [()] calmEnvironment = some r ∧
    (r.queue.length = 1 ↔ Quiet [()] calmEnvironment) :=
  ⟨_, rfl, pollInstrumentation_queue_iff rfl⟩

/-- The same, but the hook is polled before its target process exists. -/
def earlyEnvironment : Environment Unit :=
  { calmEnvironment with
    passes := [⟨true, fun _ ↦ .error (.exception
      "proc_maps: no process matching 'redis-server' found in /proc".toList), .ok none⟩] }

/-- The thread ends with the hook's `RuntimeError` and the queue stays empty. -/
theorem earlyEnvironment_queue_empty :
    ∃ r, pollInstrumentation [()] earlyEnvironment = some r ∧ r.queue.length ≠ 1 :=
  ⟨_, rfl, by decide⟩

end Collect
