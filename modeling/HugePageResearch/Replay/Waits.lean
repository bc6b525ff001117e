import HugePageResearch.Library.Clock
import HugePageResearch.Replay.Lifecycle
import Mathlib.Tactic.NormNum

/-!
# The waits of a benchmark end

The waits of `data_collection/replay_trace.py` for the old server to exit and for the new one to
answer look at the clock in every turn and sleep before the next one. `runBenchmark_ends` says that
no benchmark uses up 3001 turns of a wait where sleeping takes its time, so that the bound on the
turns is no restriction of the runs.
-/

namespace Replay

namespace Lifecycle

open Script

/-! ### The waits -/

/-- `time.monotonic()` and `time.sleep`. -/
def clock : Clock Cmd Ans where
  use
    | .monotonic => .look fun now ↦ now
    | .sleep seconds => .sleep seconds
    | _ => .neither

/-- The script is not cut off where the clock ticks, and `P` holds where it returns. -/
abbrev Ends {α : Type} (P : Log → Prop) (s : Action α) (h : Log) : Prop :=
  clock.Ends Failure.waiting P s h

section Ends

variable {P : Log → Prop} {h : Log} {turns : ℕ}

theorem ends_redisProcessExited {pid : ℤ} (hP : clock.Steady P) (hp : P h) :
    Ends P (redisProcessExited pid) h := by
  refine meets_ask.2 ⟨trivial, fun waitedPid ↦ ?_⟩
  have hp₁ : P (h ++ [⟨.waitpid pid, waitedPid⟩]) := hP h _ waitedPid rfl hp
  show (if _ then _ else _ : Action Bool).Meets _ _ _ _
  split_ifs
  · exact hp₁
  · refine meets_ask.2 ⟨trivial, fun signalled ↦ ?_⟩
    have hp₂ := hP _ (.kill pid) signalled rfl hp₁
    cases signalled <;> exact hp₂

/-- **A wait** ends, if its poll does: after as many turns as pauses fit into its time. -/
theorem ends_pollUntil {poll : Action Bool} {start timeout : ℚ} {m k : ℕ}
    (hpoll : ∀ P h, clock.Steady P → P h → Ends P poll h) (hm : timeout ≤ 1 / 10 * m)
    (hw : clock.Waits m (start + 1 / 10 * k) turns k h) :
    Ends (fun _ ↦ True) (pollUntil poll (start + timeout) turns) h := by
  induction turns generalizing h k with
  | zero => exact fun _ ht ↦ absurd (hw.left ht).1 (lt_irrefl 0)
  | succ turns ih =>
    refine meets_ask.2 ⟨trivial, fun now ↦ ?_⟩
    show (if _ then _ else _ : Action Unit).Meets _ _ _ _
    split_ifs with hearly
    · have hnow : now < start + 1 / 10 * (m : ℚ) := hearly.trans_le (add_le_add_right hm start)
      have hlooked : clock.Waits m (start + 1 / 10 * k) turns (k + 1) (h ++ [⟨.monotonic, now⟩]) :=
        hw.looked (by norm_num) rfl hnow
      refine meets_seq (hpoll _ _ Clock.steady_waits hlooked) fun done h₂ hw₂ ↦ ?_
      cases done with
      | true => trivial
      | false => exact meets_tell.2 ⟨trivial, fun u ↦ ih (hw₂.slept rfl)⟩
    · exact fun heq ↦ Failure.noConfusion heq

theorem ends_configGet {parameter : PyStr} : Ends (fun _ ↦ True) (configGet parameter) h := by
  refine meets_ask.2 ⟨trivial, fun value ↦ ?_⟩
  cases value with
  | none => exact fun heq ↦ Failure.noConfusion heq
  | some value => trivial

theorem ends_getRedisPid : Ends (fun _ ↦ True) getRedisPid h := by
  refine meets_ask.2 ⟨trivial, fun processId ↦ ?_⟩
  rcases processId with _ | _ | pid
  · exact fun heq ↦ Failure.noConfusion heq
  · exact fun heq ↦ Failure.noConfusion heq
  · exact meets_seq (Clock.ends_require (by decide)) fun _ _ _ ↦ trivial

/-- **The wait for the old server.** -/
theorem ends_waitForRedisExit {pid : ℤ} (hturns : 3000 < turns) :
    Ends (fun _ ↦ True) (waitForRedisExit turns pid redisExitTimeout) h := by
  refine meets_ask.2 ⟨trivial, fun start ↦ ends_pollUntil (m := 300)
    (fun P h' hP hp ↦ ends_redisProcessExited hP hp) ?_ (Clock.waits_of_shown rfl (by omega))⟩
  norm_num [redisExitTimeout]

/-- **The wait for the new server.** -/
theorem ends_waitForRedis (hturns : 3000 < turns) :
    Ends (fun _ ↦ True) (waitForRedis turns redisRestoreTimeout) h := by
  refine meets_ask.2 ⟨trivial, fun start ↦ ends_pollUntil (m := 3000)
    (fun P h' hP hp ↦ ⟨trivial, fun pong ↦ hP h' _ pong rfl hp⟩) ?_
    (Clock.waits_of_shown rfl hturns)⟩
  norm_num [redisRestoreTimeout]

theorem ends_restoreSnapshot (hturns : 3000 < turns) :
    Ends (fun _ ↦ True) (restoreSnapshot turns) h :=
  meets_seq ends_getRedisPid fun _ _ _ ↦ meets_seq ends_configGet fun _ _ _ ↦
    meets_seq ends_configGet fun _ _ _ ↦ meets_ask.2 ⟨trivial, fun _ ↦
      meets_seq (Clock.ends_require (by decide)) fun _ _ _ ↦ meets_ask.2 ⟨trivial, fun _ ↦
        meets_seq (Clock.ends_require (by decide)) fun _ _ _ ↦
          meets_seq (ends_waitForRedisExit hturns) fun _ _ _ ↦ meets_ask.2 ⟨trivial, fun _ ↦
            meets_ask.2 ⟨trivial, fun _ ↦ meets_seq (Clock.ends_require (by decide)) fun _ _ _ ↦
              ends_waitForRedis hturns⟩⟩⟩⟩

theorem ends_timedRun {breakpoints : Breakpoints} {run : ℕ} {row : Row} (hturns : 3000 < turns) :
    Ends (fun _ ↦ True) (timedRun turns breakpoints run row) h :=
  meets_seq (ends_restoreSnapshot hturns) fun _ _ _ ↦ meets_seq (R := fun _ _ ↦ True)
    (meets_ask.2 ⟨trivial, fun _ ↦ Clock.ends_require (by decide)⟩) fun _ _ _ ↦
      meets_ask.2 ⟨trivial, fun _ ↦ meets_ask.2 ⟨trivial, fun _ ↦
        meets_seq (Clock.ends_require (by decide)) fun _ _ _ ↦
          meets_ask.2 ⟨trivial, fun _ ↦ trivial⟩⟩⟩

theorem ends_benchmark {breakpointsDf : List Breakpoints} {runs : ℤ} (hturns : 3000 < turns) :
    Ends (fun _ ↦ True) (benchmark turns breakpointsDf runs) h := by
  refine meets_seq (Clock.ends_forEach fun breakpoints results h₁ ↦ ?_) fun results h₂ _ ↦ ?_
  · exact meets_seq (Clock.ends_forEach fun run row h' ↦ ends_timedRun hturns) fun _ _ _ ↦ trivial
  · exact meets_ask.2 ⟨trivial, fun _ ↦ meets_seq (Clock.ends_require (by decide)) fun _ _ _ ↦
      meets_ask.2 ⟨trivial, fun _ ↦ Clock.ends_require (by decide)⟩⟩

theorem ends_runBenchmark {breakpointsDf : List Breakpoints} {runs : ℤ} (hturns : 3000 < turns) :
    Ends (fun _ ↦ True) (runBenchmark turns breakpointsDf runs) h := by
  refine meets_ask.2 ⟨trivial, fun configured ↦
    meets_seq (Clock.ends_require (by decide)) fun _ h₁ _ ↦ ?_⟩
  refine meets_seq (R := fun (raised : Except Failure Unit) h' ↦
    raised = .error .waiting → ¬ clock.Ticking h') (meets_attempt.2
      ((ends_benchmark hturns).mono (fun _ _ _ h ↦ by cases h)
        fun e h' he heq ↦ he (Except.error.inj heq))) fun raised h₂ hraised ↦ ?_
  refine meets_ask.2 ⟨trivial, fun restored ↦ ?_⟩
  have hkeep : raised = .error .waiting → ¬ clock.Ticking (h₂ ++ [⟨.teardownSystem, restored⟩]) :=
    fun heq ht ↦ hraised heq (Clock.ticking_of_concat ht)
  cases restored with
  | false => exact fun heq ↦ Failure.noConfusion heq
  | true =>
    cases raised with
    | ok u => trivial
    | error e => exact fun heq ↦ hkeep (congrArg _ heq)

end Ends

/-- **No wait goes on for ever** where sleeping takes its time: none takes more than 3001 turns,
whatever the host answers. -/
theorem runBenchmark_ends {turns : ℕ} (hturns : 3000 < turns) (breakpointsDf : List Breakpoints)
    (runs : ℤ) (env : Env Cmd Ans)
    (hticking : clock.Ticking ((runBenchmark turns breakpointsDf runs).run env []).1) :
    ((runBenchmark turns breakpointsDf runs).run env []).2 ≠ .error .waiting :=
  Clock.Ends.run (ends_runBenchmark hturns) env hticking

/-- A server that does not exit, and a clock that shows what was slept. -/
def stuckServer (h : Log) : (c : Cmd) → Ans c
  | .setupSystem => true
  | .info => some (some 7)
  | .configGet parameter => some parameter
  | .copySnapshot _ _ => true
  | .shutdown => .connectionError
  | .monotonic => clock.slept h
  | .waitpid _ => none
  | .kill _ => .sent
  | .sleep _ => ()
  | .moduleExists => true
  | .startRedis _ _ _ => true
  | .ping => true
  | .memoryPurge => true
  | .perfCounter => (0 : ℚ)
  | .replay _ => none
  | .mkdir => true
  | .writeParquet _ => true
  | .teardownSystem => true

theorem runBenchmark_ends_stuck :
    ((runBenchmark 3001 [Dict.empty] 1).run stuckServer []).2 ≠ .error .waiting := by
  refine runBenchmark_ends (by decide) [Dict.empty] 1 stuckServer
    (Clock.ticking_run fun h c now hnow ↦ ?_)
  cases c with
  | monotonic => exact (Option.some.inj hnow).symm
  | _ => cases hnow

end Lifecycle

end Replay
