import HugePageResearch.Library.Clock
import HugePageResearch.Zswap.RemoteRunner
import Mathlib.Tactic.Linarith
import Mathlib.Tactic.NormNum

/-!
# The waits of the experiments end

Two loops of `benchmark/zswap/remote_runner.py` are `while True`: the wait for the host to come back
from a reboot, and the wait for a trial. Both ask the clock in every turn, give up after a time and
sleep for a while before the next turn. So they end where sleeping takes its time: `main_ends` says
that no run uses up 92 turns of a loop. The bound on the turns is then no restriction of the runs.
-/

namespace Zswap

namespace Remote

open Script

/-! ### The clock -/

/-- `time.time()` and `time.sleep`. -/
def clock : Clock Cmd Ans where
  use
    | .time => .look fun now ↦ now
    | .sleep seconds => .sleep seconds
    | _ => .neither

/-! ### Parts that do not wait -/

/-- The script is not cut off where the clock ticks, and `P` holds where it returns. -/
abbrev Ends {α : Type} (P : Log → Prop) (s : Action α) (h : Log) : Prop :=
  clock.Ends Failure.waiting P s h

section Ends

variable {P : Log → Prop} {h : Log} {ssh : Bool}

theorem ends_connect (hP : clock.Steady P) (hp : P h) : Ends P (connect ssh) h := by
  have hask : ∀ h', P h' → Ends P (ask Cmd.connect) h' := fun h' hp' ↦
    ⟨trivial, fun b ↦ hP h' _ b rfl hp'⟩
  cases ssh with
  | false => exact hask h hp
  | true =>
    refine meets_ask.2 ⟨trivial, fun active ↦ ?_⟩
    have hp' : P (h ++ [⟨.transportActive, active⟩]) := hP h _ active rfl hp
    cases active with
    | true => exact hp'
    | false => exact hask _ hp'

/-- **A command** ends, with its reply or with an exception. -/
theorem ends_executeCommand {c : Command} {ignoreErrors : Bool} (hP : clock.Steady P) (hp : P h) :
    Ends P (executeCommand ssh c ignoreErrors) h := by
  refine meets_seq (R := fun _ ↦ P) (ends_connect hP hp) fun connected h₁ hp₁ ↦ ?_
  cases connected with
  | false =>
    cases ignoreErrors with
    | true => exact hp₁
    | false => exact fun heq ↦ Failure.noConfusion heq
  | true =>
    refine meets_ask.2 ⟨trivial, fun r ↦ ?_⟩
    have hp₂ : P (h₁ ++ [⟨.exec c, r⟩]) := hP h₁ _ r rfl hp₁
    cases r with
    | none => exact fun heq ↦ Failure.noConfusion heq
    | some reply =>
      refine meets_seq (R := fun _ ↦ P) (meets_require.2 ?_) fun _ h₃ hp₃ ↦ hp₃
      split_ifs
      · exact hp₂
      · intro heq
        cases heq

theorem ends_executeAll {cs : List Command} (hP : clock.Steady P) (hp : P h) :
    Ends P (executeAll ssh cs) h := by
  induction cs generalizing h ssh with
  | nil => exact hp
  | cons c cs ih =>
    exact meets_seq (R := fun _ ↦ P) (ends_executeCommand hP hp) fun _ h₁ hp₁ ↦ ih hp₁

theorem ends_checkSsh (hP : clock.Steady P) (hp : P h) : Ends P (checkSsh false) h :=
  ⟨trivial, fun exitCode ↦ hP h _ exitCode rfl hp⟩

theorem ends_awaitDown {left : ℕ} : Ends (fun _ ↦ True) (awaitDown left) h := by
  induction left generalizing h with
  | zero => trivial
  | succ left ih =>
    refine meets_seq (ends_checkSsh Clock.steady_true trivial) fun up h₁ _ ↦ ?_
    cases up with
    | false => trivial
    | true => exact meets_tell.2 ⟨trivial, fun _ ↦ ih⟩

/-! ### The two loops -/

/-- A loop with `turns` turns left, when the clock has gone on by `pause` in each of `k` turns. -/
abbrev Waits (start pause : ℚ) (turns k : ℕ) : Log → Prop :=
  clock.Waits 91 (start + pause * k) turns k

/-- **One turn**: a loop that does not give up has a turn left after it. -/
theorem waits_next {start pause limit now : ℚ} {turns k : ℕ} {u : Unit}
    (hw : Waits start pause (turns + 1) k h) (hpause : 0 < pause) (hlimit : limit < pause * 91)
    (hlate : ¬now - start > limit) :
    Waits start pause turns (k + 1) (h ++ [⟨.time, now⟩] ++ [⟨.sleep pause, u⟩]) := by
  refine (hw.looked hpause rfl ?_).slept rfl
  push_cast
  linarith

/-- **The wait for the host.** -/
theorem ends_awaitUp {start : ℚ} {turns k : ℕ} (hw : Waits start 5 turns k h) :
    Ends (fun _ ↦ True) (awaitUp start turns) h := by
  induction turns generalizing h k with
  | zero => exact fun _ ht ↦ absurd (hw.left ht).1 (lt_irrefl 0)
  | succ turns ih =>
    refine meets_seq (ends_checkSsh Clock.steady_waits hw) fun up h₁ hw₁ ↦ ?_
    cases up with
    | true => trivial
    | false =>
      refine meets_ask.2 ⟨trivial, fun now ↦ ?_⟩
      show (if _ then _ else _ : Action Unit).Meets _ _ _ _
      split_ifs with hlate
      · exact fun heq ↦ Failure.noConfusion heq
      · refine meets_tell.2 ⟨trivial, fun u ↦ ih (waits_next hw₁ (by norm_num) ?_ hlate)⟩
        norm_num [sshTimeout]

/-- The session is killed, and the loop is left. -/
theorem ends_killSession {ok : Bool} : Ends (fun _ ↦ True) (do
    let _ ← executeCommand true .killSession true
    pure ok) h :=
  meets_seq (ends_executeCommand Clock.steady_true trivial) fun _ _ _ ↦ trivial

/-- **The wait for a trial.** -/
theorem ends_awaitExperiment {start : ℚ} {turns k : ℕ} (hw : Waits start 60 turns k h) :
    Ends (fun _ ↦ True) (awaitExperiment start turns) h := by
  induction turns generalizing h k with
  | zero => exact fun _ ht ↦ absurd (hw.left ht).1 (lt_irrefl 0)
  | succ turns ih =>
    refine meets_seq (ends_executeCommand Clock.steady_waits hw) fun reply h₁ hw₁ ↦ ?_
    show (if _ then _ else _ : Action Bool).Meets _ _ _ _
    split_ifs with hcomplete
    · exact ends_killSession
    refine meets_seq (ends_executeCommand Clock.steady_waits hw₁) fun reply h₂ hw₂ ↦ ?_
    show (if _ then _ else _ : Action Bool).Meets _ _ _ _
    split_ifs with herror
    · exact ends_killSession
    refine meets_ask.2 ⟨trivial, fun now ↦ ?_⟩
    show (if _ then _ else _ : Action Bool).Meets _ _ _ _
    split_ifs with hlate
    · exact ends_killSession
    · refine meets_tell.2 ⟨trivial, fun u ↦ ih (waits_next hw₂ (by norm_num) ?_ hlate)⟩
      norm_num [expTimeout]

/-! ### The runner -/

/-- **A reboot** ends. -/
theorem ends_rebootAndWait {turns : ℕ} (hturns : 92 ≤ turns) :
    Ends (fun _ ↦ True) (rebootAndWait turns ssh) h := by
  have hreboot : Ends (fun _ ↦ True) (attempt (executeCommand ssh .reboot true)) h :=
    meets_attempt.2 ((ends_executeCommand Clock.steady_true trivial).mono (fun _ _ _ ↦ trivial)
      fun _ _ _ ↦ trivial)
  refine meets_seq hreboot fun _ h₁ _ ↦ meets_tell.2 ⟨trivial, fun _ ↦ meets_tell.2 ⟨trivial,
    fun _ ↦ meets_seq ends_awaitDown fun _ h₂ _ ↦ meets_ask.2 ⟨trivial, fun start ↦ ?_⟩⟩⟩
  exact meets_seq (ends_awaitUp (Clock.waits_of_shown rfl hturns)) fun _ h₃ _ ↦
    meets_last.2 ⟨trivial, fun _ ↦ trivial⟩

/-- **A trial** ends. -/
theorem ends_runExperiment {turns : ℕ} (hturns : 92 ≤ turns) {expName : PyStr} {i : ℕ} :
    Ends (fun _ ↦ True) (runExperiment turns ssh expName i) h :=
  meets_seq (ends_executeAll Clock.steady_true trivial) fun _ _ _ ↦ meets_ask.2 ⟨trivial, fun _ ↦
    ends_awaitExperiment (Clock.waits_of_shown rfl hturns)⟩

theorem ends_configureCgroupMemory {memoryMax swapMax : PyStr} :
    Ends (fun _ ↦ True) (configureCgroupMemory ssh memoryMax swapMax) h := by
  refine meets_seq (ends_executeCommand Clock.steady_true trivial) fun reply h₁ _ ↦ ?_
  refine meets_seq (R := fun _ _ ↦ True) (meets_when.2 ?_) fun _ h₂ _ ↦
    ends_executeAll Clock.steady_true trivial
  split_ifs
  exact meets_seq (ends_executeCommand Clock.steady_true trivial) fun _ _ _ ↦ trivial

theorem ends_syncResults {expName : PyStr} {i : ℕ} :
    Ends (fun _ ↦ True) (syncResults expName i) h :=
  meets_ask.2 ⟨trivial, fun _ ↦ meets_seq (Clock.ends_require (by decide)) fun _ _ _ ↦
    meets_ask.2 ⟨trivial, fun _ ↦ Clock.ends_require (by decide)⟩⟩

theorem ends_runTrial {turns : ℕ} (hturns : 92 ≤ turns) {memoryMax swapMax expName : PyStr}
    {extra : List Command} {i : ℕ} :
    Ends (fun _ ↦ True) (runTrial turns ssh memoryMax swapMax extra expName i) h :=
  meets_seq ends_configureCgroupMemory fun _ _ _ ↦
    meets_seq (ends_executeAll Clock.steady_true trivial) fun _ _ _ ↦
      meets_seq (ends_runExperiment hturns) fun _ _ _ ↦
        meets_seq (Clock.ends_require (by decide)) fun _ _ _ ↦ ends_syncResults

theorem ends_configuredTrials {turns : ℕ} (hturns : 92 ≤ turns) {cmdline expName : PyStr} :
    Ends (fun _ ↦ True) (configuredTrials turns cmdline expName ssh) h := by
  have hgrub : Ends (fun _ ↦ True) (configureGrub ssh cmdline) h := by
    rw [configureGrub]
    split_ifs
    · trivial
    · exact ends_executeAll Clock.steady_true trivial
  refine meets_seq hgrub fun _ _ _ ↦ meets_tell.2 ⟨trivial, fun _ ↦
    Clock.ends_forEach fun j b h' ↦ ?_⟩
  exact meets_seq (ends_rebootAndWait hturns) fun _ _ _ ↦
    meets_seq (ends_runTrial hturns) fun _ _ _ ↦ trivial

theorem ends_insertModule {module : PyStr} :
    Ends (fun _ ↦ True) (insertModule ssh module) h := by
  rw [insertModule]
  split_ifs
  · trivial
  · exact ends_executeAll Clock.steady_true trivial

theorem ends_separatedTurn {turns : ℕ} (hturns : 92 ≤ turns) {n : ℕ}
    {memoryMax swapMax expName : PyStr} {extra : List Command} {i : ℕ} :
    Ends (fun _ ↦ True) (separatedTurn turns n memoryMax swapMax extra expName i ssh) h := by
  refine meets_seq (ends_runTrial hturns) fun _ _ _ ↦ ?_
  show (if _ then _ else _ : Action Bool).Meets _ _ _ _
  split_ifs
  · exact meets_seq (ends_rebootAndWait hturns) fun _ _ _ ↦ trivial
  · trivial

/-- **Every series** ends. -/
theorem ends_function {turns : ℕ} (hturns : 92 ≤ turns) (experiment : Experiment) :
    Ends (fun _ ↦ True) (experiment.function turns ssh) h := by
  cases experiment with
  | a => exact Clock.ends_forEach fun i b h' ↦ ends_separatedTurn hturns
  | b =>
    refine Clock.ends_forEach fun mem b h' ↦ Clock.ends_forEach fun j b' h'' ↦ ?_
    exact meets_seq (ends_runTrial hturns) fun _ _ _ ↦
      meets_seq (ends_rebootAndWait hturns) fun _ _ _ ↦ trivial
  | c => exact Clock.ends_forEach fun v b h' ↦ ends_configuredTrials hturns
  | d => exact Clock.ends_forEach fun v b h' ↦ ends_configuredTrials hturns
  | e =>
    exact Clock.ends_forEach fun v b h' ↦ meets_seq ends_insertModule fun _ _ _ ↦
      ends_configuredTrials hturns
  | f =>
    exact Clock.ends_forEach fun v b h' ↦ meets_seq ends_insertModule fun _ _ _ ↦
      ends_configuredTrials hturns
  | k => exact Clock.ends_forEach fun i b h' ↦ ends_separatedTurn hturns
  | _ => exact ends_configuredTrials hturns

theorem ends_setupExperiments : Ends (fun _ ↦ True) setupExperiments h :=
  meets_seq (ends_executeCommand Clock.steady_true trivial) fun _ _ _ ↦
    meets_ask.2 ⟨trivial, fun _ ↦ meets_seq (Clock.ends_require (by decide)) fun _ _ _ ↦
      meets_ask.2 ⟨trivial, fun _ ↦ meets_seq (Clock.ends_require (by decide)) fun _ _ _ ↦
        meets_seq (ends_executeCommand Clock.steady_true trivial) fun _ _ _ ↦ trivial⟩⟩

end Ends

/-- **Every run ends by itself** where sleeping takes its time: no loop takes more than 92 turns,
whatever the host answers. -/
theorem main_ends {turns : ℕ} (hturns : 92 ≤ turns) (experiment : Experiment) (env : Env Cmd Ans)
    (hticking : clock.Ticking ((main turns experiment).run env []).1) :
    ((main turns experiment).run env []).2 ≠ .error .waiting := by
  have hmain : Ends (fun _ ↦ True) (main turns experiment) [] :=
    meets_ask.2 ⟨trivial, fun _ ↦ meets_seq (Clock.ends_require (by decide)) fun _ _ _ ↦
      meets_seq ends_setupExperiments fun _ _ _ ↦
        meets_seq (ends_function hturns experiment) fun _ _ _ ↦ trivial⟩
  exact Clock.Ends.run hmain env hticking

/-! ### A host that is lost -/

/-- A host that does not come back from a reboot, and a clock that shows what was slept. -/
def lostHost (h : Log) : (c : Cmd) → Ans c
  | .keyExists => true
  | .transportActive => true
  | .connect => true
  | .exec _ => some ⟨0, []⟩
  | .close => ()
  | .freshEcho => none
  | .sleep _ => ()
  | .time => clock.slept h
  | .setupExists => true
  | .rsyncSetup => true
  | .makedirs _ _ => true
  | .rsyncResults _ _ => true

theorem main_ends_lostHost : ((main 92 .c).run lostHost []).2 ≠ .error .waiting := by
  refine main_ends (le_refl 92) .c lostHost (Clock.ticking_run fun h c now hnow ↦ ?_)
  cases c with
  | time => exact (Option.some.inj hnow).symm
  | _ => cases hnow

end Remote

end Zswap
