import HugePageResearch.Library.Lists
import HugePageResearch.Replay.Lifecycle
import HugePageResearch.Replay.Tunables

/-!
# What a benchmark writes

The runs of `run_benchmark` of `data_collection/replay_trace.py`, by the history of a benchmark.

* `runBenchmark_results`: results are written once at most, and only when every combination was
  replayed as often as demanded; a row holds its combination and the times of its replays.
* `runBenchmark_follows`: the steps are those of `benchmarkSteps`, in that order, up to the one that
  raises.
* `runBenchmark_teardown`: once it is set up, the system is torn down, once and at the end.
* `runBenchmark_refines`: where setup and teardown go as they do on the kernel's files, it is a run
  of the coarse model of `Tunables`.
-/

namespace Replay

namespace Lifecycle

open Lists Script

/-! ### The results -/

/-- What the history says about the runs. -/
structure Progress where
  /-- The last reading of `perf_counter`. -/
  reading : Option ℚ
  /-- The replay that went well since. -/
  replayed : Option Breakpoints
  /-- The replays that went well, with the time between the readings before and after. -/
  timed : List (Breakpoints × ℚ)
  /-- The results that were written, and whether that went well. -/
  written : List (List Row × Bool)

/-- The timed replays after another reading. -/
def Progress.timedAt (p : Progress) (now : ℚ) : List (Breakpoints × ℚ) :=
  match p.reading, p.replayed with
  | some t0, some breakpoints => p.timed ++ [(breakpoints, now - t0)]
  | _, _ => p.timed

/-- What an event changes. -/
def Progress.step (p : Progress) : Script.Event Cmd Ans → Progress
  | ⟨.perfCounter, now⟩ =>
    { p with reading := some now, replayed := none, timed := p.timedAt now }
  | ⟨.replay breakpoints, counts⟩ =>
    { p with replayed := if Option.isSome counts then some breakpoints else none }
  | ⟨.writeParquet results, ok⟩ => { p with written := p.written ++ [(results, ok)] }
  | _ => p

/-- After a history. -/
def progress (h : Log) : Progress := h.foldl Progress.step ⟨none, none, [], []⟩

/-- A row holds the runtimes of a combination, and the combination in its other columns. -/
def HoldsRuns (breakpoints : Breakpoints) (times : List ℚ) (row : Row) : Prop :=
  (∀ i t, times[i]? = some t → row.get? (runtimeColumn (i + 1)) = some (.runtime t)) ∧
  ∀ k, (∀ i < times.length, k ≠ runtimeColumn (i + 1)) →
    row.get? k = (breakpoints.get? k).map .breakpoint

/-- **Complete results**: a row for each combination, with the time of each of its replays, and no
other replay was timed. -/
def Complete (breakpointsDf : List Breakpoints) (runs : ℤ) (results : List Row)
    (timed : List (Breakpoints × ℚ)) : Prop :=
  ∃ entries : List (Breakpoints × List ℚ), entries.map Prod.fst = breakpointsDf ∧
    (∀ e ∈ entries, e.2.length = runs.toNat) ∧
    timed = entries.flatMap (fun e ↦ e.2.map fun t ↦ (e.1, t)) ∧
    List.Forall₂ (fun e row ↦ HoldsRuns e.1 e.2 row) entries results

section Results

variable {h : Log} {turns : ℕ} {breakpoints : Breakpoints} {row : Row} {times : List ℚ} {t : ℚ}

theorem progress_concat {e : Script.Event Cmd Ans} : progress (h ++ [e]) = (progress h).step e := by
  rw [progress, List.foldl_append]
  rfl

theorem runtimeColumn_inj {i j : ℕ} (hij : runtimeColumn i = runtimeColumn j) : i = j :=
  PyStr.ofInt_natCast_inj (List.append_cancel_left hij)

theorem getItem_map_breakpoint (k : PyStr) (es : List (PyStr × ℤ)) :
    Dict.getItem k (es.map fun e ↦ (e.1, Cell.breakpoint e.2)) =
      (Dict.getItem k es).map .breakpoint := by
  induction es with
  | nil => rfl
  | cons e es ih =>
    rw [List.map_cons, Dict.getItem, Dict.getItem]
    split_ifs
    · rfl
    · exact ih

theorem get?_rowOf (k : PyStr) :
    (rowOf breakpoints).get? k = (breakpoints.get? k).map .breakpoint :=
  getItem_map_breakpoint k breakpoints.items

theorem holdsRuns_rowOf : HoldsRuns breakpoints [] (rowOf breakpoints) := by
  refine ⟨fun i t ht ↦ ?_, fun k _ ↦ get?_rowOf k⟩
  cases ht

/-- **Another runtime** goes to its own column. -/
theorem HoldsRuns.set (hrow : HoldsRuns breakpoints times row) :
    HoldsRuns breakpoints (times ++ [t])
      (row.set (runtimeColumn (times.length + 1)) (.runtime t)) := by
  refine ⟨fun i t' ht' ↦ ?_, fun k hk ↦ ?_⟩
  · rw [Dict.get?_set]
    rcases Nat.lt_or_ge i times.length with hi | hi
    · rw [List.getElem?_append_left hi] at ht'
      rw [if_neg fun heq ↦ ?_]
      · exact hrow.1 i t' ht'
      · exact absurd (Nat.succ.inj (runtimeColumn_inj heq)) (ne_of_gt hi)
    · rw [List.getElem?_append_right hi, List.getElem?_singleton] at ht'
      split_ifs at ht' with hzero
      rw [if_pos (by congr 1; omega), Option.some.inj ht']
  · rw [List.length_append, List.length_singleton] at hk
    rw [Dict.get?_set, if_neg fun heq ↦ hk times.length (Nat.lt_succ_self _) heq.symm]
    exact hrow.2 k fun i hi ↦ hk i (Nat.lt_succ_of_lt hi)

/-- The calls of `restore_snapshot`, other than asking the server for its pid. -/
def Cmd.Restarts : Cmd → Prop
  | configGet _ => True
  | copySnapshot _ _ => True
  | shutdown => True
  | monotonic => True
  | waitpid _ => True
  | kill _ => True
  | sleep _ => True
  | moduleExists => True
  | startRedis _ _ _ => True
  | ping => True
  | _ => False

theorem only_pollUntil {poll : Action Bool} {deadline : ℚ} (hpoll : poll.Only Cmd.Restarts) :
    (pollUntil poll deadline turns).Only Cmd.Restarts := by
  induction turns with
  | zero => exact only_raise
  | succ turns ih =>
    refine only_ask trivial fun now ↦ ?_
    show (if _ then _ else _ : Action Unit).Only _
    split_ifs
    · refine hpoll.bind fun done ↦ ?_
      cases done with
      | true => exact only_ret
      | false => exact only_tell trivial ih
    · exact only_raise

theorem only_configGet {parameter : PyStr} : (configGet parameter).Only Cmd.Restarts := by
  refine only_ask trivial fun value ↦ ?_
  cases value with
  | none => exact only_raise
  | some value => exact only_ret

theorem only_redisProcessExited {pid : ℤ} : (redisProcessExited pid).Only Cmd.Restarts := by
  refine only_ask trivial fun waitedPid ↦ ?_
  show (if _ then _ else _ : Action Bool).Only _
  split_ifs
  · exact only_ret
  · refine only_ask trivial fun signalled ↦ ?_
    cases signalled <;> exact only_ret

theorem only_waitForRedisExit {pid : ℤ} {timeout : ℚ} :
    (waitForRedisExit turns pid timeout).Only Cmd.Restarts :=
  only_ask trivial fun _ ↦ only_pollUntil only_redisProcessExited

/-- **`restore_snapshot`** asks for the pid first. -/
theorem restoreSnapshot_eq_bind : ∃ restart : ℤ → Action Unit,
    restoreSnapshot turns = getRedisPid.bind restart ∧ ∀ pid, (restart pid).Only Cmd.Restarts :=
  ⟨_, rfl, fun _ ↦ only_configGet.bind fun _ ↦ only_configGet.bind fun _ ↦
    only_ask trivial fun _ ↦ (only_require _ _).bind fun _ ↦ only_ask trivial fun _ ↦
      (only_require _ _).bind fun _ ↦ only_waitForRedisExit.bind fun _ ↦
        only_ask trivial fun _ ↦ only_ask trivial fun _ ↦ (only_require _ _).bind fun _ ↦
          only_ask trivial fun _ ↦ only_pollUntil (only_exec.2 trivial)⟩

/-- The calls of `restore_snapshot` and `memory_purge`. -/
def Cmd.Restores : Cmd → Prop
  | info => True
  | memoryPurge => True
  | c => c.Restarts

theorem Cmd.Restarts.restores {c : Cmd} (hc : c.Restarts) : c.Restores := by
  cases c with
  | info => trivial
  | memoryPurge => trivial
  | _ => exact hc

theorem only_getRedisPid : getRedisPid.Only Cmd.Restores := by
  refine only_ask trivial fun processId ↦ ?_
  rcases processId with _ | _ | pid
  · exact only_raise
  · exact only_raise
  · exact (only_require _ _).bind fun _ ↦ only_ret

theorem only_restoreSnapshot : (restoreSnapshot turns).Only Cmd.Restores := by
  obtain ⟨restart, heq, honly⟩ := @restoreSnapshot_eq_bind turns
  rw [heq]
  exact only_getRedisPid.bind fun pid ↦ (honly pid).mono fun _ ↦ Cmd.Restarts.restores

theorem only_memoryPurge : memoryPurge.Only Cmd.Restores :=
  only_ask trivial fun _ ↦ only_require _ _

theorem step_of_restores {c : Cmd} {a : Ans c} {p : Progress} (hc : c.Restores) :
    p.step ⟨c, a⟩ = p := by
  cases c with
  | perfCounter => exact hc.elim
  | replay breakpoints => exact hc.elim
  | writeParquet results => exact hc.elim
  | _ => rfl

/-- **Restoring** times nothing and writes nothing. -/
theorem meets_restores {α : Type} {s : Action α} (hs : s.Only Cmd.Restores) {p : Progress}
    (hp : progress h = p) :
    s.Meets (fun _ _ ↦ True) (fun _ h' ↦ progress h' = p) (fun _ h' ↦ progress h' = p) h :=
  hs.meets (fun _ _ _ _ ↦ trivial)
    (fun h' c a hc hp' ↦ by rw [progress_concat, hp', step_of_restores hc]) hp

/-- Between two runs: these were timed, and nothing is written yet. -/
structure Idle (timed : List (Breakpoints × ℚ)) (h : Log) : Prop where
  replayed : (progress h).replayed = none
  timed_eq : (progress h).timed = timed
  written : (progress h).written = []

theorem timedAt_of_none {p : Progress} {now : ℚ} (hp : p.replayed = none) :
    p.timedAt now = p.timed := by
  rw [Progress.timedAt, hp]
  cases p.reading <;> rfl

/-- **One run** is timed once. -/
theorem meets_timedRun {run : ℕ} {timed : List (Breakpoints × ℚ)} (hidle : Idle timed h) :
    (timedRun turns breakpoints run row).Meets (fun _ _ ↦ True)
      (fun row' h' ↦ ∃ t, Idle (timed ++ [(breakpoints, t)]) h' ∧
        row' = row.set (runtimeColumn run) (.runtime t))
      (fun _ h' ↦ (progress h').written = []) h := by
  have hwritten : ∀ h', progress h' = progress h → (progress h').written = [] := fun h' hp ↦ by
    rw [hp, hidle.written]
  refine meets_seq ((meets_restores only_restoreSnapshot rfl).mono (fun _ _ hp ↦ hp)
    fun _ h' hp ↦ hwritten h' hp) fun _ h₁ hp₁ ↦ ?_
  refine meets_seq ((meets_restores only_memoryPurge hp₁).mono (fun _ _ hp ↦ hp)
    fun _ h' hp ↦ hwritten h' hp) fun _ h₂ hp₂ ↦ ?_
  refine meets_ask.2 ⟨trivial, fun t0 ↦ meets_ask.2 ⟨trivial, fun counts ↦ ?_⟩⟩
  have hp₃ : progress (h₂ ++ [⟨.perfCounter, t0⟩]) =
      { progress h with reading := some t0, replayed := none } := by
    rw [progress_concat, hp₂, Progress.step, timedAt_of_none hidle.replayed]
  cases counts with
  | none =>
    show (progress _).written = []
    rw [progress_concat, hp₃]
    exact hidle.written
  | some counts =>
    refine meets_ask.2 ⟨trivial, fun t1 ↦ ⟨t1 - t0, ⟨?_, ?_, ?_⟩, rfl⟩⟩
    · rw [progress_concat]
      rfl
    · rw [progress_concat, progress_concat, hp₃, ← hidle.timed_eq]
      rfl
    · rw [progress_concat, progress_concat, hp₃]
      exact hidle.written

/-- After some runs of a combination: its row holds their runtimes. -/
def Timed (breakpoints : Breakpoints) (before : List (Breakpoints × ℚ)) (n : ℕ) (row : Row)
    (h : Log) : Prop :=
  ∃ times : List ℚ, times.length = n ∧ HoldsRuns breakpoints times row ∧
    Idle (before ++ times.map fun t ↦ (breakpoints, t)) h

/-- **One combination** is replayed as often as demanded. -/
theorem meets_runs {before : List (Breakpoints × ℚ)} {n : ℕ} (hidle : Idle before h) :
    (forEach (timedRun turns breakpoints) (List.range' 1 n) (rowOf breakpoints)).Meets
      (fun _ _ ↦ True) (Timed breakpoints before n) (fun _ h' ↦ (progress h').written = []) h := by
  have hloop : (forEach (timedRun turns breakpoints) (List.range' 1 n) (rowOf breakpoints)).Meets
      (fun _ _ ↦ True) (Timed breakpoints before (List.range' 1 n).length)
      (fun _ h' ↦ (progress h').written = []) h := by
    refine meets_forEach (I := fun done ↦ Timed breakpoints before done.length)
      (fun done run rest hruns row' h₁ hI ↦ ?_) ⟨[], rfl, holdsRuns_rowOf, ?_⟩
    · obtain ⟨times, hlength, hrow, hidle₁⟩ := hI
      refine (meets_timedRun hidle₁).mono (fun row'' h₂ hrun ↦ ?_) fun _ _ he ↦ he
      obtain ⟨t, hidle₂, rfl⟩ := hrun
      refine ⟨times ++ [t], ?_, ?_, ?_⟩
      · rw [List.length_append, List.length_append, hlength]
        rfl
      · rw [eq_of_range'_eq_append hruns, ← hlength]
        exact hrow.set
      · rw [List.map_append, ← List.append_assoc]
        exact hidle₂
    · rw [List.map_nil, List.append_nil]
      exact hidle
  rwa [List.length_range'] at hloop

theorem complete_nil {runs : ℤ} : Complete [] runs [] [] :=
  ⟨[], rfl, fun _ he ↦ absurd he List.not_mem_nil, rfl, List.Forall₂.nil⟩

/-- **Another combination** makes another row. -/
theorem Complete.concat {done : List Breakpoints} {runs : ℤ} {results : List Row}
    {timed : List (Breakpoints × ℚ)} (hdone : Complete done runs results timed)
    (hlength : times.length = runs.toNat) (hrow : HoldsRuns breakpoints times row) :
    Complete (done ++ [breakpoints]) runs (results ++ [row])
      (timed ++ times.map fun t ↦ (breakpoints, t)) := by
  obtain ⟨entries, rfl, hlengths, rfl, hrows⟩ := hdone
  refine ⟨entries ++ [(breakpoints, times)], ?_, fun e he ↦ ?_, ?_, ?_⟩
  · rw [List.map_append]
    rfl
  · rcases List.mem_append.1 he with he | he
    · exact hlengths e he
    · rw [List.mem_singleton.1 he]
      exact hlength
  · rw [List.flatMap_append, List.flatMap_singleton]
  · exact List.rel_append hrows (List.Forall₂.cons hrow List.Forall₂.nil)

/-- **Results are written once at most, and complete.** -/
def Sound (breakpointsDf : List Breakpoints) (runs : ℤ) (h : Log) : Prop :=
  (progress h).written = [] ∨ ∃ e, (progress h).written = [e] ∧
    Complete breakpointsDf runs e.1 (progress h).timed

/-- The results were written, and that went well. -/
def Written (breakpointsDf : List Breakpoints) (runs : ℤ) (h : Log) : Prop :=
  ∃ results, (progress h).written = [(results, true)] ∧
    Complete breakpointsDf runs results (progress h).timed

theorem Written.sound {breakpointsDf : List Breakpoints} {runs : ℤ}
    (hw : Written breakpointsDf runs h) : Sound breakpointsDf runs h := by
  obtain ⟨results, hwritten, hcomplete⟩ := hw
  exact Or.inr ⟨(results, true), hwritten, hcomplete⟩

theorem meets_benchmark {breakpointsDf : List Breakpoints} {runs : ℤ} (hidle : Idle [] h) :
    (benchmark turns breakpointsDf runs).Meets (fun _ _ ↦ True)
      (fun _ ↦ Written breakpointsDf runs) (fun _ ↦ Sound breakpointsDf runs) h := by
  refine meets_seq ((meets_forEach (I := fun done results h' ↦ ∃ timed,
    Complete done runs results timed ∧ Idle timed h') (E := fun _ h' ↦ (progress h').written = [])
    (fun done breakpoints rest _ results h₁ hI ↦ ?_) ⟨[], complete_nil, hidle⟩).mono
    (fun _ _ hI ↦ hI) fun _ _ he ↦ Or.inl he) fun results h₂ hI ↦ ?_
  · obtain ⟨timed, hcomplete, hidle₁⟩ := hI
    refine meets_seq (meets_runs hidle₁) fun row' h' hruns ↦ ?_
    obtain ⟨times, hlength, hrow, hidle'⟩ := hruns
    exact ⟨_, hcomplete.concat hlength hrow, hidle'⟩
  · obtain ⟨timed, hcomplete, hidle₂⟩ := hI
    refine meets_ask.2 ⟨trivial, fun made ↦ ?_⟩
    have hmade : progress (h₂ ++ [⟨.mkdir, made⟩]) = progress h₂ := by
      rw [progress_concat]
      rfl
    cases made with
    | false =>
      refine Or.inl ?_
      rw [hmade, hidle₂.written]
    | true =>
      refine meets_ask.2 ⟨trivial, fun written ↦ ?_⟩
      have hwrote : progress (h₂ ++ [⟨.mkdir, true⟩] ++ [⟨.writeParquet results, written⟩]) =
          { progress h₂ with written := [(results, written)] } := by
        rw [progress_concat, hmade, Progress.step, hidle₂.written]
        rfl
      cases written with
      | false =>
        refine Or.inr ⟨(results, false), ?_, ?_⟩
        · rw [hwrote]
        · rw [hwrote, hidle₂.timed_eq]
          exact hcomplete
      | true =>
        refine ⟨results, ?_, ?_⟩
        · rw [hwrote]
        · rw [hwrote, hidle₂.timed_eq]
          exact hcomplete

theorem sound_concat {breakpointsDf : List Breakpoints} {runs : ℤ} {e : Script.Event Cmd Ans}
    (he : (progress h).step e = progress h) :
    Sound breakpointsDf runs (h ++ [e]) ↔ Sound breakpointsDf runs h := by
  rw [Sound, Sound, progress_concat, he]

theorem written_concat {breakpointsDf : List Breakpoints} {runs : ℤ} {e : Script.Event Cmd Ans}
    (he : (progress h).step e = progress h) :
    Written breakpointsDf runs (h ++ [e]) ↔ Written breakpointsDf runs h := by
  rw [Written, Written, progress_concat, he]

theorem meets_runBenchmark {breakpointsDf : List Breakpoints} {runs : ℤ} :
    (runBenchmark turns breakpointsDf runs).Meets (fun _ _ ↦ True)
      (fun _ ↦ Written breakpointsDf runs) (fun _ ↦ Sound breakpointsDf runs) [] := by
  refine meets_ask.2 ⟨trivial, fun configured ↦ ?_⟩
  cases configured with
  | false => exact Or.inl rfl
  | true =>
    refine meets_seq (R := fun (raised : Except Failure Unit) h' ↦ Sound breakpointsDf runs h' ∧
      (raised = .ok () → Written breakpointsDf runs h')) (meets_attempt.2
        ((meets_benchmark ⟨rfl, rfl, rfl⟩).mono (fun _ _ hw ↦ ⟨hw.sound, fun _ ↦ hw⟩)
          fun _ _ hs ↦ ⟨hs, fun h ↦ by cases h⟩)) fun raised h₁ hI ↦ ?_
    refine meets_ask.2 ⟨trivial, fun restored ↦ ?_⟩
    have hsound := (sound_concat (e := ⟨.teardownSystem, restored⟩) rfl).2 hI.1
    cases restored with
    | false => exact hsound
    | true =>
      cases raised with
      | error e => exact hsound
      | ok u => exact (written_concat rfl).2 (hI.2 rfl)

/-- **Results are written once at most, and never incomplete**: each combination was replayed as
often as demanded, and its row holds the times of its replays. A benchmark that returns has written
them. -/
theorem runBenchmark_results (turns : ℕ) (breakpointsDf : List Breakpoints) (runs : ℤ)
    (env : Env Cmd Ans) :
    Sound breakpointsDf runs ((runBenchmark turns breakpointsDf runs).run env []).1 ∧
    (((runBenchmark turns breakpointsDf runs).run env []).2 = .ok () →
      Written breakpointsDf runs ((runBenchmark turns breakpointsDf runs).run env []).1) := by
  obtain ⟨-, hok, herror⟩ := meets_runBenchmark.run safe_nil env
  refine ⟨?_, fun hend ↦ hok () hend⟩
  cases hend : ((runBenchmark turns breakpointsDf runs).run env []).2 with
  | ok u => exact (hok u hend).sound
  | error e => exact herror e hend

end Results

/-! ### The order of the steps -/

/-- What a step of the loop does. -/
inductive Stage where
  | restoreSnapshot
  | memoryPurge
  | replay (breakpoints : Breakpoints)
  | writeResults

/-- The calls that begin the steps of the loop. -/
def stageOf : Cmd → Option Stage
  | .info => some .restoreSnapshot
  | .memoryPurge => some .memoryPurge
  | .replay breakpoints => some (.replay breakpoints)
  | .mkdir => some .writeResults
  | _ => none

/-- What the steps do, by combination and run. -/
def stageIn (breakpointsDf : List Breakpoints) : BenchmarkStep → Stage
  | .restoreSnapshot _ _ => .restoreSnapshot
  | .memoryPurge _ _ => .memoryPurge
  | .replay idx _ => .replay (breakpointsDf.getD idx Dict.empty)
  | .writeResults => .writeResults

section Order

variable {turns : ℕ} {breakpoints : Breakpoints} {breakpointsDf : List Breakpoints} {runs : ℤ}

theorem stageOf_eq_none {c : Cmd} (hc : c.Restarts) : stageOf c = none := by
  cases c with
  | info => exact hc.elim
  | memoryPurge => exact hc.elim
  | replay breakpoints => exact hc.elim
  | mkdir => exact hc.elim
  | _ => rfl

theorem follows_getRedisPid : getRedisPid.Follows stageOf [.restoreSnapshot] := by
  refine follows_ask fun processId ↦ ?_
  rcases processId with _ | _ | pid
  · exact follows_raise
  · exact follows_raise
  · exact (follows_require _ _).bind fun _ ↦ follows_ret

theorem follows_restoreSnapshot :
    (restoreSnapshot turns).Follows stageOf [.restoreSnapshot] := by
  obtain ⟨restart, heq, honly⟩ := @restoreSnapshot_eq_bind turns
  rw [heq]
  exact follows_getRedisPid.bind fun pid ↦
    ((honly pid).mono fun _ ↦ stageOf_eq_none).follows

theorem follows_memoryPurge : memoryPurge.Follows stageOf [.memoryPurge] :=
  follows_ask fun _ ↦ follows_require _ _

theorem follows_timedRun {run : ℕ} {row : Row} :
    (timedRun turns breakpoints run row).Follows stageOf
      [.restoreSnapshot, .memoryPurge, .replay breakpoints] :=
  follows_restoreSnapshot.bind fun _ ↦ follows_memoryPurge.bind fun _ ↦ follows_ask fun _ ↦
    follows_ask fun _ ↦ (follows_require _ _).bind fun _ ↦ follows_ask fun _ ↦ follows_ret

/-- **The steps of the coarse model**, by what they do. -/
theorem map_stageIn_benchmarkSteps :
    (benchmarkSteps breakpointsDf.length runs).map (stageIn breakpointsDf) =
      (breakpointsDf.flatMap fun breakpoints ↦ (List.range' 1 runs.toNat).flatMap fun _ ↦
        [.restoreSnapshot, .memoryPurge, .replay breakpoints]) ++ [.writeResults] := by
  rw [benchmarkSteps, List.map_append, List.map_flatMap,
    ← flatMap_range_getD breakpointsDf Dict.empty]
  congr 2
  funext idx
  rw [List.map_flatMap]
  rfl

theorem follows_benchmark : (benchmark turns breakpointsDf runs).Follows stageOf
    ((benchmarkSteps breakpointsDf.length runs).map (stageIn breakpointsDf)) := by
  rw [map_stageIn_benchmarkSteps]
  refine Follows.bind (Follows.forEach (fun breakpoints results ↦ ?_) _ _) fun results ↦ ?_
  · have hruns : (forEach (timedRun turns breakpoints) (List.range' 1 runs.toNat)
        (rowOf breakpoints)).Follows stageOf ((List.range' 1 runs.toNat).flatMap fun _ ↦
          [.restoreSnapshot, .memoryPurge, .replay breakpoints]) :=
      Follows.forEach (fun run row ↦ follows_timedRun) _ _
    have hrow := hruns.bind fun row ↦ (follows_ret (a := results ++ [row]) :
      (ret (results ++ [row]) : Action (List Row)).Follows stageOf [])
    rwa [List.append_nil] at hrow
  · exact follows_ask fun _ ↦ (follows_require _ _).bind fun _ ↦ follows_ask fun _ ↦
      follows_require _ _

theorem starts_timedRun {run : ℕ} {row : Row} :
    (timedRun turns breakpoints run row).Starts stageOf := rfl

theorem starts_benchmark : (benchmark turns breakpointsDf runs).Starts stageOf :=
  (Starts.forEach (fun _ _ ↦ (Starts.forEach (fun _ _ ↦ starts_timedRun) _ _).bind
    fun _ ↦ starts_ret) _ _).bind fun _ ↦ rfl

end Order

/-! ### The teardown -/

section Teardown

variable {h : Log} {turns : ℕ} {breakpoints : Breakpoints} {row : Row}
  {breakpointsDf : List Breakpoints} {runs : ℤ}

/-- Neither the setup nor the teardown. -/
def Cmd.Inner : Cmd → Prop
  | setupSystem => False
  | teardownSystem => False
  | _ => True

theorem Cmd.Restores.inner {c : Cmd} (hc : c.Restores) : c.Inner := by
  cases c with
  | setupSystem => exact hc
  | teardownSystem => exact hc
  | _ => trivial

theorem only_timedRun {run : ℕ} : (timedRun turns breakpoints run row).Only Cmd.Inner :=
  (only_restoreSnapshot.mono fun _ ↦ Cmd.Restores.inner).bind fun _ ↦
    (only_memoryPurge.mono fun _ ↦ Cmd.Restores.inner).bind fun _ ↦
      only_ask trivial fun _ ↦ only_ask trivial fun _ ↦ (only_require _ _).bind fun _ ↦
        only_ask trivial fun _ ↦ only_ret

theorem only_benchmark : (benchmark turns breakpointsDf runs).Only Cmd.Inner := by
  refine Only.bind (Only.forEach (fun breakpoints results ↦ ?_) _ _) fun results ↦ ?_
  · exact (Only.forEach (fun run row' ↦ only_timedRun) _ _).bind fun _ ↦ only_ret
  · exact only_ask trivial fun _ ↦ (only_require _ _).bind fun _ ↦ only_ask trivial fun _ ↦
      only_require _ _

/-- The calls after the setup, without another setup or a teardown. -/
def AfterSetup (h : Log) : Prop :=
  ∃ inner, h = [⟨.setupSystem, true⟩] ++ inner ∧ ∀ e ∈ inner, e.1.Inner

/-- The setup failed, or the system was torn down after it, once and at the end. -/
def TornDown (h : Log) : Prop :=
  h = [⟨.setupSystem, false⟩] ∨
    ∃ before restored, AfterSetup before ∧ h = before ++ [⟨.teardownSystem, restored⟩]

theorem AfterSetup.concat {c : Cmd} {a : Ans c} (hc : c.Inner) (hafter : AfterSetup h) :
    AfterSetup (h ++ [⟨c, a⟩]) := by
  obtain ⟨inner, rfl, hinner⟩ := hafter
  refine ⟨inner ++ [⟨c, a⟩], List.append_assoc _ _ _, fun e he ↦ ?_⟩
  rcases List.mem_append.1 he with he | he
  · exact hinner e he
  · rw [List.mem_singleton.1 he]
    exact hc

/-- **How a benchmark ends**, with the history, where its steps are `stages`: the setup raises, or
the teardown that follows it whatever raises, or a step that was begun, or it returns. -/
inductive Ended (stages : List Stage) : Except Failure Unit → Log → Prop where
  | setupRaised : Ended stages (.error .setupRaised) [⟨.setupSystem, false⟩]
  | teardownRaised {before : Log} (hafter : AfterSetup before)
    (hmarks : marks stageOf before <+: stages) :
    Ended stages (.error .teardownRaised) (before ++ [⟨.teardownSystem, false⟩])
  | stepRaised {before : Log} (e : Failure) (hafter : AfterSetup before)
    (hne : marks stageOf before ≠ []) (hmarks : marks stageOf before <+: stages) :
    Ended stages (.error e) (before ++ [⟨.teardownSystem, true⟩])
  | returns {before : Log} (hafter : AfterSetup before) (hmarks : marks stageOf before = stages) :
    Ended stages (.ok ()) (before ++ [⟨.teardownSystem, true⟩])

section Ended

variable {stages : List Stage} {ended : Except Failure Unit}

theorem Ended.tornDown (he : Ended stages ended h) : TornDown h := by
  cases he with
  | setupRaised => exact Or.inl rfl
  | teardownRaised hafter _ => exact Or.inr ⟨_, _, hafter, rfl⟩
  | stepRaised _ hafter _ _ => exact Or.inr ⟨_, _, hafter, rfl⟩
  | returns hafter _ => exact Or.inr ⟨_, _, hafter, rfl⟩

theorem marks_teardown (before : Log) (restored : Bool) :
    marks stageOf (before ++ [⟨.teardownSystem, restored⟩]) = marks stageOf before := by
  rw [marks_concat]
  exact List.append_nil _

/-- The steps that were begun are the first ones, and all of them where it returns. -/
theorem Ended.marks (he : Ended stages ended h) :
    marks stageOf h <+: stages ∧ (ended = .ok () → marks stageOf h = stages) := by
  cases he with
  | setupRaised => exact ⟨List.nil_prefix, fun h ↦ by cases h⟩
  | teardownRaised _ hmarks =>
    rw [marks_teardown]
    exact ⟨hmarks, fun h ↦ by cases h⟩
  | stepRaised _ _ _ hmarks =>
    rw [marks_teardown]
    exact ⟨hmarks, fun h ↦ by cases h⟩
  | returns _ hmarks =>
    rw [marks_teardown, hmarks]
    exact ⟨List.prefix_rfl, fun _ ↦ rfl⟩

end Ended

/-- How the loop after the setup ends: its steps are begun in order, and it raises after the
first. -/
inductive LoopEnded (stages : List Stage) (h : Log) : Except Failure Unit → Prop where
  | returns (hafter : AfterSetup h) (hmarks : marks stageOf h = stages) :
    LoopEnded stages h (.ok ())
  | raises (e : Failure) (hafter : AfterSetup h) (hne : marks stageOf h ≠ [])
    (hmarks : marks stageOf h <+: stages) : LoopEnded stages h (.error e)

theorem meets_loop (hafter : AfterSetup h) (hnone : marks stageOf h = []) :
    (benchmark turns breakpointsDf runs).Meets (fun _ _ ↦ True)
      (fun _ h' ↦ LoopEnded ((benchmarkSteps breakpointsDf.length runs).map
        (stageIn breakpointsDf)) h' (.ok ()))
      (fun e h' ↦ LoopEnded ((benchmarkSteps breakpointsDf.length runs).map
        (stageIn breakpointsDf)) h' (.error e)) h := by
  have honly := only_benchmark.meets (s := benchmark turns breakpointsDf runs)
    (G := fun _ _ ↦ True) (fun _ _ _ _ ↦ trivial) (fun _ _ _ hc ↦ AfterSetup.concat hc) hafter
  have hfollows : (benchmark turns breakpointsDf runs).Meets (fun _ _ ↦ True) _ _ h :=
    follows_benchmark h
  rw [hnone, List.nil_append] at hfollows
  refine ((honly.and hfollows).and (starts_benchmark.meets h)).mono ?_ ?_
  · exact fun _ _ hI ↦ .returns hI.1.1 hI.1.2
  · exact fun e _ hI ↦ .raises e hI.1.1 hI.2 hI.1.2

theorem meets_ended : (runBenchmark turns breakpointsDf runs).Meets (fun _ _ ↦ True)
    (fun _ ↦ Ended ((benchmarkSteps breakpointsDf.length runs).map (stageIn breakpointsDf))
      (.ok ()))
    (fun e ↦ Ended ((benchmarkSteps breakpointsDf.length runs).map (stageIn breakpointsDf))
      (.error e)) [] := by
  refine meets_ask.2 ⟨trivial, fun configured ↦ ?_⟩
  cases configured with
  | false => exact Ended.setupRaised
  | true =>
    have hafter : AfterSetup [⟨.setupSystem, true⟩] :=
      ⟨[], rfl, fun _ he ↦ absurd he List.not_mem_nil⟩
    refine meets_seq (R := fun raised h ↦ LoopEnded ((benchmarkSteps breakpointsDf.length runs).map
      (stageIn breakpointsDf)) h raised) (meets_attempt.2 (meets_loop hafter rfl)) ?_
    intro raised h₁ hloop
    refine meets_ask.2 ⟨trivial, fun restored ↦ ?_⟩
    cases hloop with
    | returns hafter hmarks =>
      cases restored with
      | false => exact Ended.teardownRaised hafter (hmarks ▸ List.prefix_rfl)
      | true => exact Ended.returns hafter hmarks
    | raises e hafter hne hmarks =>
      cases restored with
      | false => exact Ended.teardownRaised hafter hmarks
      | true => exact Ended.stepRaised e hafter hne hmarks

theorem ended_run (turns : ℕ) (breakpointsDf : List Breakpoints) (runs : ℤ) (env : Env Cmd Ans) :
    Ended ((benchmarkSteps breakpointsDf.length runs).map (stageIn breakpointsDf))
      ((runBenchmark turns breakpointsDf runs).run env []).2
      ((runBenchmark turns breakpointsDf runs).run env []).1 := by
  obtain ⟨-, hok, herror⟩ := meets_ended.run safe_nil env
  cases hend : ((runBenchmark turns breakpointsDf runs).run env []).2 with
  | ok u => exact hok u hend
  | error e => exact herror e hend

/-- **Once the system is set up, it is torn down**, whatever raises: once, and at the end. -/
theorem runBenchmark_teardown (turns : ℕ) (breakpointsDf : List Breakpoints) (runs : ℤ)
    (env : Env Cmd Ans) : TornDown ((runBenchmark turns breakpointsDf runs).run env []).1 :=
  (ended_run turns breakpointsDf runs env).tornDown

/-- **The steps are taken in the order of `benchmarkSteps`**: the first of them, and all of them
where the benchmark returns. -/
theorem runBenchmark_follows (turns : ℕ) (breakpointsDf : List Breakpoints) (runs : ℤ)
    (env : Env Cmd Ans) :
    marks stageOf ((runBenchmark turns breakpointsDf runs).run env []).1 <+:
      (benchmarkSteps breakpointsDf.length runs).map (stageIn breakpointsDf) ∧
    (((runBenchmark turns breakpointsDf runs).run env []).2 = .ok () →
      marks stageOf ((runBenchmark turns breakpointsDf runs).run env []).1 =
        (benchmarkSteps breakpointsDf.length runs).map (stageIn breakpointsDf)) :=
  (ended_run turns breakpointsDf runs env).marks

end Teardown

/-! ### The kernel's files -/

section Files

variable [Python] {sh : Shell} {setup teardown : Faults} {K K₁ : Kernel} {config : SystemConfig}
  {breakpointsDf : List Breakpoints} {runs : ℤ} {before : Log}

variable (sh setup teardown) in
/-- What a call changes in the kernel's files, with the configuration that the setup has saved. -/
def kernelStep (s : Kernel × Option SystemConfig) :
    Script.Event Cmd Ans → Kernel × Option SystemConfig
  | ⟨.setupSystem, _⟩ => setupSystem sh setup s.1
  | ⟨.teardownSystem, _⟩ =>
    (s.2.elim s.1 fun config ↦ (teardownSystem sh teardown s.1 config).1, s.2)
  | _ => s

variable (sh setup teardown K) in
/-- The kernel's files after a history. -/
def kernelAfter (h : Log) : Kernel := (h.foldl (kernelStep sh setup teardown) (K, none)).1

variable (sh setup teardown K) in
/-- Setup and teardown go as they do on the kernel's files. -/
structure AnswersFor (env : Env Cmd Ans) : Prop where
  setup_eq : ∀ h, env h .setupSystem = (setupSystem sh setup K).2.isSome
  teardown_eq : ∀ config, (setupSystem sh setup K).2 = some config → ∀ h, env h .teardownSystem =
    (teardownSystem sh teardown (setupSystem sh setup K).1 config).2

/-- **The exit of the coarse model** for an end of the script: where a step raises, it is the last
one that was begun. -/
inductive ExitOf (breakpointsDf : List Breakpoints) (runs : ℤ) (h : Log) :
    Except Failure Unit → BenchmarkExit → Prop where
  | returns : ExitOf breakpointsDf runs h (.ok ()) .returns
  | setupRaised : ExitOf breakpointsDf runs h (.error .setupRaised) .setupRaised
  | teardownRaised : ExitOf breakpointsDf runs h (.error .teardownRaised) .teardownRaised
  | stepRaised (e : Failure) {done rest : List BenchmarkStep} {step : BenchmarkStep}
    (hsteps : benchmarkSteps breakpointsDf.length runs = done ++ step :: rest)
    (hmarks : marks stageOf h = (done ++ [step]).map (stageIn breakpointsDf)) :
    ExitOf breakpointsDf runs h (.error e) (.stepRaised step)

theorem foldl_kernelStep {inner : Log} (hinner : ∀ e ∈ inner, e.1.Inner)
    (s : Kernel × Option SystemConfig) : inner.foldl (kernelStep sh setup teardown) s = s := by
  induction inner with
  | nil => rfl
  | cons e inner ih =>
    obtain ⟨he, hinner⟩ := List.forall_mem_cons.1 hinner
    have hsame : kernelStep sh setup teardown s e = s := by
      obtain ⟨c, a⟩ := e
      cases c with
      | setupSystem => exact he.elim
      | teardownSystem => exact he.elim
      | _ => rfl
    rw [List.foldl_cons, hsame, ih hinner]

/-- Between the setup and the teardown the files are left alone. -/
theorem kernelAfter_teardown (hset : setupSystem sh setup K = (K₁, some config))
    (hafter : AfterSetup before) {restored : Bool} :
    kernelAfter sh setup teardown K (before ++ [⟨.teardownSystem, restored⟩]) =
      (teardownSystem sh teardown K₁ config).1 := by
  obtain ⟨inner, rfl, hinner⟩ := hafter
  have hfirst : [⟨.setupSystem, true⟩].foldl (kernelStep sh setup teardown) (K, none) =
      (K₁, some config) := hset
  rw [kernelAfter, List.foldl_append, List.foldl_append, foldl_kernelStep hinner, hfirst]
  rfl

omit [Python] in
/-- **The step that raises** is the last one that was begun. -/
theorem exists_last_step (hne : marks stageOf before ≠ [])
    (hmarks : marks stageOf before <+:
      (benchmarkSteps breakpointsDf.length runs).map (stageIn breakpointsDf)) :
    ∃ done step rest, benchmarkSteps breakpointsDf.length runs = done ++ step :: rest ∧
      marks stageOf before = (done ++ [step]).map (stageIn breakpointsDf) := by
  generalize benchmarkSteps breakpointsDf.length runs = steps at hmarks ⊢
  rw [List.prefix_iff_eq_take, ← List.map_take] at hmarks
  rcases List.eq_nil_or_concat (steps.take (marks stageOf before).length) with
    hnil | ⟨done, step, h⟩
  · rw [hnil] at hmarks
    exact absurd hmarks hne
  · rw [List.concat_eq_append] at h
    refine ⟨done, step, steps.drop (marks stageOf before).length, ?_, ?_⟩
    · rw [← List.singleton_append, ← List.append_assoc, ← h, List.take_append_drop]
    · rw [← h]
      exact hmarks

omit [Python] in
theorem find?_step {done rest : List BenchmarkStep} {step : BenchmarkStep} :
    (done ++ step :: rest).find? (fun s ↦ s = step) = some step := by
  obtain ⟨s, hs⟩ : ∃ s, (done ++ step :: rest).find? (fun s ↦ s = step) = some s := by
    refine Option.isSome_iff_exists.1 (List.find?_isSome.2 ⟨step, ?_, decide_eq_true rfl⟩)
    exact List.mem_append_right _ List.mem_cons_self
  have heq := List.find?_some hs
  rw [hs, of_decide_eq_true heq]

/-- The coarse model after a setup that returned. -/
theorem runBenchmark_of_setupSystem (hset : setupSystem sh setup K = (K₁, some config)) {n : ℕ}
    (step : BenchmarkStep → Bool) : Replay.runBenchmark sh ⟨setup, step, teardown⟩ K n runs =
      ((teardownSystem sh teardown K₁ config).1,
        if (teardownSystem sh teardown K₁ config).2 then
          ((benchmarkSteps n runs).find? step).elim .returns .stepRaised
        else .teardownRaised) := by
  rw [Replay.runBenchmark, hset]

/-- What the setup and the teardown of a run did to the files. -/
theorem exists_setupSystem_eq {env : Env Cmd Ans} (henv : AnswersFor sh setup teardown K env)
    (hafter : AfterSetup before) {restored : Bool}
    (hanswer : ∀ e ∈ before ++ [(⟨.teardownSystem, restored⟩ : Script.Event Cmd Ans)],
      ∃ pre, e.2 = env pre e.1) : ∃ K₁ config, setupSystem sh setup K = (K₁, some config) ∧
      (teardownSystem sh teardown K₁ config).2 = restored := by
  obtain ⟨pre, hdown⟩ := hanswer _ (List.mem_append_right _ (List.mem_singleton_self _))
  obtain ⟨inner, rfl, -⟩ := hafter
  obtain ⟨pre', hup⟩ := hanswer ⟨.setupSystem, true⟩ List.mem_cons_self
  have hsome : (setupSystem sh setup K).2.isSome = true := (henv.setup_eq pre').symm.trans hup.symm
  obtain ⟨config, hconfig⟩ := Option.isSome_iff_exists.1 hsome
  exact ⟨(setupSystem sh setup K).1, config, Prod.ext rfl hconfig,
    (henv.teardown_eq config hconfig pre).symm.trans hdown.symm⟩

/-- Each way to end is an exit of the coarse model. -/
theorem Ended.refines {h : Log} {ended : Except Failure Unit} {env : Env Cmd Ans}
    (he : Ended ((benchmarkSteps breakpointsDf.length runs).map (stageIn breakpointsDf)) ended h)
    (henv : AnswersFor sh setup teardown K env) (hanswer : ∀ e ∈ h, ∃ pre, e.2 = env pre e.1) :
    ∃ step exit, Replay.runBenchmark sh ⟨setup, step, teardown⟩ K breakpointsDf.length runs =
      (kernelAfter sh setup teardown K h, exit) ∧ ExitOf breakpointsDf runs h ended exit := by
  cases he with
  | setupRaised =>
    obtain ⟨pre, hup⟩ := hanswer _ (List.mem_singleton_self _)
    have hsome : (setupSystem sh setup K).2.isSome = false :=
      (henv.setup_eq pre).symm.trans hup.symm
    have hset : setupSystem sh setup K = ((setupSystem sh setup K).1, none) :=
      Prod.ext rfl (Option.isNone_iff_eq_none.1 (Option.isSome_eq_false_iff.1 hsome))
    refine ⟨fun _ ↦ false, .setupRaised, ?_, .setupRaised⟩
    rw [Replay.runBenchmark, hset]
    rfl
  | teardownRaised hafter hmarks =>
    obtain ⟨K₁, config, hset, hdown⟩ := exists_setupSystem_eq henv hafter hanswer
    refine ⟨fun _ ↦ false, .teardownRaised, ?_, .teardownRaised⟩
    rw [runBenchmark_of_setupSystem hset, kernelAfter_teardown hset hafter, hdown]
    rfl
  | stepRaised e hafter hne hmarks =>
    obtain ⟨K₁, config, hset, hdown⟩ := exists_setupSystem_eq henv hafter hanswer
    obtain ⟨done, step, rest, hsteps, hlast⟩ := exists_last_step hne hmarks
    refine ⟨fun s ↦ s = step, .stepRaised step, ?_,
      .stepRaised e hsteps ((marks_teardown _ _).trans hlast)⟩
    rw [runBenchmark_of_setupSystem hset, kernelAfter_teardown hset hafter, hdown, hsteps,
      find?_step]
    rfl
  | returns hafter hmarks =>
    obtain ⟨K₁, config, hset, hdown⟩ := exists_setupSystem_eq henv hafter hanswer
    refine ⟨fun _ ↦ false, .returns, ?_, .returns⟩
    have hfind : (benchmarkSteps breakpointsDf.length runs).find? (fun _ ↦ false) = none :=
      List.find?_eq_none.2 fun _ _ h ↦ Bool.false_ne_true h
    rw [runBenchmark_of_setupSystem hset, kernelAfter_teardown hset hafter, hdown, hfind]
    rfl

/-- **A benchmark on the kernel's files** is a run of the coarse model, for some step that raises or
none: it leaves the same files, and ends in the same way. -/
theorem runBenchmark_refines (turns : ℕ) (breakpointsDf : List Breakpoints) (runs : ℤ)
    {env : Env Cmd Ans} (henv : AnswersFor sh setup teardown K env) : ∃ step exit,
    Replay.runBenchmark sh ⟨setup, step, teardown⟩ K breakpointsDf.length runs =
      (kernelAfter sh setup teardown K ((runBenchmark turns breakpointsDf runs).run env []).1,
        exit) ∧
    ExitOf breakpointsDf runs ((runBenchmark turns breakpointsDf runs).run env []).1
      ((runBenchmark turns breakpointsDf runs).run env []).2 exit :=
  (ended_run turns breakpointsDf runs env).refines henv fun _ he ↦
    (exists_answered _ env [] he).resolve_left List.not_mem_nil

end Files

end Lifecycle

end Replay
