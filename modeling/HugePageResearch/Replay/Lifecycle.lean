import HugePageResearch.Replay.Restore

/-!
# A benchmark from its setup to its teardown

`run_benchmark` of `data_collection/replay_trace.py` on the host of `Restore`: for each combination
of breakpoints the snapshot is restored, the server is purged and the replay is timed, as often as
demanded, and then the results are written; the system is torn down whatever raises.

`runBenchmark_orderly` says that no two servers ever run, whatever the host does between the calls,
and that each replay starts on a server that has loaded the snapshot and was purged, and was asked
for nothing else. `reaches_run_working` shows a host that a benchmark can run on.
-/

namespace Replay

namespace Lifecycle

open Script

/-! ### `run_benchmark` -/

/-- A row of the results. -/
abbrev Row := Dict PyStr Cell

/-- `memory_purge`. -/
def memoryPurge : Action Unit := do
  let ok ← (ask Cmd.memoryPurge : Action Bool)
  require ok .redisError

/-- `f"runtime_s_{run}"`. -/
def runtimeColumn (run : ℕ) : PyStr := "runtime_s_".toList ++ PyStr.ofInt run

/-- `{**breakpoints}`. -/
def rowOf (breakpoints : Breakpoints) : Row where
  items := breakpoints.items.map fun e ↦ (e.1, .breakpoint e.2)
  nodupKeys := by
    rw [List.map_map]
    exact breakpoints.nodupKeys

/-- One run of a combination. -/
def timedRun (turns : ℕ) (breakpoints : Breakpoints) (run : ℕ) (rowResult : Row) : Action Row := do
  restoreSnapshot turns
  memoryPurge
  let t0 ← (ask Cmd.perfCounter : Action ℚ)
  let counts ← (ask (Cmd.replay breakpoints) : Action (Option (ℕ × ℕ × ℕ)))
  require counts.isSome .replayRaised
  let t1 ← (ask Cmd.perfCounter : Action ℚ)
  pure (rowResult.set (runtimeColumn run) (.runtime (t1 - t0)))

/-- One combination. -/
def combination (turns : ℕ) (runs : ℤ) (breakpoints : Breakpoints) (results : List Row) :
    Action (List Row) := do
  let rowResult ←
    forEach (timedRun turns breakpoints) (List.range' 1 runs.toNat) (rowOf breakpoints)
  pure (results ++ [rowResult])

/-- The block that ends with the teardown. -/
def benchmark (turns : ℕ) (breakpointsDf : List Breakpoints) (runs : ℤ) : Action Unit := do
  let results ← forEach (combination turns runs) breakpointsDf []
  let made ← (ask Cmd.mkdir : Action Bool)
  require made .writeRaised
  let written ← (ask (Cmd.writeParquet results) : Action Bool)
  require written .writeRaised

/-- `run_benchmark`. -/
def runBenchmark (turns : ℕ) (breakpointsDf : List Breakpoints) (runs : ℤ) : Action Unit := do
  let configured ← (ask Cmd.setupSystem : Action Bool)
  require configured .setupRaised
  let raised ← attempt (benchmark turns breakpointsDf runs)
  let restored ← (ask Cmd.teardownSystem : Action Bool)
  require restored .teardownRaised
  match raised with
  | .ok _ => pure ()
  | .error e => .raise e

/-! ### The servers -/

section Orderly

variable {Data : Type} {snapshot data : Data} {h : Log} {turns : ℕ} {w w' : Host Data}
  {request : Request} {requests : List Request} {ok : Bool}

/-- A request starts no server. -/
theorem Host.Asked.exists_runs (ha : w.Asked request ok w') {pid : ℤ} {server : RedisServer Data}
    (hr : w'.Runs pid server) : ∃ server', w.Runs pid server' := by
  obtain ⟨-, rfl⟩ | ⟨pid', child, server', hserver', rfl⟩ := ha
  · exact ⟨server, hr⟩
  · by_cases hpid : pid = pid'
    · exact ⟨server', child, by rw [hpid, hserver']⟩
    · exact ⟨server, (Host.runs_setProcess_of_ne hpid).1 hr⟩

theorem Host.AtMostOne.asked (hone : w.AtMostOne) (ha : w.Asked request ok w') :
    w'.AtMostOne := fun pid₁ pid₂ _ _ h₁ h₂ ↦ by
  obtain ⟨server₁, hr₁⟩ := ha.exists_runs h₁
  obtain ⟨server₂, hr₂⟩ := ha.exists_runs h₂
  exact hone pid₁ pid₂ server₁ server₂ hr₁ hr₂

/-- **A request that goes well** is one more that the only server was asked for. -/
theorem Host.OnlyHas.asked (honly : w.OnlyHas data requests) (ha : w.Asked request true w') :
    w'.OnlyHas data (requests ++ [request]) := by
  refine ⟨honly.1.asked ha, fun pid server hr ↦ ?_⟩
  obtain ⟨hok, -⟩ | ⟨pid', child, server', hserver', rfl⟩ := ha
  · cases hok
  by_cases hpid : pid = pid'
  · rw [hpid] at hr
    obtain ⟨child', hchild⟩ := Host.runs_setProcess_self.1 hr
    cases hchild
    rw [honly.2 pid' server' ⟨child, hserver'⟩]
  · have hr' := (Host.runs_setProcess_of_ne hpid).1 hr
    exact absurd (honly.1 pid pid' server server' hr' ⟨child, hserver'⟩) hpid

/-- **`memory_purge`** on a server that was asked for nothing yet. -/
theorem orderly_memoryPurge (hp : (host snapshot).Certain (Host.OnlyHas snapshot []) h) :
    Orderly snapshot (fun _ ↦ (host snapshot).Certain (Host.OnlyHas snapshot [.memoryPurge]))
      memoryPurge h := by
  refine meets_ask.2 ⟨hp.mono fun w hw ↦ ⟨hw.1, trivial⟩, fun ok ↦ meets_require.2 ?_⟩
  cases ok with
  | true =>
    exact hp.answered (fun w w' hw ha ↦ hw.asked ha) (stable_of_closed Host.closed_onlyHas)
  | false =>
    exact hp.answered (fun w w' hw ha ↦ hw.1.asked ha) (stable_of_closed Host.closed_atMostOne)

/-- **A run** restores, purges and replays in this order. -/
theorem orderly_timedRun {breakpoints : Breakpoints} {run : ℕ} {rowResult : Row}
    (hone : (host snapshot).Certain Host.AtMostOne h) :
    Orderly snapshot (fun _ ↦ (host snapshot).Certain Host.AtMostOne)
      (timedRun turns breakpoints run rowResult) h := by
  refine meets_seq (orderly_restoreSnapshot hone) fun _ h₁ hp₁ ↦ ?_
  refine meets_seq (orderly_memoryPurge hp₁) fun _ h₂ hp₂ ↦ ?_
  refine meets_ask.2 ⟨hp₂.mono fun w hw ↦ ⟨hw.1, trivial⟩, fun t0 ↦ ?_⟩
  have hp₃ := certain_quiet (c := .perfCounter) Host.closed_onlyHas trivial hp₂ t0
  refine meets_ask.2 ⟨hp₃.mono fun w hw ↦ ⟨hw.1, hw⟩, fun counts ↦ ?_⟩
  have hp₄ : (host snapshot).Certain Host.AtMostOne
      (h₂ ++ [⟨.perfCounter, t0⟩] ++ [⟨.replay breakpoints, counts⟩]) :=
    hp₃.answered (fun w w' hw ha ↦ hw.1.asked ha) (stable_of_closed Host.closed_atMostOne)
  refine meets_seq (R := fun _ ↦ (host snapshot).Certain Host.AtMostOne) (meets_require.2 ?_)
    fun _ h₅ hp₅ ↦ meets_ask.2 ⟨hp₅.mono fun w hw ↦ ⟨hw, trivial⟩, fun t1 ↦ ?_⟩
  · split_ifs
    · exact hp₄
    · exact hp₄
  · exact certain_quiet (c := .perfCounter) Host.closed_atMostOne trivial hp₅ t1

theorem orderly_benchmark {breakpointsDf : List Breakpoints} {runs : ℤ}
    (hone : (host snapshot).Certain Host.AtMostOne h) :
    Orderly snapshot (fun _ ↦ (host snapshot).Certain Host.AtMostOne)
      (benchmark turns breakpointsDf runs) h := by
  refine meets_seq (meets_forEach (I := fun _ _ ↦ (host snapshot).Certain Host.AtMostOne)
    (fun _ breakpoints _ _ results h₁ hp₁ ↦ ?_) hone) fun results h₂ hp₂ ↦ ?_
  · exact meets_seq (meets_forEach (I := fun _ _ ↦ (host snapshot).Certain Host.AtMostOne)
      (fun _ run _ _ rowResult h' hp' ↦ orderly_timedRun hp') hp₁) fun _ _ hp ↦ hp
  refine meets_ask.2 ⟨hp₂.mono fun w hw ↦ ⟨hw, trivial⟩, fun made ↦ ?_⟩
  have hp₃ := certain_quiet (c := .mkdir) Host.closed_atMostOne trivial hp₂ made
  refine meets_seq (R := fun _ ↦ (host snapshot).Certain Host.AtMostOne)
    (meets_require.2 (by split_ifs <;> exact hp₃)) fun _ h₄ hp₄ ↦ ?_
  refine meets_ask.2 ⟨hp₄.mono fun w hw ↦ ⟨hw, trivial⟩, fun written ↦ meets_require.2 ?_⟩
  have hp₅ :=
    certain_quiet (c := .writeParquet results) Host.closed_atMostOne trivial hp₄ written
  split_ifs <;> exact hp₅

theorem orderly_runBenchmark {breakpointsDf : List Breakpoints} {runs : ℤ} :
    Orderly snapshot (fun _ ↦ (host snapshot).Certain Host.AtMostOne)
      (runBenchmark turns breakpointsDf runs) [] := by
  have hp₀ : (host snapshot).Certain Host.AtMostOne [] :=
    Outside.certain_nil (fun w hw ↦ hw) (stable_of_closed Host.closed_atMostOne)
  refine meets_ask.2 ⟨hp₀.mono fun w hw ↦ ⟨hw, trivial⟩, fun configured ↦ ?_⟩
  have hp₁ := certain_quiet (c := .setupSystem) Host.closed_atMostOne trivial hp₀ configured
  refine meets_seq (R := fun _ ↦ (host snapshot).Certain Host.AtMostOne)
    (meets_require.2 (by split_ifs <;> exact hp₁)) fun _ h₂ hp₂ ↦ ?_
  refine meets_seq (R := fun _ ↦ (host snapshot).Certain Host.AtMostOne)
    (meets_attempt.2 (orderly_benchmark hp₂)) fun raised h₃ hp₃ ↦ ?_
  refine meets_ask.2 ⟨hp₃.mono fun w hw ↦ ⟨hw, trivial⟩, fun restored ↦ ?_⟩
  have hp₄ := certain_quiet (c := .teardownSystem) Host.closed_atMostOne trivial hp₃ restored
  refine meets_seq (R := fun _ ↦ (host snapshot).Certain Host.AtMostOne)
    (meets_require.2 (by split_ifs <;> exact hp₄)) fun _ h₅ hp₅ ↦ ?_
  cases raised with
  | ok _ => exact hp₅
  | error e => exact hp₅

/-- **No two servers ever run**, whatever the host does between the calls, a server is started only
where none runs and the file is the snapshot, and each replay starts on a server that has loaded the
snapshot and was purged, and was asked for nothing else. -/
theorem runBenchmark_orderly (snapshot : Data) (turns : ℕ) (breakpointsDf : List Breakpoints)
    (runs : ℤ) (env : Env Cmd Ans) :
    (∀ pre e post, ((runBenchmark turns breakpointsDf runs).run env []).1 = pre ++ e :: post →
      ∀ w, (host snapshot).Reaches pre w → InOrder snapshot e.1 w) ∧
    ∀ w, (host snapshot).Reaches ((runBenchmark turns breakpointsDf runs).run env []).1 w →
      w.AtMostOne := by
  obtain ⟨hsafe, hok, herror⟩ := orderly_runBenchmark.run safe_nil env
  refine ⟨hsafe, ?_⟩
  cases hend : ((runBenchmark turns breakpointsDf runs).run env []).2 with
  | ok u => exact hok u hend
  | error e => exact herror e hend

end Orderly

/-! ### A host that works -/

section WorkingHost

/-- The server under pid 7, and whether the script has started it. -/
def serverOf (w : Host ℕ) : Option (Bool × RedisServer ℕ) :=
  match w.process 7 with
  | some ⟨child, .redis server⟩ => some (child, server)
  | _ => none

/-- The server under pid 7 serves a request, if it runs. -/
def serve (w : Host ℕ) (request : Request) : Host ℕ :=
  match serverOf w with
  | some (child, server) => w.setProcess 7
      (some ⟨child, .redis { server with requests := server.requests ++ [request] }⟩)
  | none => w

/-- A host on which everything goes well, at once. -/
def workingAnswer (w : Host ℕ) : (c : Cmd) → Ans c
  | .setupSystem => true
  | .info => if (serverOf w).isSome then some (some 7) else none
  | .configGet parameter => some parameter
  | .copySnapshot _ _ => true
  | .shutdown => .connectionError
  | .monotonic => (0 : ℚ)
  | .waitpid pid =>
    match w.process pid with
    | some ⟨true, .zombie⟩ => some pid
    | some ⟨true, _⟩ => some 0
    | _ => none
  | .kill pid => if (w.process pid).isNone then .noProcess else .sent
  | .sleep _ => ()
  | .moduleExists => true
  | .startRedis _ _ _ => (w.process 7).isNone
  | .ping => (serverOf w).isSome
  | .memoryPurge => (serverOf w).isSome
  | .perfCounter => (0 : ℚ)
  | .replay _ => (serverOf w).map fun _ ↦ (0, 0, 0)
  | .mkdir => true
  | .writeParquet _ => true
  | .teardownSystem => true

/-- What it is after a call; a server that the script has started is a zombie after it has exited,
and another is waited for by its parent. -/
def workingAfter (w : Host ℕ) : Script.Event Cmd Ans → Host ℕ
  | ⟨.copySnapshot rdbDir rdbFile, _⟩ => w.setFile rdbDir rdbFile 1
  | ⟨.shutdown, _⟩ =>
    match serverOf w with
    | some (true, _) => w.setProcess 7 (some ⟨true, .zombie⟩)
    | some (false, _) => w.setProcess 7 none
    | none => w
  | ⟨.waitpid pid, _⟩ =>
    match w.process pid with
    | some ⟨true, .zombie⟩ => w.setProcess pid none
    | _ => w
  | ⟨.startRedis rdbDir rdbFile _, _⟩ =>
    match w.process 7 with
    | none => w.setProcess 7 (some ⟨true, .redis ⟨w.file rdbDir rdbFile, []⟩⟩)
    | some _ => w
  | ⟨.memoryPurge, _⟩ => serve w .memoryPurge
  | ⟨.replay breakpoints, _⟩ => serve w (.replay breakpoints)
  | _ => w

/-- A server that the script has not started, and files that are not the snapshot. -/
def workingHost : Host ℕ :=
  ⟨fun pid ↦ if pid = 7 then some ⟨false, .redis ⟨0, []⟩⟩ else none, fun _ _ ↦ 0⟩

/-- The environment of the host that works. -/
def workingEnv : Env Cmd Ans := fun h c ↦ workingAnswer (h.foldl workingAfter workingHost) c

variable {h : Log} {w : Host ℕ} {child : Bool} {server : RedisServer ℕ}

theorem serverOf_eq_some :
    serverOf w = some (child, server) ↔ w.process 7 = some ⟨child, .redis server⟩ := by
  rw [serverOf]
  split
  · rename_i child' server' heq
    rw [heq]
    constructor
    · intro h
      cases h
      rfl
    · intro h
      cases h
      rfl
  · rename_i hne
    exact iff_of_false (fun h ↦ by cases h) (hne child server)

theorem asked_serve {request : Request} :
    w.Asked request (serverOf w).isSome (serve w request) := by
  rw [serve]
  cases hserver : serverOf w with
  | none => exact Or.inl ⟨rfl, rfl⟩
  | some e => exact Or.inr ⟨7, e.1, e.2, serverOf_eq_some.1 hserver, rfl⟩

theorem exists_runs_of_isSome (hs : (serverOf w).isSome = true) : ∃ server, w.Runs 7 server := by
  obtain ⟨e, he⟩ := Option.isSome_iff_exists.1 hs
  exact ⟨e.2, e.1, serverOf_eq_some.1 he⟩

theorem setProcess_setProcess {Data : Type} {w : Host Data} {pid : ℤ}
    {p p' : Option (Process Data)} :
    (w.setProcess pid p).setProcess pid p' = w.setProcess pid p' := by
  rw [Host.setProcess, Host.setProcess, Host.setProcess]
  congr 1
  funext q
  show (if q = pid then p' else if q = pid then p else w.process q) = _
  split_ifs <;> rfl

/-- **A server that is shut down exits**, and its parent waits for it, if that is not the script. -/
theorem reaches_shutdown (hw : (host 1).Reaches h w) :
    (host 1).Reaches (h ++ [⟨.shutdown, .connectionError⟩])
      (workingAfter w ⟨.shutdown, .connectionError⟩) := by
  have hsame : (host 1).Reaches (h ++ [⟨.shutdown, .connectionError⟩]) w := hw.answer rfl
  rw [workingAfter]
  cases hserver : serverOf w with
  | none => exact hsame
  | some e =>
    obtain ⟨child, server⟩ := e
    have hexit := hsame.move (Host.Moves.exit (serverOf_eq_some.1 hserver))
    cases child with
    | true => exact hexit
    | false =>
      have hreap := hexit.move (Host.Moves.reap (if_pos rfl))
      rwa [setProcess_setProcess] at hreap

/-- **The host answers as a host does.** -/
theorem reaches_working (hw : (host 1).Reaches h w) (c : Cmd) :
    (host 1).Reaches (h ++ [⟨c, workingAnswer w c⟩]) (workingAfter w ⟨c, workingAnswer w c⟩) := by
  cases c with
  | info =>
    refine hw.answer ⟨fun pid hpid ↦ ?_, rfl⟩
    rw [workingAnswer] at hpid
    split_ifs at hpid with hs
    cases hpid
    exact exists_runs_of_isSome hs
  | copySnapshot rdbDir rdbFile => exact hw.answer ⟨1, fun _ ↦ rfl, rfl⟩
  | shutdown => exact reaches_shutdown hw
  | waitpid pid =>
    refine hw.answer ?_
    show Host.Waited w pid _ _
    rw [workingAnswer, workingAfter]
    rcases hp : w.process pid with _ | ⟨child, activity⟩
    · exact ⟨fun p hp' ↦ (by cases hp.symm.trans hp'), rfl⟩
    · cases child with
      | false =>
        refine ⟨fun p hp' ↦ ?_, rfl⟩
        cases hp.symm.trans hp'
        rfl
      | true =>
        cases activity with
        | zombie => exact Or.inr ⟨rfl, hp, rfl⟩
        | redis server => exact Or.inl ⟨rfl, ⟨_, hp, fun h ↦ by cases h⟩, rfl⟩
        | other => exact Or.inl ⟨rfl, ⟨_, hp, fun h ↦ by cases h⟩, rfl⟩
  | kill pid =>
    refine hw.answer ⟨?_, rfl⟩
    rw [workingAnswer]
    cases w.process pid with
    | none => exact iff_of_true rfl rfl
    | some p => exact iff_of_false (fun h ↦ by cases h) fun h ↦ by cases h
  | startRedis rdbDir rdbFile loadmodule =>
    refine hw.answer ?_
    show if (w.process 7).isNone = true then _ else _
    rw [workingAfter]
    cases hp : w.process 7 with
    | none => exact ⟨7, hp, rfl⟩
    | some p => rfl
  | ping => exact hw.answer ⟨fun hpong ↦ ⟨7, exists_runs_of_isSome hpong⟩, rfl⟩
  | memoryPurge => exact hw.answer asked_serve
  | replay breakpoints =>
    refine hw.answer ?_
    show Host.Asked w _ (Option.isSome ((serverOf w).map _)) _
    rw [Option.isSome_map]
    exact asked_serve
  | _ => exact hw.answer rfl

theorem atMostOne_workingHost : workingHost.AtMostOne := by
  have honly : ∀ pid server, workingHost.Runs pid server → pid = 7 := by
    rintro pid server ⟨child, hchild⟩
    by_contra hne
    have hnone : workingHost.process pid = none := if_neg hne
    cases hnone.symm.trans hchild
  exact fun pid pid' server server' hr hr' ↦
    (honly pid server hr).trans (honly pid' server' hr').symm

/-- **Every run on this host is possible**, and one that replays a combination twice returns. -/
theorem reaches_run_working {α : Type} (s : Action α) : (host 1).Reaches (s.run workingEnv []).1
    ((s.run workingEnv []).1.foldl workingAfter workingHost) :=
  Outside.reaches_run (fun _ _ c hw ↦ reaches_working hw c) [] (.start atMostOne_workingHost)

example : ((runBenchmark 1 [Dict.empty] 2).run workingEnv []).2.isOk = true := by decide +kernel

end WorkingHost

end Lifecycle

end Replay
