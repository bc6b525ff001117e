import HugePageResearch.Library.Outside
import HugePageResearch.Python.Dict
import HugePageResearch.Python.Text
import Mathlib.Algebra.Order.Field.Rat

/-!
# One server at a time

`restore_snapshot` of `data_collection/replay_trace.py` and the two waits in it, on a host whose
processes exit when they like: a server is asked for its pid, the snapshot is copied over its file,
the server is shut down, and the next one is started on the file once the pid is seen to be gone.

The script sees the host through `waitpid` and `kill` only, and a process that has exited may still
be a zombie, or its pid may be in use again. `meets_restoreSnapshot` says what it makes certain all
the same: that no server runs when the next one is started, and that the one that runs afterwards
has loaded the snapshot and was asked for nothing yet.

The host is the machine that the script runs on, nobody else starts a server on it, and a server
does not write its file by itself, as `config/redis.conf` has `save ""`.
-/

namespace Replay

namespace Lifecycle

open Script

/-! ### Calls -/

/-- `{key: access_num}`. -/
abbrev Breakpoints := Dict PyStr ℤ

/-- A row of the results: the breakpoints and the runtimes. -/
inductive Cell where
  | breakpoint (access : ℤ)
  | runtime (seconds : ℚ)
  deriving DecidableEq

/-- What `os.kill(pid, 0)` does. -/
inductive Signalled where
  | sent
  /-- `ProcessLookupError`. -/
  | noProcess
  /-- `PermissionError`. -/
  | noPermission
  deriving DecidableEq

/-- What `SHUTDOWN NOSAVE` does. -/
inductive Shutdown where
  | returned
  /-- `redis.ConnectionError`. -/
  | connectionError
  /-- Another exception. -/
  | raised
  deriving DecidableEq

/-- What is called. -/
inductive Cmd where
  /-- `setup_system`. -/
  | setupSystem
  /-- `client.info("server")`. -/
  | info
  /-- `client.config_get(parameter)[parameter]`. -/
  | configGet (parameter : PyStr)
  /-- `sudo cp`, from the snapshot. -/
  | copySnapshot (rdbDir rdbFile : PyStr)
  /-- `SHUTDOWN NOSAVE`. -/
  | shutdown
  /-- `time.monotonic()`. -/
  | monotonic
  /-- `os.waitpid(pid, os.WNOHANG)`. -/
  | waitpid (pid : ℤ)
  /-- `os.kill(pid, 0)`. -/
  | kill (pid : ℤ)
  /-- `time.sleep`. -/
  | sleep (seconds : ℚ)
  /-- `vaptr_module.exists()`. -/
  | moduleExists
  /-- `subprocess.Popen` of `redis-server`, perhaps with the module. -/
  | startRedis (rdbDir rdbFile : PyStr) (loadmodule : Bool)
  /-- `client.ping()`. -/
  | ping
  /-- `MEMORY PURGE`. -/
  | memoryPurge
  /-- `time.perf_counter()`. -/
  | perfCounter
  /-- `replay`, of the trace. -/
  | replay (breakpoints : Breakpoints)
  /-- `output.parent.mkdir`. -/
  | mkdir
  /-- `pl.DataFrame(results).write_parquet`. -/
  | writeParquet (results : List (Dict PyStr Cell))
  /-- `teardown_system`. -/
  | teardownSystem

/-- What comes back: whether it went well, or `none` for an exception. Of the server's information
it is the `process_id`, if that is an integer. -/
abbrev Ans : Cmd → Type
  | .setupSystem => Bool
  | .info => Option (Option ℤ)
  | .configGet _ => Option PyStr
  | .copySnapshot _ _ => Bool
  | .shutdown => Shutdown
  | .monotonic => ℚ
  | .waitpid _ => Option ℤ
  | .kill _ => Signalled
  | .sleep _ => Unit
  | .moduleExists => Bool
  | .startRedis _ _ _ => Bool
  | .ping => Bool
  | .memoryPurge => Bool
  | .perfCounter => ℚ
  | .replay _ => Option (ℕ × ℕ × ℕ)
  | .mkdir => Bool
  | .writeParquet _ => Bool
  | .teardownSystem => Bool

/-- What is raised. -/
inductive Failure where
  | setupRaised
  | redisError
  /-- Without a valid `process_id`. -/
  | runtimeError
  /-- By `subprocess.run(..., check=True)`. -/
  | calledProcessError
  | timeoutError
  /-- By `subprocess.Popen`. -/
  | osError
  | replayRaised
  | writeRaised
  | teardownRaised
  /-- No exception of the source: the turns of a loop are used up. -/
  | waiting
  deriving DecidableEq

/-- A part of the benchmark. -/
abbrev Action (α : Type) := Script Cmd Ans Failure α

/-- What has happened. -/
abbrev Log := History Cmd Ans

/-! ### `restore_snapshot` -/

/-- `_get_redis_pid`. -/
def getRedisPid : Action ℤ := do
  match ← (ask Cmd.info : Action (Option (Option ℤ))) with
  | none => .raise .redisError
  | some none => .raise .runtimeError
  | some (some processId) => do
    require (0 < processId) .runtimeError
    pure processId

/-- `_redis_process_exited`. -/
def redisProcessExited (pid : ℤ) : Action Bool := do
  let waitedPid ← (ask (Cmd.waitpid pid) : Action (Option ℤ))
  if waitedPid.getD 0 = pid then pure true else do
    match ← (ask (Cmd.kill pid) : Action Signalled) with
    | .noProcess => pure true
    | .noPermission => pure false
    | .sent => pure false

/-- `while time.monotonic() < deadline: if poll(): return; time.sleep(0.1)`, and a `TimeoutError`
after it. -/
def pollUntil (poll : Action Bool) (deadline : ℚ) : ℕ → Action Unit
  | 0 => .raise .waiting
  | turns + 1 => do
    let now ← (ask Cmd.monotonic : Action ℚ)
    if now < deadline then do
      if ← poll then pure () else do
        tell (Cmd.sleep (1 / 10))
        pollUntil poll deadline turns
    else .raise .timeoutError

/-- `_wait_for_redis_exit`. -/
def waitForRedisExit (turns : ℕ) (pid : ℤ) (timeout : ℚ) : Action Unit := do
  let start ← (ask Cmd.monotonic : Action ℚ)
  pollUntil (redisProcessExited pid) (start + timeout) turns

/-- `_wait_for_redis`. -/
def waitForRedis (turns : ℕ) (timeout : ℚ) : Action Unit := do
  let start ← (ask Cmd.monotonic : Action ℚ)
  pollUntil (ask Cmd.ping) (start + timeout) turns

/-- The default of `_wait_for_redis_exit`. -/
def redisExitTimeout : ℚ := 30

/-- `REDIS_RESTORE_TIMEOUT_S`. -/
def redisRestoreTimeout : ℚ := 300

/-- `client.config_get(parameter)[parameter]`. -/
def configGet (parameter : PyStr) : Action PyStr := do
  match ← (ask (Cmd.configGet parameter) : Action (Option PyStr)) with
  | none => .raise .redisError
  | some value => pure value

/-- `restore_snapshot`. -/
def restoreSnapshot (turns : ℕ) : Action Unit := do
  let pid ← getRedisPid
  let rdbDir ← configGet "dir".toList
  let rdbFile ← configGet "dbfilename".toList
  let copied ← (ask (Cmd.copySnapshot rdbDir rdbFile) : Action Bool)
  require copied .calledProcessError
  let shutdown ← (ask Cmd.shutdown : Action Shutdown)
  require (shutdown ≠ .raised) .redisError
  waitForRedisExit turns pid redisExitTimeout
  let loadmodule ← (ask Cmd.moduleExists : Action Bool)
  let started ← (ask (Cmd.startRedis rdbDir rdbFile loadmodule) : Action Bool)
  require started .osError
  waitForRedis turns redisRestoreTimeout

/-! ### The host -/

/-- What a server is asked for. -/
inductive Request where
  | memoryPurge
  | replay (breakpoints : Breakpoints)

variable {Data : Type}

/-- A server: the data that it loaded, and what it was asked for since. -/
structure RedisServer (Data : Type) where
  loaded : Data
  requests : List Request

/-- What a process is. -/
inductive Activity (Data : Type) where
  | redis (server : RedisServer Data)
  /-- It has exited, and its parent has not waited for it. -/
  | zombie
  | other

/-- A process of the host. -/
structure Process (Data : Type) where
  /-- The script has started it. -/
  child : Bool
  activity : Activity Data

/-- The processes and the files of the host. -/
structure Host (Data : Type) where
  process : ℤ → Option (Process Data)
  /-- By directory and name. -/
  file : PyStr → PyStr → Data

/-- No server is started, no file is written, and no server is asked for anything. -/
def Cmd.Quiet : Cmd → Prop
  | copySnapshot _ _ => False
  | startRedis _ _ _ => False
  | memoryPurge => False
  | replay _ => False
  | _ => True

namespace Host

/-- The server runs under the pid. -/
def Runs (w : Host Data) (pid : ℤ) (server : RedisServer Data) : Prop :=
  ∃ child, w.process pid = some ⟨child, .redis server⟩

/-- The host with another process under a pid. -/
def setProcess (w : Host Data) (pid : ℤ) (p : Option (Process Data)) : Host Data :=
  { w with process := fun q ↦ if q = pid then p else w.process q }

/-- The host with a file overwritten. -/
def setFile (w : Host Data) (dir name : PyStr) (data : Data) : Host Data :=
  { w with file := fun d n ↦ if d = dir ∧ n = name then data else w.file d n }

/-- **What the host does by itself**: processes exit, are waited for, and begin; but no server
begins. -/
inductive Moves : Host Data → Host Data → Prop where
  | exit {w : Host Data} {pid : ℤ} {p : Process Data} (hp : w.process pid = some p) :
    Moves w (w.setProcess pid (some ⟨p.child, .zombie⟩))
  | reap {w : Host Data} {pid : ℤ} {child : Bool} (hp : w.process pid = some ⟨child, .zombie⟩) :
    Moves w (w.setProcess pid none)
  | begin {w : Host Data} {pid : ℤ} (hp : w.process pid = none) :
    Moves w (w.setProcess pid (some ⟨false, .other⟩))

/-- `waitpid` with `WNOHANG`: there is no such child, it has not exited, or it has and is waited
for. -/
def Waited (w : Host Data) (pid : ℤ) (waitedPid : Option ℤ) (w' : Host Data) : Prop :=
  match waitedPid with
  | none => (∀ p, w.process pid = some p → p.child = false) ∧ w' = w
  | some n => (n = 0 ∧ (∃ a, w.process pid = some ⟨true, a⟩ ∧ a ≠ .zombie) ∧ w' = w) ∨
      n = pid ∧ w.process pid = some ⟨true, .zombie⟩ ∧ w' = w.setProcess pid none

/-- A request that goes well was served by a server; one that does not may have been. -/
def Asked (w : Host Data) (request : Request) (ok : Bool) (w' : Host Data) : Prop :=
  (ok = false ∧ w' = w) ∨ ∃ pid child server, w.process pid = some ⟨child, .redis server⟩ ∧
    w' = w.setProcess pid
      (some ⟨child, .redis { server with requests := server.requests ++ [request] }⟩)

/-- **How the host answers**, where `snapshot` is what is in the snapshot's file. -/
def Answers (snapshot : Data) (w : Host Data) : Script.Event Cmd Ans → Host Data → Prop
  | ⟨.info, processId⟩, w' =>
    (∀ pid, processId = some (some pid) → ∃ server, w.Runs pid server) ∧ w' = w
  | ⟨.copySnapshot rdbDir rdbFile, copied⟩, w' =>
    ∃ data, (copied = true → data = snapshot) ∧ w' = w.setFile rdbDir rdbFile data
  | ⟨.waitpid pid, waitedPid⟩, w' => w.Waited pid waitedPid w'
  | ⟨.kill pid, signalled⟩, w' => (signalled = .noProcess ↔ w.process pid = none) ∧ w' = w
  | ⟨.startRedis rdbDir rdbFile _, started⟩, w' =>
    if started = true then ∃ pid, w.process pid = none ∧
      w' = w.setProcess pid (some ⟨true, .redis ⟨w.file rdbDir rdbFile, []⟩⟩)
    else w' = w
  | ⟨.ping, pong⟩, w' => (pong = true → ∃ pid server, w.Runs pid server) ∧ w' = w
  | ⟨.memoryPurge, ok⟩, w' => w.Asked .memoryPurge ok w'
  | ⟨.replay breakpoints, result⟩, w' => w.Asked (.replay breakpoints) (Option.isSome result) w'
  | _, w' => w' = w

/-- No two servers run. -/
def AtMostOne (w : Host Data) : Prop :=
  ∀ pid pid' server server', w.Runs pid server → w.Runs pid' server' → pid = pid'

/-- Only under the pid, a server may run. -/
def OnlyAt (pid : ℤ) (w : Host Data) : Prop := ∀ pid' server, w.Runs pid' server → pid' = pid

/-- No server runs. -/
def Off (w : Host Data) : Prop := ∀ pid server, ¬ w.Runs pid server

/-- Only under the pid, a server may run, and the file is the next one's. -/
def Stopping (pid : ℤ) (rdbDir rdbFile : PyStr) (data : Data) (w : Host Data) : Prop :=
  w.OnlyAt pid ∧ w.file rdbDir rdbFile = data

/-- No server runs, and the file is the next one's. -/
def Stopped (rdbDir rdbFile : PyStr) (data : Data) (w : Host Data) : Prop :=
  w.Off ∧ w.file rdbDir rdbFile = data

/-- At most one server runs, and it has loaded the data and was asked for the requests since. -/
def OnlyHas (data : Data) (requests : List Request) (w : Host Data) : Prop :=
  w.AtMostOne ∧ ∀ pid server, w.Runs pid server → server = ⟨data, requests⟩

/-! ### Servers that stop -/

/-- The later host has no new server and the same files. -/
def Within (w' w : Host Data) : Prop :=
  (∀ pid server, w'.Runs pid server → w.Runs pid server) ∧ w'.file = w.file

/-- What a host loses neither by a server that stops nor by other processes. -/
def Closed (P : Host Data → Prop) : Prop := ∀ w w', P w → w'.Within w → P w'

variable {w w' : Host Data} {pid pid' : ℤ} {server : RedisServer Data} {snapshot data : Data}
  {requests : List Request} {P Q : Host Data → Prop}

theorem within_refl : w.Within w := ⟨fun _ _ hr ↦ hr, rfl⟩

theorem process_setProcess {p : Option (Process Data)} :
    (w.setProcess pid p).process pid' = if pid' = pid then p else w.process pid' := rfl

theorem runs_setProcess_of_ne {p : Option (Process Data)} (hne : pid' ≠ pid) :
    (w.setProcess pid p).Runs pid' server ↔ w.Runs pid' server := by
  rw [Runs, Runs, process_setProcess, if_neg hne]

theorem runs_setProcess_self {p : Option (Process Data)} :
    (w.setProcess pid p).Runs pid server ↔ ∃ child, p = some ⟨child, .redis server⟩ := by
  rw [Runs, process_setProcess, if_pos rfl]

/-- A process that is no server replaces another. -/
theorem within_setProcess {p : Option (Process Data)}
    (hp : ∀ child server, p ≠ some ⟨child, .redis server⟩) : (w.setProcess pid p).Within w := by
  refine ⟨fun pid' server hr ↦ ?_, rfl⟩
  by_cases hpid : pid' = pid
  · rw [hpid] at hr
    obtain ⟨child, hchild⟩ := runs_setProcess_self.1 hr
    exact absurd hchild (hp child server)
  · exact (runs_setProcess_of_ne hpid).1 hr

theorem Moves.within (hm : Moves w w') : w'.Within w := by
  cases hm with
  | exit hp => exact within_setProcess fun child server h ↦ by cases h
  | reap hp => exact within_setProcess fun child server h ↦ by cases h
  | begin hp => exact within_setProcess fun child server h ↦ by cases h

theorem closed_atMostOne : Closed (AtMostOne : Host Data → Prop) :=
  fun _ _ hone hw pid pid' server server' hr hr' ↦
    hone pid pid' server server' (hw.1 pid server hr) (hw.1 pid' server' hr')

theorem closed_onlyAt : Closed (OnlyAt pid : Host Data → Prop) := fun _ _ honly hw pid' server hr ↦
  honly pid' server (hw.1 pid' server hr)

theorem closed_off : Closed (Off : Host Data → Prop) := fun _ _ hoff hw pid server hr ↦
  hoff pid server (hw.1 pid server hr)

theorem closed_onlyHas : Closed (OnlyHas data requests) := fun w w' honly hw ↦
  ⟨closed_atMostOne w w' honly.1 hw, fun pid server hr ↦ honly.2 pid server (hw.1 pid server hr)⟩

theorem Within.file_eq {dir name : PyStr} (hw : w'.Within w) (hfile : w.file dir name = data) :
    w'.file dir name = data := (congrFun (congrFun hw.2 dir) name).trans hfile

theorem closed_stopping {rdbDir rdbFile : PyStr} :
    Closed (Stopping pid rdbDir rdbFile data : Host Data → Prop) := fun w w' hs hw ↦
  ⟨closed_onlyAt w w' hs.1 hw, hw.file_eq hs.2⟩

theorem closed_stopped {rdbDir rdbFile : PyStr} :
    Closed (Stopped rdbDir rdbFile data : Host Data → Prop) := fun w w' hs hw ↦
  ⟨closed_off w w' hs.1 hw, hw.file_eq hs.2⟩

theorem OnlyAt.atMostOne (honly : OnlyAt pid w) : w.AtMostOne :=
  fun pid₁ pid₂ server₁ server₂ h₁ h₂ ↦
    (honly pid₁ server₁ h₁).trans (honly pid₂ server₂ h₂).symm

theorem Off.atMostOne (hoff : Off w) : w.AtMostOne := fun pid₁ _ server₁ _ h₁ _ ↦
  absurd h₁ (hoff pid₁ server₁)

/-- The only server under a pid is not there any more. -/
theorem OnlyAt.off (honly : OnlyAt pid w) (hgone : ∀ server, ¬ w.Runs pid server) : w.Off :=
  fun pid' server hr ↦ hgone server (honly pid' server hr ▸ hr)

theorem Waited.within {waitedPid : Option ℤ} (hw : w.Waited pid waitedPid w') : w'.Within w := by
  cases waitedPid with
  | none => exact hw.2 ▸ within_refl
  | some n =>
    obtain ⟨-, -, rfl⟩ | ⟨-, -, rfl⟩ := hw
    · exact within_refl
    · exact within_setProcess fun child server h ↦ by cases h

theorem within_of_quiet {c : Cmd} {a : Ans c} (hc : c.Quiet) (ha : Answers snapshot w ⟨c, a⟩ w') :
    w'.Within w := by
  have hsame : w' = w → w'.Within w := fun h ↦ h ▸ within_refl
  cases c with
  | copySnapshot rdbDir rdbFile => exact hc.elim
  | startRedis rdbDir rdbFile loadmodule => exact hc.elim
  | memoryPurge => exact hc.elim
  | replay breakpoints => exact hc.elim
  | waitpid pid => exact Waited.within ha
  | info => exact hsame ha.2
  | kill pid => exact hsame ha.2
  | ping => exact hsame ha.2
  | _ => exact hsame ha

end Host

/-- **The host**: at most one server runs when the script begins. -/
def host (snapshot : Data) : Outside Cmd Ans (Host Data) :=
  ⟨Host.AtMostOne, Host.Moves, Host.Answers snapshot⟩

/-! ### What the script is certain of -/

/-- **When a call is in order**: there are no two servers, a signal goes to one process, a server is
started where none runs and the file is the snapshot, and a replay starts on a server that has
loaded the snapshot and was purged, and was asked for nothing else. -/
def InOrder (snapshot : Data) (c : Cmd) (w : Host Data) : Prop :=
  w.AtMostOne ∧ match c with
    | .waitpid pid => 0 < pid
    | .kill pid => 0 < pid
    | .startRedis rdbDir rdbFile _ => w.Stopped rdbDir rdbFile snapshot
    | .replay _ => w.OnlyHas snapshot [.memoryPurge]
    | _ => True

/-- The calls are certainly in order, and no two servers are left by an exception. -/
abbrev Orderly {α : Type} (snapshot : Data) (Q : α → Log → Prop) (s : Action α) (h : Log) : Prop :=
  s.Meets (fun h c ↦ (host snapshot).Certain (InOrder snapshot c) h) Q
    (fun _ ↦ (host snapshot).Certain Host.AtMostOne) h

section Certain

variable {snapshot : Data} {h : Log} {P Q : Host Data → Prop} {pid : ℤ}

theorem stable_of_closed (hP : Host.Closed P) : (host snapshot).Stable P := fun w w' hp hm ↦
  hP w w' hp (Host.Moves.within hm)

/-- **A quiet call** changes nothing that is certain. -/
theorem certain_quiet {c : Cmd} (hP : Host.Closed P) (hc : c.Quiet)
    (hp : (host snapshot).Certain P h) (a : Ans c) : (host snapshot).Certain P (h ++ [⟨c, a⟩]) :=
  hp.answered (fun w w' hw ha ↦ hP w w' hw (Host.within_of_quiet hc ha)) (stable_of_closed hP)

/-- **`_get_redis_pid`**: no server runs under another pid. -/
theorem orderly_getRedisPid (hone : (host snapshot).Certain Host.AtMostOne h) :
    Orderly snapshot (fun pid h ↦ 0 < pid ∧ (host snapshot).Certain (Host.OnlyAt pid) h)
      getRedisPid h := by
  refine meets_ask.2 ⟨hone.mono fun w hw ↦ ⟨hw, trivial⟩, fun processId ↦ ?_⟩
  have hkeep := certain_quiet (c := .info) Host.closed_atMostOne trivial hone processId
  rcases processId with _ | _ | pid
  · exact hkeep
  · exact hkeep
  · refine meets_seq (R := fun _ h' ↦ 0 < pid ∧ (host snapshot).Certain (Host.OnlyAt pid) h')
      (meets_require.2 ?_) fun _ _ hpid ↦ hpid
    split_ifs with hpos
    · refine ⟨of_decide_eq_true hpos, hone.answered (fun w w' hw ha ↦ ?_)
        (stable_of_closed Host.closed_onlyAt)⟩
      obtain ⟨hruns, rfl⟩ := ha
      obtain ⟨server, hserver⟩ := hruns pid rfl
      exact fun pid' server' hr ↦ hw pid' pid server' server hr hserver
    · exact hkeep

/-- **`_redis_process_exited`** says no more than what it has seen: where it says yes, no server
runs. -/
theorem orderly_redisProcessExited (hP : Host.Closed P) (honly : ∀ w, P w → w.OnlyAt pid)
    (hpid : 0 < pid) (hp : (host snapshot).Certain P h) :
    Orderly snapshot (fun exited ↦ (host snapshot).Certain fun w ↦ P w ∧ (exited = true → w.Off))
      (redisProcessExited pid) h := by
  have horder : ∀ w, P w → w.AtMostOne ∧ 0 < pid := fun w hw ↦ ⟨(honly w hw).atMostOne, hpid⟩
  have hclosed : ∀ exited : Bool, Host.Closed fun w : Host Data ↦ P w ∧ (exited = true → w.Off) :=
    fun exited w w' hw hwithin ↦
      ⟨hP w w' hw.1 hwithin, fun h ↦ Host.closed_off w w' (hw.2 h) hwithin⟩
  have hno : ∀ h', (host snapshot).Certain P h' →
      (host snapshot).Certain (fun w ↦ P w ∧ (false = true → w.Off)) h' :=
    fun h' hp' ↦ hp'.mono fun w hw ↦ ⟨hw, fun h ↦ by cases h⟩
  refine meets_ask.2 ⟨hp.mono horder, fun waitedPid ↦ ?_⟩
  have hp₁ := certain_quiet (c := .waitpid pid) hP trivial hp waitedPid
  show (if _ then _ else _ : Action Bool).Meets _ _ _ _
  split_ifs with hwaited
  · -- it was a child that had exited
    refine hp.answered (fun w w' hw ha ↦ ?_) (stable_of_closed (hclosed true))
    have hwithin : w'.Within w := Host.Waited.within ha
    refine ⟨hP w w' hw hwithin, fun _ ↦ (honly w' (hP w w' hw hwithin)).off fun server hr ↦ ?_⟩
    rcases waitedPid with _ | n
    · exact absurd hwaited (ne_of_lt hpid)
    · obtain ⟨hn, -, -⟩ | ⟨-, -, rfl⟩ := ha
      · exact absurd (hn.symm.trans hwaited) (ne_of_lt hpid)
      · obtain ⟨child, hchild⟩ := Host.runs_setProcess_self.1 hr
        cases hchild
  · refine meets_ask.2 ⟨hp₁.mono horder, fun signalled ↦ ?_⟩
    have hp₂ := certain_quiet (c := .kill pid) hP trivial hp₁ signalled
    cases signalled with
    | sent => exact hno _ hp₂
    | noPermission => exact hno _ hp₂
    | noProcess =>
      refine hp₁.answered (fun w w' hw ha ↦ ?_) (stable_of_closed (hclosed true))
      obtain ⟨hnone, rfl⟩ := ha
      refine ⟨hw, fun _ ↦ (honly w' hw).off ?_⟩
      rintro server ⟨child, hchild⟩
      cases (hnone.1 rfl).symm.trans hchild

/-- **A wait** ends with what is certain where the poll succeeds. -/
theorem orderly_pollUntil {poll : Action Bool} {deadline : ℚ} {turns : ℕ} (hP : Host.Closed P)
    (hone : ∀ w, P w → w.AtMostOne)
    (hpoll : ∀ h, (host snapshot).Certain P h → Orderly snapshot
      (fun done ↦ (host snapshot).Certain fun w ↦ P w ∧ (done = true → Q w)) poll h)
    (hp : (host snapshot).Certain P h) :
    Orderly snapshot (fun _ ↦ (host snapshot).Certain fun w ↦ P w ∧ Q w)
      (pollUntil poll deadline turns) h := by
  induction turns generalizing h with
  | zero => exact hp.mono hone
  | succ turns ih =>
    refine meets_ask.2 ⟨hp.mono fun w hw ↦ ⟨hone w hw, trivial⟩, fun now ↦ ?_⟩
    have hp₁ := certain_quiet (c := .monotonic) hP trivial hp now
    show (if _ then _ else _ : Action Unit).Meets _ _ _ _
    split_ifs with hearly
    · refine meets_seq (hpoll _ hp₁) fun done h₂ hp₂ ↦ ?_
      cases done with
      | true => exact hp₂.mono fun w hw ↦ ⟨hw.1, hw.2 rfl⟩
      | false =>
        have hp₃ : (host snapshot).Certain P h₂ := hp₂.mono fun w hw ↦ hw.1
        refine meets_tell.2 ⟨hp₃.mono fun w hw ↦ ⟨hone w hw, trivial⟩, fun u ↦ ih ?_⟩
        exact certain_quiet (c := .sleep _) hP trivial hp₃ u
    · exact hp₁.mono hone

/-- **`_wait_for_redis_exit`**: no server runs when it returns. -/
theorem orderly_waitForRedisExit {turns : ℕ} {timeout : ℚ} (hP : Host.Closed P)
    (honly : ∀ w, P w → w.OnlyAt pid) (hpid : 0 < pid) (hp : (host snapshot).Certain P h) :
    Orderly snapshot (fun _ ↦ (host snapshot).Certain fun w ↦ P w ∧ w.Off)
      (waitForRedisExit turns pid timeout) h := by
  have hone : ∀ w, P w → w.AtMostOne := fun w hw ↦ (honly w hw).atMostOne
  refine meets_ask.2 ⟨hp.mono fun w hw ↦ ⟨hone w hw, trivial⟩, fun start ↦ ?_⟩
  exact orderly_pollUntil hP hone (fun _ ↦ orderly_redisProcessExited hP honly hpid)
    (certain_quiet (c := .monotonic) hP trivial hp start)

/-- **`_wait_for_redis`** changes nothing that is certain. -/
theorem orderly_waitForRedis {turns : ℕ} {timeout : ℚ} (hP : Host.Closed P)
    (hone : ∀ w, P w → w.AtMostOne) (hp : (host snapshot).Certain P h) :
    Orderly snapshot (fun _ ↦ (host snapshot).Certain P) (waitForRedis turns timeout) h := by
  refine meets_ask.2 ⟨hp.mono fun w hw ↦ ⟨hone w hw, trivial⟩, fun start ↦ ?_⟩
  refine (orderly_pollUntil (Q := fun _ ↦ True) hP hone (fun h' hp' ↦ ?_)
    (certain_quiet (c := .monotonic) hP trivial hp start)).mono
      (fun _ _ hpq ↦ hpq.mono fun w hw ↦ hw.1) fun _ _ he ↦ he
  refine ⟨hp'.mono fun w hw ↦ ⟨hone w hw, trivial⟩, fun pong ↦ ?_⟩
  exact (certain_quiet (c := .ping) hP trivial hp' pong).mono fun w hw ↦ ⟨hw, fun _ ↦ trivial⟩

theorem orderly_configGet {parameter : PyStr} (hP : Host.Closed P) (hone : ∀ w, P w → w.AtMostOne)
    (hp : (host snapshot).Certain P h) :
    Orderly snapshot (fun _ ↦ (host snapshot).Certain P) (configGet parameter) h := by
  refine meets_ask.2 ⟨hp.mono fun w hw ↦ ⟨hone w hw, trivial⟩, fun value ↦ ?_⟩
  have hp₁ := certain_quiet (c := .configGet parameter) hP trivial hp value
  cases value with
  | none => exact hp₁.mono hone
  | some value => exact hp₁

/-- **A copy** leaves the processes as they are, and the file is the snapshot if it goes well. -/
theorem certain_copySnapshot (rdbDir rdbFile : PyStr) (copied : Bool)
    (hp : (host snapshot).Certain (Host.OnlyAt pid) h) :
    (host snapshot).Certain
      (fun w ↦ w.OnlyAt pid ∧ (copied = true → w.file rdbDir rdbFile = snapshot))
      (h ++ [⟨.copySnapshot rdbDir rdbFile, copied⟩]) := by
  refine hp.answered (fun w w' hw ha ↦ ?_) (stable_of_closed fun w w' hw hwithin ↦
    ⟨Host.closed_onlyAt w w' hw.1 hwithin, fun h ↦ hwithin.file_eq (hw.2 h)⟩)
  obtain ⟨data, hdata, rfl⟩ := ha
  exact ⟨hw, fun h ↦ (if_pos ⟨rfl, rfl⟩).trans (hdata h)⟩

/-- **A server that is started** where none runs has loaded the file. -/
theorem certain_startRedis {rdbDir rdbFile : PyStr} {loadmodule : Bool}
    (hp : (host snapshot).Certain (Host.Stopped rdbDir rdbFile snapshot) h) :
    (host snapshot).Certain (Host.OnlyHas snapshot [])
      (h ++ [⟨.startRedis rdbDir rdbFile loadmodule, true⟩]) := by
  refine hp.answered (fun w w' hw ha ↦ ?_) (stable_of_closed Host.closed_onlyHas)
  obtain ⟨hoff, hfile⟩ := hw
  obtain ⟨pid, -, rfl⟩ := ha
  have honly : ∀ pid' server,
      (w.setProcess pid (some ⟨true, .redis ⟨w.file rdbDir rdbFile, []⟩⟩)).Runs pid' server →
      pid' = pid ∧ server = ⟨snapshot, []⟩ := by
    intro pid' server hr
    by_cases hpid : pid' = pid
    · rw [hpid] at hr
      obtain ⟨child, hchild⟩ := Host.runs_setProcess_self.1 hr
      cases hchild
      exact ⟨hpid, by rw [hfile]⟩
    · exact absurd ((Host.runs_setProcess_of_ne hpid).1 hr) (hoff pid' server)
  refine ⟨fun pid₁ pid₂ server₁ server₂ h₁ h₂ ↦ ?_, fun pid' server hr ↦ (honly pid' server hr).2⟩
  exact (honly pid₁ server₁ h₁).1.trans (honly pid₂ server₂ h₂).1.symm

/-- **`restore_snapshot`**: no server runs when the next one is started, and the one that runs
afterwards has loaded the snapshot and was asked for nothing yet. -/
theorem orderly_restoreSnapshot {turns : ℕ} (hone : (host snapshot).Certain Host.AtMostOne h) :
    Orderly snapshot (fun _ ↦ (host snapshot).Certain (Host.OnlyHas snapshot []))
      (restoreSnapshot turns) h := by
  refine meets_seq (orderly_getRedisPid hone) fun pid h₁ hpid₁ ↦ ?_
  obtain ⟨hpid, hp₁⟩ := hpid₁
  have hone : ∀ w : Host Data, w.OnlyAt pid → w.AtMostOne := fun w ↦ Host.OnlyAt.atMostOne
  refine meets_seq (orderly_configGet Host.closed_onlyAt hone hp₁) fun rdbDir h₂ hp₂ ↦ ?_
  refine meets_seq (orderly_configGet Host.closed_onlyAt hone hp₂) fun rdbFile h₃ hp₃ ↦ ?_
  refine meets_ask.2 ⟨hp₃.mono fun w hw ↦ ⟨hone w hw, trivial⟩, fun copied ↦ ?_⟩
  have hp₄ := certain_copySnapshot rdbDir rdbFile copied hp₃
  have honly : ∀ w : Host Data, w.Stopping pid rdbDir rdbFile snapshot → w.OnlyAt pid :=
    fun w hw ↦ hw.1
  refine meets_seq (R := fun _ ↦ (host snapshot).Certain
    (Host.Stopping pid rdbDir rdbFile snapshot)) (meets_require.2 ?_) fun _ h₅ hp₅ ↦ ?_
  · split_ifs with hok
    · exact hp₄.mono fun w hw ↦ ⟨hw.1, hw.2 hok⟩
    · exact hp₄.mono fun w hw ↦ hone w hw.1
  refine meets_ask.2 ⟨hp₅.mono fun w hw ↦ ⟨hone w hw.1, trivial⟩, fun shutdown ↦ ?_⟩
  have hp₆ := certain_quiet (c := .shutdown) Host.closed_stopping trivial hp₅ shutdown
  refine meets_seq (R := fun _ ↦ (host snapshot).Certain
    (Host.Stopping pid rdbDir rdbFile snapshot)) (meets_require.2 ?_) fun _ h₇ hp₇ ↦ ?_
  · split_ifs
    · exact hp₆
    · exact hp₆.mono fun w hw ↦ hone w hw.1
  refine meets_seq (orderly_waitForRedisExit Host.closed_stopping honly hpid hp₇) fun _ h₈ hp₈ ↦ ?_
  have hstopped : (host snapshot).Certain (Host.Stopped rdbDir rdbFile snapshot) h₈ :=
    hp₈.mono fun w hw ↦ ⟨hw.2, hw.1.2⟩
  refine meets_ask.2 ⟨hstopped.mono fun w hw ↦ ⟨hw.1.atMostOne, trivial⟩, fun loadmodule ↦ ?_⟩
  have hp₉ := certain_quiet (c := .moduleExists) Host.closed_stopped trivial hstopped loadmodule
  refine meets_ask.2 ⟨hp₉.mono fun w hw ↦ ⟨hw.1.atMostOne, hw⟩, fun started ↦ ?_⟩
  refine meets_seq (R := fun _ ↦ (host snapshot).Certain (Host.OnlyHas snapshot []))
    (meets_require.2 ?_) fun _ h' hp' ↦
      orderly_waitForRedis Host.closed_onlyHas (fun w hw ↦ hw.1) hp'
  cases started with
  | true => exact certain_startRedis hp₉
  | false =>
    refine hp₉.answered (fun w w' hw ha ↦ ?_) (stable_of_closed Host.closed_atMostOne)
    obtain rfl : w' = w := ha
    exact hw.1.atMostOne

end Certain

end Lifecycle

end Replay
