import HugePageResearch.Library.Script
import HugePageResearch.Python.Text
import Mathlib.Data.Rat.Defs

/-!
# The experiments on a remote host

`benchmark/zswap/remote_runner.py`: eleven series of trials of a benchmark on a remote host, each
under its own parameters of zswap. What belongs to the kernel's command line is written to the
configuration of GRUB and needs a reboot; the limits of the cgroup are lost in one and have to be
set again; a trial runs in a session of its own on the host and leaves a flag when it is done.

The host, the network and the clock may answer in any way. A command is told apart by what it does,
and not by its text. Python's waiting loops have no bound on their turns; here `turns` is one, and a
loop that has used it up is cut off with `waiting`.
-/

namespace Zswap

namespace Remote

open Script

/-! ### Calls -/

/-- The commands for the remote host. -/
inductive Command where
  /-- `rm -rf results && mkdir -p results`. -/
  | resetResults
  /-- `chmod +x ~/setup.sh`. -/
  | chmodSetup
  /-- `sudo reboot`. -/
  | reboot
  /-- `rm -f /tmp/experiment_complete /tmp/experiment_error`. -/
  | removeFlags
  /-- `mkdir -p results/{exp_name}/run_{run_number}`. -/
  | makeResultDir (expName : PyStr) (runNumber : ℕ)
  /-- `tmux new-session -d -s experiment ...`, which touches one of the flags in the end. -/
  | startExperiment (expName : PyStr) (runNumber : ℕ)
  /-- Print whether `/tmp/experiment_complete` is there. -/
  | testComplete
  /-- Print whether `/tmp/experiment_error` is there. -/
  | testError
  /-- `tmux kill-session -t experiment`. -/
  | killSession
  /-- Copy `/etc/default/grub`. -/
  | copyGrub
  /-- Write `GRUB_CMDLINE_LINUX_DEFAULT`. -/
  | editGrub (cmdline : PyStr)
  /-- `sudo update-grub`. -/
  | updateGrub
  /-- Print whether the cgroup is there. -/
  | testGroup
  /-- `sudo mkdir -p /sys/fs/cgroup/benchmark_group`. -/
  | makeGroup
  /-- Write `memory.max`. -/
  | setMemoryMax (memoryMax : PyStr)
  /-- Write `memory.swap.max`. -/
  | setSwapMax (swapMax : PyStr)
  /-- Write 0 to `memory.zswap.writeback`. -/
  | writebackOff
  /-- Add a module to the initramfs. -/
  | insertModule (module : PyStr)
  deriving DecidableEq

/-- What comes back from a command. -/
structure Reply where
  exitCode : ℤ
  stdout : PyStr

/-- What the runner does outside. -/
inductive Cmd where
  /-- `os.path.exists(self.ssh_key)`. -/
  | keyExists
  /-- `self.ssh.get_transport()` is active. -/
  | transportActive
  /-- `self.ssh = paramiko.SSHClient()` and its connection. -/
  | connect
  /-- `self.ssh.exec_command` until the command ends. -/
  | exec (command : Command)
  /-- `self.ssh.close()`. -/
  | close
  /-- `echo` over a connection of its own. -/
  | freshEcho
  /-- `time.sleep`. -/
  | sleep (seconds : ℚ)
  /-- `time.time()`. -/
  | time
  /-- `os.path.exists(local_setup_path)`. -/
  | setupExists
  /-- `rsync` of `setup.sh` to the host. -/
  | rsyncSetup
  /-- `os.makedirs` for the results. -/
  | makedirs (expName : PyStr) (runNumber : ℕ)
  /-- `rsync` of the results from the host. -/
  | rsyncResults (expName : PyStr) (runNumber : ℕ)

/-- What comes back: whether it is there or went well, and `none` for an exception of the client. -/
abbrev Ans : Cmd → Type
  | .keyExists => Bool
  | .transportActive => Bool
  | .connect => Bool
  | .exec _ => Option Reply
  | .freshEcho => Option ℤ
  | .time => ℚ
  | .setupExists => Bool
  | .rsyncSetup => Bool
  | .makedirs _ _ => Bool
  | .rsyncResults _ _ => Bool
  | _ => Unit

/-- How the runner ends before its time. -/
inductive Failure where
  /-- `Exception(message)`. -/
  | exception (message : PyStr)
  /-- An exception of a library. -/
  | outside
  /-- `sys.exit`. -/
  | systemExit (code : ℤ)
  /-- A loop that waits is cut off. -/
  | waiting
  deriving DecidableEq

/-- A part of the runner. -/
abbrev Action (α : Type) := Script Cmd Ans Failure α

/-- What has happened. -/
abbrev Log := History Cmd Ans

/-! ### The connection -/

/-- `connect`, where `ssh` tells whether `self.ssh` is set. It is set in any case afterwards. -/
def connect (ssh : Bool) : Action Bool := do
  let active ← (if ssh then ask Cmd.transportActive else pure false : Action Bool)
  if active then pure true else ask Cmd.connect

/-- `execute_command`. -/
def executeCommand (ssh : Bool) (command : Command) (ignoreErrors : Bool) : Action Reply := do
  let connected ← connect ssh
  if !connected then
    if ignoreErrors then pure ⟨-1, []⟩
    else .raise (.exception "Failed to connect to remote host".toList)
  else do
    match ← (ask (Cmd.exec command) : Action (Option Reply)) with
    | none => .raise .outside
    | some reply => do
      require (reply.exitCode = 0 || ignoreErrors) (.exception
        ("Remote command failed with exit code ".toList ++ PyStr.ofInt reply.exitCode))
      pure reply

/-- `for cmd in commands: self.execute_command(cmd)`. -/
def executeAll : Bool → List Command → Action Unit
  | _, [] => pure ()
  | ssh, command :: commands => do
    let _ ← executeCommand ssh command false
    executeAll true commands

/-- `check_ssh`. -/
def checkSsh (ssh : Bool) : Action Bool := do
  let active ← (if ssh then ask Cmd.transportActive else pure false : Action Bool)
  .when active (tell Cmd.close)
  let exitCode ← (ask Cmd.freshEcho : Action (Option ℤ))
  pure (decide (exitCode = some 0))

/-! ### A reboot -/

/-- `self.ssh_timeout`. -/
def sshTimeout : ℚ := 300

/-- `self.exp_timeout`. -/
def expTimeout : ℚ := 5400

/-- `while retries < max_retries`, with the number of retries that are left. -/
def awaitDown : ℕ → Action Unit
  | 0 => pure ()
  | left + 1 => do
    let up ← checkSsh false
    if !up then pure () else do
      tell (Cmd.sleep 1)
      awaitDown left

/-- Wait until the host can be reached, since the time `start`. -/
def awaitUp (start : ℚ) : ℕ → Action Unit
  | 0 => .raise .waiting
  | turns + 1 => do
    let up ← checkSsh false
    if up then pure () else do
      let now ← (ask Cmd.time : Action ℚ)
      if now - start > sshTimeout then .raise (.systemExit 1) else do
        tell (Cmd.sleep 5)
        awaitUp start turns

variable (turns : ℕ)

/-- `reboot_and_wait`. `self.ssh` is `None` afterwards. -/
def rebootAndWait (ssh : Bool) : Action Unit := do
  let _ ← (attempt (executeCommand ssh .reboot true) : Action (Except Failure Reply))
  tell Cmd.close
  tell (Cmd.sleep 5)
  awaitDown 30
  let start ← (ask Cmd.time : Action ℚ)
  awaitUp start turns
  tell (Cmd.sleep 30)

/-! ### One trial -/

/-- `setup_experiments`, the first thing that is done. -/
def setupExperiments : Action Unit := do
  let _ ← executeCommand false .resetResults false
  let found ← (ask Cmd.setupExists : Action Bool)
  require found (.systemExit 1)
  let copied ← (ask Cmd.rsyncSetup : Action Bool)
  require copied (.systemExit 1)
  let _ ← executeCommand true .chmodSetup false
  pure ()

/-- `configure_grub`. -/
def configureGrub (ssh : Bool) (cmdline : PyStr) : Action Unit :=
  if cmdline = [] then pure ()
  else executeAll ssh [.copyGrub, .editGrub cmdline, .updateGrub]

/-- `insert_module`. -/
def insertModule (ssh : Bool) (module : PyStr) : Action Unit :=
  if module = [] then pure () else executeAll ssh [.insertModule module]

/-- `configure_cgroup_memory`, with both limits. -/
def configureCgroupMemory (ssh : Bool) (memoryMax swapMax : PyStr) : Action Unit := do
  let reply ← executeCommand ssh .testGroup true
  .when (PyStr.strip reply.stdout = "not_exists".toList) do
    let _ ← executeCommand true .makeGroup false
    pure ()
  executeAll true [.setMemoryMax memoryMax, .setSwapMax swapMax]

/-- The loop of `run_experiment`, since the time `start`. -/
def awaitExperiment (start : ℚ) : ℕ → Action Bool
  | 0 => .raise .waiting
  | turns + 1 => do
    let reply ← executeCommand true .testComplete true
    if PyStr.strip reply.stdout = "complete".toList then do
      let _ ← executeCommand true .killSession true
      pure true
    else do
      let reply ← executeCommand true .testError true
      if PyStr.strip reply.stdout = "error".toList then do
        let _ ← executeCommand true .killSession true
        pure false
      else do
        let now ← (ask Cmd.time : Action ℚ)
        if now - start > expTimeout then do
          let _ ← executeCommand true .killSession true
          pure false
        else do
          tell (Cmd.sleep 60)
          awaitExperiment start turns

/-- `run_experiment`. -/
def runExperiment (ssh : Bool) (expName : PyStr) (runNumber : ℕ) : Action Bool := do
  executeAll ssh [.removeFlags, .makeResultDir expName runNumber,
    .startExperiment expName runNumber]
  let start ← (ask Cmd.time : Action ℚ)
  awaitExperiment start turns

/-- `sync_results`. -/
def syncResults (expName : PyStr) (runNumber : ℕ) : Action Unit := do
  let made ← (ask (Cmd.makedirs expName runNumber) : Action Bool)
  require made .outside
  let copied ← (ask (Cmd.rsyncResults expName runNumber) : Action Bool)
  require copied .outside

/-! ### The series -/

/-- What the turns of all series have in common, from the limits of the cgroup on: with the commands
that are executed between these and the trial. -/
def runTrial (ssh : Bool) (memoryMax swapMax : PyStr) (extra : List Command) (expName : PyStr)
    (i : ℕ) : Action Unit := do
  configureCgroupMemory ssh memoryMax swapMax
  executeAll true extra
  let ok ← runExperiment turns true expName i
  require ok (.systemExit 1)
  syncResults expName i

/-- A turn of the series in which there is a reboot after each of the `n` trials but the last. -/
def separatedTurn (n : ℕ) (memoryMax swapMax : PyStr) (extra : List Command) (expName : PyStr)
    (i : ℕ) (ssh : Bool) : Action Bool := do
  runTrial turns ssh memoryMax swapMax extra expName i
  if i < n then do
    rebootAndWait turns true
    pure false
  else pure true

/-- `run_experiment_a`. -/
def runExperimentA : Bool → Action Bool :=
  forEach (separatedTurn turns 10 "4G".toList "6G".toList [] "experiment_a".toList)
    (List.range' 1 10)

/-- `run_experiment_b`. -/
def runExperimentB : Bool → Action Bool :=
  forEach (fun mem ↦ forEach (fun j ssh ↦ do
    runTrial turns ssh mem mem [] ("experiment_b_memory_".toList ++ mem) j
    rebootAndWait turns true
    pure false) (List.range' 1 5)) ["2G".toList, "3G".toList, "5G".toList, "6G".toList]

/-- The part of the other series about one command line: write it, and run five trials, each after a
reboot. -/
def configuredTrials (cmdline expName : PyStr) (ssh : Bool) : Action Bool := do
  configureGrub ssh cmdline
  tell (Cmd.sleep 10)
  forEach (fun j ssh ↦ do
    rebootAndWait turns ssh
    runTrial turns false "4G".toList "6G".toList [] expName j
    pure true) (List.range' 1 5) true

/-- The command line of `run_experiment_c`. -/
def thresholdCmdline (threshold : ℤ) : PyStr :=
  "zswap.enabled=1 zswap.accept_threshold_percent=".toList ++ PyStr.ofInt threshold

/-- `run_experiment_c`. -/
def runExperimentC : Bool → Action Bool :=
  forEach (fun threshold ↦ configuredTrials turns (thresholdCmdline threshold)
    ("experiment_c_accept_threshold_".toList ++ PyStr.ofInt threshold)) [60, 70, 80, 100]

/-- The command line of `run_experiment_d`. -/
def poolPercentCmdline (pool : ℤ) : PyStr :=
  "zswap.enabled=1 zswap.max_pool_percent=".toList ++ PyStr.ofInt pool

/-- `run_experiment_d`. -/
def runExperimentD : Bool → Action Bool :=
  forEach (fun pool ↦ configuredTrials turns (poolPercentCmdline pool)
    ("experiment_d_max_pool_percent_".toList ++ PyStr.ofInt pool)) [5, 10, 40, 60, 100]

/-- The command line of `run_experiment_e`. -/
def compressorCmdline (comp : PyStr) : PyStr :=
  "zswap.enabled=1 zswap.compressor=".toList ++ comp

/-- `run_experiment_e`. -/
def runExperimentE : Bool → Action Bool :=
  forEach (fun comp ssh ↦ do
    insertModule ssh comp
    configuredTrials turns (compressorCmdline comp) ("experiment_e_compressor_".toList ++ comp)
      true) ["deflate".toList, "842".toList, "lz4".toList, "lz4hc".toList, "zstd".toList]

/-- The command line of `run_experiment_f`. -/
def zpoolCmdline (pool : PyStr) : PyStr := "zswap.enabled=1 zswap.zpool=".toList ++ pool

/-- `run_experiment_f`. -/
def runExperimentF : Bool → Action Bool :=
  forEach (fun pool ssh ↦ do
    insertModule ssh pool
    configuredTrials turns (zpoolCmdline pool) ("experiment_f_zpool_".toList ++ pool) true)
    ["z3fold".toList, "zsmalloc".toList]

/-- `run_experiment_g`. -/
def runExperimentG : Bool → Action Bool :=
  configuredTrials turns "zswap.enabled=1 zswap.exclusive_loads=Y".toList
    "experiment_g_exclusive_loads_on".toList

/-- `run_experiment_h`. -/
def runExperimentH : Bool → Action Bool :=
  configuredTrials turns "zswap.enabled=1 zswap.non_same_filled_pages_enabled=N".toList
    "experiment_h_non_same_filled_pages_off".toList

/-- `run_experiment_i`. -/
def runExperimentI : Bool → Action Bool :=
  configuredTrials turns "zswap.enabled=1 zswap.same_filled_pages_enabled=N".toList
    "experiment_i_same_filled_pages_off".toList

/-- `run_experiment_j`. -/
def runExperimentJ : Bool → Action Bool :=
  configuredTrials turns "zswap.enabled=1 zswap.shrinker_enabled=N".toList
    "experiment_j_shrinker_off".toList

/-- `run_experiment_k`. -/
def runExperimentK : Bool → Action Bool :=
  forEach (separatedTurn turns 5 "4G".toList "6G".toList [.writebackOff]
    "experiment_k_cgroup_writeback_off".toList) (List.range' 1 5)

/-- The argument `experiment`. -/
inductive Experiment where
  | a | b | c | d | e | f | g | h | i | j | k
  deriving DecidableEq

/-- `experiment_functions`. -/
def Experiment.function : Experiment → Bool → Action Bool
  | a => runExperimentA turns
  | b => runExperimentB turns
  | c => runExperimentC turns
  | d => runExperimentD turns
  | e => runExperimentE turns
  | f => runExperimentF turns
  | g => runExperimentG turns
  | h => runExperimentH turns
  | i => runExperimentI turns
  | j => runExperimentJ turns
  | k => runExperimentK turns

/-- `main`. -/
def main (experiment : Experiment) : Action Unit := do
  let found ← (ask Cmd.keyExists : Action Bool)
  require found (.systemExit 1)
  setupExperiments
  let _ ← experiment.function turns true
  pure ()

end Remote

end Zswap
