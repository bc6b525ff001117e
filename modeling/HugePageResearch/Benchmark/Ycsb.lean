import HugePageResearch.Benchmark.YcsbKeys
import HugePageResearch.Library.Script

/-!
# The phases of a YCSB benchmark

`run` of `RedisBenchmark`, `MemcachedBenchmark` and `MongoDbBenchmark`: start the server, wait until
it answers, then alternate between loading records with YCSB and running a workload against them.
The workload is started and left alone; the next turn waits for it first.

`insert_start` and `record_count` are computed turn by turn. `Ready` is what they are for: when a
workload over `n` records starts, the loads before it have inserted the records `0` to `n - 1`, each
exactly once, no other workload is going on, and nothing before it has failed.

What `run` passes on to YCSB besides the two numbers is not part of a call.
-/

namespace Benchmark

open Script

/-! ### Calls -/

/-- What the three benchmarks do outside. -/
inductive Cmd where
  /-- `dump.exists()`. -/
  | dumpExists
  /-- `shutil.move(dump, dump.with_suffix(".rdb.bak"))`. -/
  | moveDump
  /-- `redis-cli SHUTDOWN NOSAVE`, with a time limit. -/
  | shutdown
  /-- `vaptr_so.exists()`. -/
  | moduleExists
  /-- `self.server = subprocess.Popen(...)`, with or without `--loadmodule`. -/
  | startServer (loadModule : Bool)
  /-- One attempt to reach the server. -/
  | ping
  /-- The deletion of the record that the attempt to reach memcached left. -/
  | deleteFoo
  /-- `time.sleep`. -/
  | sleep (seconds : ℚ)
  /-- `ycsb load`, until it ends. -/
  | load (insertStart recordCount : ℤ)
  /-- `redis-cli MEMORY PURGE`. -/
  | purge
  /-- `redis-cli DBSIZE`. -/
  | dbsize
  /-- `process = subprocess.Popen(["ycsb", "run", ...])`. -/
  | spawnRun (recordCount : ℤ)
  /-- `process.wait()`. -/
  | waitRun
  /-- `self.process = process`. -/
  | setProcess
  /-- `self.process.poll()`. -/
  | pollRun
  /-- `self.process.terminate()`. -/
  | terminateRun
  /-- `self.server.send_signal(signal.SIGINT)`. -/
  | sigint
  /-- `self.server.wait(10)`. -/
  | waitServer
  /-- Drop every database but `admin`. -/
  | dropDatabases
  /-- `self.server.terminate()`. -/
  | terminateServer
  /-- `self.server = None`. -/
  | clearServer
  deriving DecidableEq

/-- What comes back: whether something is there or went well in time, or a return code. -/
abbrev Ans : Cmd → Type
  | .dumpExists => Bool
  | .moduleExists => Bool
  | .shutdown => Bool
  | .ping => ℤ
  | .deleteFoo => ℤ
  | .load _ _ => ℤ
  | .purge => ℤ
  | .waitRun => ℤ
  | .pollRun => Option ℤ
  | .waitServer => Bool
  | .dropDatabases => Bool
  | _ => Unit

/-- The exceptions of the methods. -/
inductive BenchmarkException where
  /-- `BenchmarkRunningError`. -/
  | running
  /-- `BenchmarkNotRunningError`. -/
  | notRunning
  /-- `BenchmarkError`. -/
  | error (message : PyStr)
  /-- `subprocess.TimeoutExpired`. -/
  | timeoutExpired
  /-- A `PyMongoError`. -/
  | mongoError
  deriving DecidableEq

/-- A part of a method. -/
abbrev Action (α : Type) := Script Cmd Ans BenchmarkException α

/-- What has happened. -/
abbrev Log := Script.History Cmd Ans

/-! ### What a history says -/

/-- The numbers that a load inserts where it ends well. -/
def keyRange (insertStart recordCount : ℤ) : List ℤ :=
  (List.range recordCount.toNat).map fun j : ℕ ↦ insertStart + j

/-- The records that a call has inserted. -/
def keysOf : Script.Event Cmd Ans → List ℤ
  | ⟨.load insertStart recordCount, returncode⟩ =>
    if returncode = (0 : ℤ) then keyRange insertStart recordCount else []
  | _ => []

/-- The records inserted so far, in order. -/
def keys (h : Log) : List ℤ := h.flatMap keysOf

/-- A workload is going on after an event, given whether one was before. -/
def stillRunning (before : Bool) : Script.Event Cmd Ans → Bool
  | ⟨.spawnRun _, _⟩ => true
  | ⟨.waitRun, _⟩ => false
  | _ => before

/-- A workload was started and nobody has waited for it. -/
def workloadRunning (h : Log) : Bool := h.foldl stillRunning false

/-- A load, a purge or a workload that someone waited for ended well. -/
def EndedWell : Script.Event Cmd Ans → Prop
  | ⟨.load _ _, returncode⟩ => returncode = (0 : ℤ)
  | ⟨.purge, returncode⟩ => returncode = (0 : ℤ)
  | ⟨.waitRun, returncode⟩ => returncode = (0 : ℤ)
  | _ => True

/-- Nothing has failed so far. -/
def NoFailure (h : Log) : Prop := ∀ e ∈ h, EndedWell e

variable {h : Log} {e : Script.Event Cmd Ans}

@[simp] theorem keys_concat : keys (h ++ [e]) = keys h ++ keysOf e := by
  rw [keys, List.flatMap_append, List.flatMap_singleton]
  rfl

@[simp] theorem workloadRunning_concat :
    workloadRunning (h ++ [e]) = stillRunning (workloadRunning h) e := by
  rw [workloadRunning, List.foldl_concat]
  rfl

@[simp] theorem noFailure_concat : NoFailure (h ++ [e]) ↔ NoFailure h ∧ EndedWell e := by
  rw [NoFailure, List.forall_mem_append, List.forall_mem_singleton]
  rfl

/-- **What a workload over `recordCount` records needs.** -/
structure Ready (h : Log) (recordCount : ℤ) : Prop where
  /-- The records `0` to `recordCount - 1` were inserted, each once, and no other. -/
  keys_eq : keys h = keyRange 0 recordCount
  /-- There is no other workload. -/
  idle : workloadRunning h = false
  /-- Nothing has failed. -/
  noFailure : NoFailure h

/-- **Consecutive ranges**: the next load inserts where the ones before it ended. -/
theorem keyRange_append (n : ℕ) (recordCount : ℤ) :
    keyRange 0 (n * recordCount) ++ keyRange (n * recordCount) recordCount =
      keyRange 0 ((n + 1 : ℕ) * recordCount) := by
  rcases Int.le_total recordCount 0 with hneg | hpos
  · -- such a count inserts nothing at all
    have hnil : ∀ (m : ℕ) (start : ℤ), keyRange start (m * recordCount) = [] := by
      intro m start
      have hle : (m : ℤ) * recordCount ≤ 0 :=
        Int.mul_nonpos_of_nonneg_of_nonpos (Int.natCast_nonneg m) hneg
      rw [keyRange, Int.toNat_of_nonpos hle]
      rfl
    have hone := hnil 1 (n * recordCount)
    rw [Nat.cast_one, one_mul] at hone
    rw [hnil, hone, hnil]
    rfl
  · obtain ⟨r, rfl⟩ := Int.eq_ofNat_of_zero_le hpos
    have hcast : ∀ m : ℕ, ((m : ℤ) * r).toNat = m * r := fun m ↦ by
      rw [← Int.natCast_mul, Int.toNat_natCast]
    rw [keyRange, keyRange, keyRange, hcast, hcast, Int.toNat_natCast, Nat.succ_mul,
      List.range_add, List.map_append, List.map_map]
    refine congrArg _ (List.map_congr_left fun j _ ↦ ?_)
    show (n : ℤ) * r + j = 0 + ((n * r + j : ℕ) : ℤ)
    rw [Int.zero_add, Int.natCast_add, Int.natCast_mul]

/-! ### The server -/

/-- The fields of the three configurations that decide what is called. -/
structure YcsbConfig where
  /-- `repeat`. -/
  repeats : ℤ
  /-- `record_count`. -/
  recordCount : ℤ
  /-- `sleep`. -/
  sleep : Option PyStr
  /-- `server_sleep`. -/
  serverSleep : Option PyStr

/-- `RedisConfig`. -/
structure RedisConfig extends YcsbConfig where
  /-- `outer_repeat`. -/
  outerRepeat : ℤ
  /-- `load_from_rdb`. -/
  loadFromRdb : Bool
  /-- `explicit_purge`. -/
  explicitPurge : Bool
  /-- `insert_order`. -/
  insertOrder : InsertOrder
  /-- `zero_padding`. -/
  zeroPadding : ℤ
  /-- `vaptr_num_keys`. -/
  vaptrNumKeys : ℤ

/-- The attributes `self.process` and `self.server`, by whether they are set. -/
structure Attributes where
  /-- `self.process is not None`. -/
  process : Bool
  /-- `self.server is not None`. -/
  server : Bool

/-- The checks at the beginning of `run`. -/
def requireStopped (self : Attributes) : Action Unit := do
  require (!self.process) .running
  require (!self.server) .running

/-- `while i < 10 and ping.returncode != 0`, with the number of attempts that are left. -/
def pingAgain : ℕ → ℤ → Action ℤ
  | 0, returncode => pure returncode
  | left + 1, returncode =>
    if returncode = 0 then pure returncode else do
      tell (.sleep 1)
      let returncode ← ask .ping
      pingAgain left returncode

/-- Ping until the server answers, or raise. -/
def awaitServer (message : PyStr) : Action Unit := do
  let returncode ← ask .ping
  let returncode ← pingAgain 10 returncode
  require (returncode = 0) (.error message)

/-- `if space is not None: time.sleep(space)`. -/
def sleepFor : Option ℚ → Action Unit
  | none => pure ()
  | some space => tell (.sleep space)

/-- `purge_server`. -/
def purgeServer : Action Unit := do
  let returncode ← ask .purge
  require (returncode = 0) (.error "Redis Failed To Start".toList)

section Run

variable (timeparse : PyStr → Option ℚ)

/-- `if process is not None`: wait for the workload of the turn before, and raise if it failed. -/
def finishRun (purge : Bool) (sleep : Option PyStr) (message : PyStr) (process : Bool) :
    Action Unit :=
  .when process do
    let returncode ← ask .waitRun
    .when purge purgeServer
    sleepFor (sleep.bind timeparse)
    .when (returncode ≠ 0) do
      tell .setProcess
      .raise (.error message)

/-- Load `recordCount` records. -/
def loadRecords (insertStart recordCount : ℤ) (message : PyStr) : Action Unit := do
  let returncode ← ask (.load insertStart recordCount)
  require (returncode = 0) (.error message)

/-- One turn of the inner loop of `RedisBenchmark.run`; it returns `process`. -/
def redisTurn (config : RedisConfig) (outI i : ℕ) (process : Bool) : Action Bool := do
  finishRun timeparse config.explicitPurge config.sleep
    ("Redis Run ".toList ++ PyStr.ofInt (2 * i - 1) ++ " Failed".toList) process
  let insertStart := outI * config.recordCount
  .when (i = 0) do
    loadRecords insertStart config.recordCount "Loading Redis Failing".toList
    .when config.explicitPurge purgeServer
  tell .dbsize
  let recordCount := (outI + 1 : ℕ) * config.recordCount
  tell (.spawnRun recordCount)
  pure true

/-- One turn of the loop of the other two benchmarks; it returns `process`. -/
def serialTurn (config : YcsbConfig) (runFailed : ℕ → PyStr) (loadFailed : PyStr) (i : ℕ)
    (process : Bool) : Action Bool := do
  finishRun timeparse false config.sleep (runFailed i) process
  let insertStart := i * config.recordCount
  loadRecords insertStart config.recordCount loadFailed
  let recordCount := (i + 1 : ℕ) * config.recordCount
  tell (.spawnRun recordCount)
  pure true

/-- The three benchmarks, with their configurations. -/
inductive Service where
  /-- `RedisBenchmark`. -/
  | redis (config : RedisConfig)
  /-- `MemcachedBenchmark`. -/
  | memcached (config : YcsbConfig)
  /-- `MongoDbBenchmark`. -/
  | mongodb (config : YcsbConfig)

namespace Service

/-- `self.config`. -/
def config : Service → YcsbConfig
  | redis config => config.toYcsbConfig
  | memcached config => config
  | mongodb config => config

/-- `run` up to the server that answers. -/
def start : Service → Action Unit
  | redis config => do
    .when (!config.loadFromRdb) do
      let there ← ask .dumpExists
      .when there (tell .moveDump)
    let inTime ← ask .shutdown
    require inTime .timeoutExpired
    tell (.sleep 1)
    let vaptrSo ← ask .moduleExists
    tell (.startServer vaptrSo)
    tell (.sleep 1)
    awaitServer "Redis Failed To Start".toList
  | memcached _ => do
    tell (.startServer false)
    awaitServer "Memcached Failed To Start".toList
    let returncode ← ask .deleteFoo
    require (returncode = 0) (.error "Delete Single Memcached Record Failing".toList)
  | mongodb _ => do
    tell (.startServer false)
    awaitServer "MongoDB Failed To Start".toList

/-- The loops of `run`; they return `process`. The message of a failed workload on memcached is not
an f-string. -/
def loops : Service → Action Bool
  | redis config =>
    .forRange (fun outI process ↦
      .forRange (redisTurn timeparse config outI) config.repeats.toNat process)
        config.outerRepeat.toNat false
  | memcached config =>
    .forRange (serialTurn timeparse config (fun _ ↦ "Memcached Run \x7bi\x7d Failed".toList)
      "Load Memcached Failing".toList) config.repeats.toNat false
  | mongodb config =>
    .forRange (serialTurn timeparse config
      (fun i ↦ "MongoDB Run ".toList ++ PyStr.ofInt i ++ " Failed".toList)
      "Loading MongoDB Failed".toList) config.repeats.toNat false

/-- `run`. -/
def run (service : Service) (self : Attributes) : Action Unit := do
  requireStopped self
  service.start
  sleepFor (service.config.serverSleep.bind timeparse)
  let process ← service.loops timeparse
  .when process (tell .setProcess)

end Service

end Run

/-- `vaptr_key_names`. -/
def vaptrKeyNames (config : RedisConfig) (count : Option ℤ) : List PyStr :=
  let count := count.getD config.vaptrNumKeys
  if count ≤ 0 then []
  else
    let maxKeys := min count config.recordCount
    (List.range maxKeys.toNat).map fun keynum : ℕ ↦
      buildYcsbKeyName config.insertOrder config.zeroPadding keynum

end Benchmark
