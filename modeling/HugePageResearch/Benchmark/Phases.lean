import HugePageResearch.Benchmark.Ycsb

/-!
# Every workload finds its records

Whatever the outside answers, `run` of the three benchmarks starts a workload over `n` records only
where the records `0` to `n - 1` have been inserted, each exactly once, where no other workload is
going on and where nothing has failed; and it loads and purges only between workloads.

The loops keep `Ready` of the number of records loaded so far, together with the local variable
`process`, which tells whether a workload is going on.
-/

namespace Benchmark

open Script

variable {h : Log} {n r : ℤ} {c : Cmd}

/-! ### Parts with few calls -/

section Only

variable {p : Cmd → Prop}

theorem only_sleepFor (hsleep : ∀ seconds, p (.sleep seconds)) (space : Option ℚ) :
    (sleepFor space).Only p := by
  cases space with
  | none => trivial
  | some space => exact only_exec.2 (hsleep space)

theorem only_pingAgain (hping : p .ping) (hsleep : ∀ seconds, p (.sleep seconds)) (left : ℕ)
    (returncode : ℤ) : (pingAgain left returncode).Only p := by
  induction left generalizing returncode with
  | zero => trivial
  | succ left ih =>
    rw [pingAgain]
    split_ifs
    · trivial
    · exact only_tell (hsleep _) (only_ask hping ih)

theorem only_awaitServer (hping : p .ping) (hsleep : ∀ seconds, p (.sleep seconds))
    (message : PyStr) : (awaitServer message).Only p :=
  only_ask hping fun _ ↦ (only_pingAgain hping hsleep 10 _).bind fun _ ↦ only_require _ _

end Only

/-! ### Allowed calls -/

/-- When a call may be made, as far as records and workloads are concerned: loads and purges
between workloads, and a workload over a multiple of `record_count` that is loaded. -/
def PhaseAllowed (recordCount : ℤ) (h : Log) : Cmd → Prop
  | .load _ _ => workloadRunning h = false ∧ NoFailure h
  | .purge => workloadRunning h = false
  | .spawnRun n => Ready h n ∧ ∃ m : ℕ, n = (m + 1 : ℕ) * recordCount
  | _ => True

/-- A call that touches neither records nor workloads. -/
def Cmd.aside : Cmd → Bool
  | .load _ _ => false
  | .purge => false
  | .spawnRun _ => false
  | .waitRun => false
  | _ => true

theorem phaseAllowed_of_aside (hc : c.aside = true) : PhaseAllowed r h c := by
  cases c with
  | load _ _ => cases hc
  | purge => cases hc
  | spawnRun _ => cases hc
  | _ => trivial

/-- Such a call leaves everything as it is. -/
theorem aside_spec {a : Ans c} (hc : c.aside = true) :
    keysOf ⟨c, a⟩ = [] ∧ (∀ b, stillRunning b ⟨c, a⟩ = b) ∧ EndedWell ⟨c, a⟩ := by
  cases c with
  | load _ _ => cases hc
  | purge => cases hc
  | spawnRun _ => cases hc
  | waitRun => cases hc
  | _ => exact ⟨rfl, fun _ ↦ rfl, trivial⟩

/-! ### The loops -/

/-- The records `0` to `n - 1` are loaded and nothing has failed; `process` is the workload that is
going on. -/
structure Loaded (n : ℤ) (process : Bool) (h : Log) : Prop where
  keys_eq : keys h = keyRange 0 n
  running : workloadRunning h = process
  noFailure : NoFailure h

theorem Loaded.ready (hl : Loaded n false h) : Ready h n := ⟨hl.keys_eq, hl.running, hl.noFailure⟩

theorem Loaded.aside {process : Bool} (hl : Loaded n process h) {a : Ans c}
    (hc : c.aside = true) : Loaded n process (h ++ [⟨c, a⟩]) := by
  obtain ⟨hkeys, hrun, hwell⟩ := aside_spec (a := a) hc
  refine ⟨?_, ?_, noFailure_concat.2 ⟨hl.noFailure, hwell⟩⟩
  · rw [keys_concat, hkeys, List.append_nil, hl.keys_eq]
  · rw [workloadRunning_concat, hrun, hl.running]

/-- What the phases demand of a part of `run`: it leads from one stage of the loading to another,
whatever it raises; `r` is `record_count`. -/
abbrev Phase {α : Type} (r : ℤ) (s : Action α) (Q : α → Log → Prop) (h : Log) : Prop :=
  s.Meets (PhaseAllowed r) Q (fun _ _ ↦ True) h

/-- A part that touches neither records nor workloads. -/
theorem phase_of_only {α : Type} {s : Action α} (hs : s.Only fun c ↦ c.aside = true)
    {process : Bool} (hl : Loaded n process h) : Phase r s (fun _ ↦ Loaded n process) h :=
  (hs.meets (fun _ _ hc _ ↦ phaseAllowed_of_aside hc) (fun _ _ _ hc hl ↦ hl.aside hc) hl).mono
    (fun _ _ hl ↦ hl) fun _ _ _ ↦ trivial

/-- A part that does not start a workload and loads nothing: no workload is going on after it. -/
theorem phase_idle_of_only {α : Type} {s : Action α}
    (hs : s.Only fun c ↦ c.aside = true ∨ c = .purge) (hidle : workloadRunning h = false) :
    Phase r s (fun _ h ↦ workloadRunning h = false) h := by
  refine (hs.meets (fun _ c hc hidle ↦ ?_) (fun _ c a hc hidle ↦ ?_) hidle).mono
    (fun _ _ hidle ↦ hidle) fun _ _ _ ↦ trivial
  · rcases hc with hc | rfl
    · exact phaseAllowed_of_aside hc
    · exact hidle
  · rw [workloadRunning_concat]
    rcases hc with hc | rfl
    · rw [(aside_spec hc).2.1, hidle]
    · exact hidle

/-- **A purge** between two workloads. -/
theorem phase_purgeServer (hl : Loaded n false h) :
    Phase r purgeServer (fun _ ↦ Loaded n false) h := by
  refine meets_ask.2 ⟨hl.running, fun returncode ↦ meets_require.2 ?_⟩
  split_ifs with hok
  · have hwell : EndedWell ⟨.purge, returncode⟩ := of_decide_eq_true (p := returncode = (0 : ℤ)) hok
    refine ⟨?_, ?_, noFailure_concat.2 ⟨hl.noFailure, hwell⟩⟩
    · rw [keys_concat, hl.keys_eq]
      exact List.append_nil _
    · rw [workloadRunning_concat, hl.running]
      rfl

theorem phase_when {b : Bool} {s : Action Unit} {Q : Log → Prop}
    (hs : b = true → Phase r s (fun _ ↦ Q) h) (hQ : b = false → Q h) :
    Phase r (when b s) (fun _ ↦ Q) h := by
  cases b with
  | false => exact hQ rfl
  | true => exact hs rfl

/-- **The wait at the beginning of a turn**: after it no workload is going on. -/
theorem phase_finishRun (timeparse : PyStr → Option ℚ) (purge : Bool) (sleep : Option PyStr)
    (message : PyStr) {process : Bool} (hl : Loaded n process h) :
    Phase r (finishRun timeparse purge sleep message process) (fun _ ↦ Loaded n false) h := by
  have hsleep := @only_sleepFor (fun c ↦ c.aside = true) fun _ ↦ rfl
  refine phase_when (fun _ ↦ ?_) fun hprocess ↦ hprocess ▸ hl
  refine meets_ask.2 ⟨trivial, fun returncode ↦ ?_⟩
  have hidle : workloadRunning (h ++ [⟨.waitRun, returncode⟩]) = false := workloadRunning_concat
  by_cases hok : returncode = (0 : ℤ)
  · have hl' : Loaded n false (h ++ [⟨.waitRun, returncode⟩]) := by
      refine ⟨?_, hidle, noFailure_concat.2 ⟨hl.noFailure, hok⟩⟩
      rw [keys_concat, hl.keys_eq]
      exact List.append_nil _
    refine meets_seq (phase_when (fun _ ↦ phase_purgeServer hl') fun _ ↦ hl') fun _ h₁ hl₁ ↦ ?_
    refine meets_seq (phase_of_only (hsleep _) hl₁) fun _ h₂ hl₂ ↦ ?_
    exact phase_when (fun hne ↦ absurd hok (of_decide_eq_true hne)) fun _ ↦ hl₂
  · -- the workload failed: what is left raises
    refine meets_seq (R := fun _ h ↦ workloadRunning h = false)
      (phase_when (fun _ ↦ phase_idle_of_only ?_ hidle) fun _ ↦ hidle) fun _ h₁ hidle₁ ↦ ?_
    · exact ⟨.inr rfl, fun _ ↦ only_require _ _⟩
    refine meets_seq (phase_idle_of_only ((hsleep _).mono fun _ ↦ .inl) hidle₁)
      fun _ h₂ _ ↦ ?_
    exact phase_when (fun _ ↦ ⟨trivial, fun _ ↦ trivial⟩) fun hne ↦
      absurd hok (of_decide_eq_false hne)

/-- **A load between two workloads** takes the records one range further. -/
theorem phase_loadRecords {m : ℕ} (message : PyStr) (hl : Loaded (m * r) false h) :
    Phase r (loadRecords (m * r) r message) (fun _ ↦ Loaded ((m + 1 : ℕ) * r) false) h := by
  refine meets_ask.2 ⟨⟨hl.running, hl.noFailure⟩, fun returncode ↦ meets_require.2 ?_⟩
  split_ifs with hok
  · have hzero : returncode = (0 : ℤ) := of_decide_eq_true hok
    refine ⟨?_, ?_, noFailure_concat.2 ⟨hl.noFailure, hzero⟩⟩
    · rw [keys_concat, hl.keys_eq, ← keyRange_append]
      exact congrArg _ (if_pos hzero)
    · rw [workloadRunning_concat, hl.running]
      rfl

/-- **A workload is started** over the records that are loaded. -/
theorem phase_spawnRun {m : ℕ} (hl : Loaded ((m + 1 : ℕ) * r) false h) :
    Phase r (do tell (.spawnRun ((m + 1 : ℕ) * r)); pure true) (Loaded ((m + 1 : ℕ) * r)) h := by
  refine meets_tell.2 ⟨⟨hl.ready, m, rfl⟩, fun a ↦
    ⟨?_, ?_, noFailure_concat.2 ⟨hl.noFailure, trivial⟩⟩⟩
  · rw [keys_concat, hl.keys_eq]
    exact List.append_nil _
  · exact workloadRunning_concat

/-! ### The loops -/

section Loops

variable (timeparse : PyStr → Option ℚ)

/-- **A turn of the loops of `RedisBenchmark.run`.** Only the first turn of the inner loop loads. -/
theorem phase_redisTurn (config : RedisConfig) (outI i : ℕ) {process : Bool}
    (hl : Loaded ((if i = 0 then outI else outI + 1 : ℕ) * config.recordCount) process h) :
    Phase config.recordCount (redisTurn timeparse config outI i process)
      (Loaded ((outI + 1 : ℕ) * config.recordCount)) h := by
  refine meets_seq (phase_finishRun timeparse _ _ _ hl) fun _ h₁ hl₁ ↦ ?_
  refine meets_seq (R := fun _ ↦ Loaded ((outI + 1 : ℕ) * config.recordCount) false) ?_
    fun _ h₂ hl₂ ↦ ?_
  · refine phase_when (fun hfirst ↦ ?_) fun hlater ↦ ?_
    · rw [if_pos (of_decide_eq_true hfirst)] at hl₁
      refine meets_seq (phase_loadRecords _ hl₁) fun _ h₂ hl₂ ↦ ?_
      exact phase_when (fun _ ↦ phase_purgeServer hl₂) fun _ ↦ hl₂
    · rwa [if_neg (of_decide_eq_false hlater)] at hl₁
  · exact meets_tell.2 ⟨trivial, fun _ ↦ phase_spawnRun (hl₂.aside rfl)⟩

/-- **A turn of the loop of the other two benchmarks.** -/
theorem phase_serialTurn (config : YcsbConfig) (runFailed : ℕ → PyStr) (loadFailed : PyStr) (i : ℕ)
    {process : Bool} (hl : Loaded (i * config.recordCount) process h) :
    Phase config.recordCount (serialTurn timeparse config runFailed loadFailed i process)
      (Loaded ((i + 1 : ℕ) * config.recordCount)) h := by
  refine meets_seq (phase_finishRun timeparse _ _ _ hl) fun _ h₁ hl₁ ↦ ?_
  exact meets_seq (phase_loadRecords _ hl₁) fun _ h₂ hl₂ ↦ phase_spawnRun hl₂

/-- **A loop of phases.** -/
theorem phase_forRange {body : ℕ → Bool → Action Bool} {I : ℕ → ℤ} {turns : ℕ}
    (hbody : ∀ i < turns, ∀ process h, Loaded (I i) process h →
      Phase r (body i process) (Loaded (I (i + 1))) h)
    {process : Bool} (hl : Loaded (I 0) process h) :
    Phase r (.forRange body turns process) (Loaded (I turns)) h :=
  meets_forRange (I := fun i ↦ Loaded (I i)) hbody hl

/-- The number of ranges of records that a whole run loads. -/
def Service.ranges : Service → ℕ
  | .redis config => if config.repeats.toNat = 0 then 0 else config.outerRepeat.toNat
  | .memcached config => config.repeats.toNat
  | .mongodb config => config.repeats.toNat

/-- **The loops of the three benchmarks.** -/
theorem phase_loops (service : Service) (hl : Loaded 0 false h) :
    Phase service.config.recordCount (service.loops timeparse)
      (Loaded (service.ranges * service.config.recordCount)) h := by
  have hzero : ∀ r : ℤ, Loaded ((0 : ℕ) * r) false h := fun r ↦ by rwa [Nat.cast_zero, zero_mul]
  cases service with
  | redis config =>
    by_cases hturns : config.repeats.toNat = 0
    · -- the inner loop has no turn
      have hbody : ∀ outI < config.outerRepeat.toNat, ∀ process h, Loaded ((0 : ℕ) *
          config.recordCount) process h → Phase config.recordCount (.forRange
            (redisTurn timeparse config outI) config.repeats.toNat process)
              (Loaded ((0 : ℕ) * config.recordCount)) h := by
        intro outI _ process h₁ hl₁
        rw [hturns]
        exact hl₁
      rw [Service.ranges, if_pos hturns]
      exact phase_forRange (I := fun _ ↦ (0 : ℕ) * config.recordCount) hbody (hzero _)
    · rw [Service.ranges, if_neg hturns]
      refine phase_forRange (I := fun outI ↦ outI * config.recordCount)
        (fun outI _ process h₁ hl₁ ↦ ?_) (hzero _)
      have hinner : Phase config.recordCount (.forRange (redisTurn timeparse config outI)
          config.repeats.toNat process) (Loaded ((if config.repeats.toNat = 0 then outI
            else outI + 1 : ℕ) * config.recordCount)) h₁ :=
        phase_forRange (I := fun i ↦ (if i = 0 then outI else outI + 1 : ℕ) * config.recordCount)
          (fun i _ process h₂ hl₂ ↦ phase_redisTurn timeparse config outI i hl₂) hl₁
      rwa [if_neg hturns] at hinner
  | memcached config =>
    exact phase_forRange (I := fun i ↦ i * config.recordCount)
      (fun i _ process h₁ hl₁ ↦ phase_serialTurn timeparse config _ _ i hl₁) (hzero _)
  | mongodb config =>
    exact phase_forRange (I := fun i ↦ i * config.recordCount)
      (fun i _ process h₁ hl₁ ↦ phase_serialTurn timeparse config _ _ i hl₁) (hzero _)

end Loops

/-! ### Whole runs -/

/-- Starting a server touches neither records nor workloads. -/
theorem Service.only_start (service : Service) : service.start.Only fun c ↦ c.aside = true := by
  have hawait := @only_awaitServer (fun c ↦ c.aside = true) rfl fun _ ↦ rfl
  cases service with
  | redis config =>
    refine Only.bind (Only.when fun _ ↦ only_ask rfl fun there ↦ ?_) fun _ ↦
      only_ask rfl fun inTime ↦ Only.bind (only_require _ _) fun _ ↦ ?_
    · exact Only.when fun _ ↦ ⟨rfl, fun _ ↦ trivial⟩
    · refine only_tell rfl (only_ask rfl fun vaptrSo ↦ ?_)
      exact only_tell rfl (only_tell rfl (hawait _))
  | memcached config =>
    refine only_tell rfl (Only.bind (hawait _) fun _ ↦ ?_)
    exact only_ask rfl fun _ ↦ only_require _ _
  | mongodb config => exact only_tell rfl (hawait _)

/-- **`run` of a new object**: every call is allowed, and where it returns, everything is loaded. -/
theorem phase_run (timeparse : PyStr → Option ℚ) (service : Service) (self : Attributes) :
    Phase service.config.recordCount (service.run timeparse self) (fun _ h ↦ ∃ process,
      Loaded (service.ranges * service.config.recordCount) process h) [] := by
  have hnew : Loaded 0 false [] := ⟨rfl, rfl, fun _ he ↦ absurd he List.not_mem_nil⟩
  have hsleep := @only_sleepFor (fun c ↦ c.aside = true) fun _ ↦ rfl
  have hstopped : (requireStopped self).Only fun c ↦ c.aside = true :=
    (only_require _ _).bind fun _ ↦ only_require _ _
  refine meets_seq (phase_of_only hstopped hnew) fun _ h₁ hl₁ ↦ ?_
  refine meets_seq (phase_of_only service.only_start hl₁) fun _ h₂ hl₂ ↦ ?_
  refine meets_seq (phase_of_only (hsleep _) hl₂) fun _ h₃ hl₃ ↦ ?_
  refine meets_seq (phase_loops timeparse service hl₃) fun process h₄ hl₄ ↦ ?_
  exact phase_when (fun _ ↦ ⟨trivial, fun _ ↦ ⟨process, hl₄.aside rfl⟩⟩) fun _ ↦ ⟨process, hl₄⟩

/-- **Every workload finds its records.** Whatever the outside answers, a workload over `n` records
is started by `run` only when the records `0` to `n - 1` are loaded, each exactly once, while no
other workload is going on and nothing has failed. Loads and purges come between workloads. Where
`run` returns, it has loaded every range, and nothing has failed. -/
theorem run_ready (timeparse : PyStr → Option ℚ) (service : Service) (self : Attributes)
    (env : Env Cmd Ans) :
    (∀ pre e post, ((service.run timeparse self).run env []).1 = pre ++ e :: post →
      (∀ n, e.1 = .spawnRun n → Ready pre n) ∧
      ((∃ insertStart recordCount, e.1 = .load insertStart recordCount) ∨ e.1 = .purge →
        workloadRunning pre = false)) ∧
    (((service.run timeparse self).run env []).2 = .ok () →
      keys ((service.run timeparse self).run env []).1 =
          keyRange 0 (service.ranges * service.config.recordCount) ∧
        NoFailure ((service.run timeparse self).run env []).1) := by
  obtain ⟨hsafe, hok, -⟩ := (phase_run timeparse service self).run safe_nil env
  refine ⟨fun pre e post heq ↦ ⟨fun n hn ↦ ?_, ?_⟩, fun hreturn ↦ ?_⟩
  · have hallowed := hsafe pre e post heq
    rw [hn] at hallowed
    exact hallowed.1
  · have hallowed := hsafe pre e post heq
    rintro (⟨insertStart, recordCount, hload⟩ | hpurge)
    · rw [hload] at hallowed
      exact hallowed.1
    · rwa [hpurge] at hallowed
  · obtain ⟨process, hl⟩ := hok () hreturn
    exact ⟨hl.keys_eq, hl.noFailure⟩

/-! ### The records that are followed -/

theorem mem_keyRange {n k : ℤ} : k ∈ keyRange 0 n ↔ 0 ≤ k ∧ k < n := by
  rw [keyRange, List.mem_map]
  constructor
  · rintro ⟨j, hj, rfl⟩
    have := List.mem_range.1 hj
    omega
  · rintro ⟨hpos, hlt⟩
    exact ⟨k.toNat, List.mem_range.2 (by omega), by omega⟩

/-- **The keys that the hook is told are loaded before the first workload**, and before every other
one: each is the name under which YCSB has stored one of the records. -/
theorem vaptrKeyNames_loaded (timeparse : PyStr → Option ℚ) (config : RedisConfig)
    (hlong : config.recordCount ≤ 2 ^ 63) (self : Attributes) (env : Env Cmd Ans)
    (count : Option ℤ) {name : PyStr} (hname : name ∈ vaptrKeyNames config count) {pre post : Log}
    {n : ℤ} (hspawn : (((Service.redis config).run timeparse self).run env []).1 =
      pre ++ ⟨.spawnRun n, ()⟩ :: post) :
    ∃ keynum ∈ keys pre,
      name = recordName config.insertOrder config.zeroPadding (BitVec.ofInt 64 keynum) := by
  obtain ⟨hsafe, -, -⟩ := (phase_run timeparse (.redis config) self).run safe_nil env
  obtain ⟨hready, m, hm⟩ := hsafe pre _ post hspawn
  rw [vaptrKeyNames] at hname
  split_ifs at hname with hcount
  · exact absurd hname List.not_mem_nil
  obtain ⟨keynum, hkeynum, rfl⟩ := List.mem_map.1 hname
  have hlt : (keynum : ℤ) < config.recordCount := by
    have := List.mem_range.1 hkeynum
    omega
  refine ⟨keynum, ?_, buildYcsbKeyName_eq (by omega) (by omega) _ _⟩
  rw [hready.keys_eq, mem_keyRange, hm]
  refine ⟨Int.natCast_nonneg _, Int.lt_of_lt_of_le hlt ?_⟩
  have hone : 1 * config.recordCount ≤ (m + 1 : ℕ) * config.recordCount :=
    Int.mul_le_mul_of_nonneg_right (by omega) (by omega)
  rwa [one_mul] at hone

/-- Two records in order, one workload, one key to follow. -/
def twoRecords : RedisConfig where
  repeats := 1
  recordCount := 2
  sleep := none
  serverSleep := none
  outerRepeat := 1
  loadFromRdb := true
  explicitPurge := false
  insertOrder := .ordered
  zeroPadding := 1
  vaptrNumKeys := 1

/-- Everything goes well at once. -/
def calmEnv : Env Cmd Ans
  | _, .dumpExists => false
  | _, .moduleExists => false
  | _, .shutdown => true
  | _, .ping => (0 : ℤ)
  | _, .deleteFoo => (0 : ℤ)
  | _, .load _ _ => (0 : ℤ)
  | _, .purge => (0 : ℤ)
  | _, .waitRun => (0 : ℤ)
  | _, .pollRun => none
  | _, .waitServer => true
  | _, .dropDatabases => true
  | _, .moveDump | _, .startServer _ | _, .sleep _ | _, .dbsize | _, .spawnRun _ => ()
  | _, .setProcess | _, .terminateRun | _, .sigint | _, .terminateServer | _, .clearServer => ()

/-- What happens before the workload. -/
def beforeWorkload : Log :=
  [⟨.shutdown, true⟩, ⟨.sleep 1, ()⟩, ⟨.moduleExists, false⟩, ⟨.startServer false, ()⟩,
    ⟨.sleep 1, ()⟩, ⟨.ping, (0 : ℤ)⟩, ⟨.load 0 2, (0 : ℤ)⟩, ⟨.dbsize, ()⟩]

theorem vaptrKeyNames_loaded_twoRecords : ∃ keynum ∈ keys beforeWorkload,
    "user0".toList = recordName .ordered 1 (BitVec.ofInt 64 keynum) :=
  vaptrKeyNames_loaded (fun _ ↦ none) twoRecords (by decide) ⟨false, false⟩ calmEnv none
    (List.mem_singleton_self _) (rfl : _ = beforeWorkload ++ ⟨.spawnRun 2, ()⟩ :: _)

end Benchmark
