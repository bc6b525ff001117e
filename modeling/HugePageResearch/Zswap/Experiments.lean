import HugePageResearch.Zswap.RemoteRunner

/-!
# What the experiments measure

Each series of `benchmark/zswap/remote_runner.py` is a list of trials, each with the parameters that
it is named after. `Host` is what is known of the remote host from what has happened: a command that
ended well has done what it says, and a reboot has come about once the host could not be reached
after it was asked for. The boot reads the configuration of GRUB and loses the limits of the cgroup.

`main_keepsPlan` says, for every answer of the host, the network and the clock, and however far the
run comes: a trial is started only with its own limits, set since the last reboot, with no flag left
from an earlier one and with nothing that is still to be fetched; where the last reboot that was due
was seen to happen, the host runs with the command line of the trial, and no earlier session is on.
Results are fetched only of a trial whose flag was seen. What has been fetched is always a first
part of the plan, and all of it where the runner returns.
-/

namespace Zswap

namespace Remote

open Script

/-! ### The plan -/

/-- One run of the benchmark, with its parameters; no `cmdline` stands for the one that the runner
finds. -/
structure Trial where
  expName : PyStr
  runNumber : ℕ
  cmdline : Option PyStr
  memoryMax : PyStr
  swapMax : PyStr
  writeback : Bool
  deriving DecidableEq

/-- What a trial is known by. -/
def Trial.key (t : Trial) : PyStr × ℕ := (t.expName, t.runNumber)

/-- Trials with the same parameters. -/
def Trial.repeated (t : Trial) (n : ℕ) : List Trial :=
  (List.range' 1 n).map fun i ↦ { t with runNumber := i }

/-- A trial under a command line, with the limits that most series have. -/
def Trial.under (cmdline expName : PyStr) : Trial :=
  ⟨expName, 0, some cmdline, "4G".toList, "6G".toList, true⟩

/-- **The plan of a series.** -/
def plan : Experiment → List Trial
  | .a => Trial.repeated ⟨"experiment_a".toList, 0, none, "4G".toList, "6G".toList, true⟩ 10
  | .b => ["2G".toList, "3G".toList, "5G".toList, "6G".toList].flatMap fun mem ↦
      Trial.repeated ⟨"experiment_b_memory_".toList ++ mem, 0, none, mem, mem, true⟩ 5
  | .c => [60, 70, 80, 100].flatMap fun threshold ↦
      (Trial.under (thresholdCmdline threshold)
        ("experiment_c_accept_threshold_".toList ++ PyStr.ofInt threshold)).repeated 5
  | .d => [5, 10, 40, 60, 100].flatMap fun pool ↦
      (Trial.under (poolPercentCmdline pool)
        ("experiment_d_max_pool_percent_".toList ++ PyStr.ofInt pool)).repeated 5
  | .e => ["deflate".toList, "842".toList, "lz4".toList, "lz4hc".toList, "zstd".toList].flatMap
      fun comp ↦ (Trial.under (compressorCmdline comp)
        ("experiment_e_compressor_".toList ++ comp)).repeated 5
  | .f => ["z3fold".toList, "zsmalloc".toList].flatMap fun pool ↦
      (Trial.under (zpoolCmdline pool) ("experiment_f_zpool_".toList ++ pool)).repeated 5
  | .g => (Trial.under "zswap.enabled=1 zswap.exclusive_loads=Y".toList
      "experiment_g_exclusive_loads_on".toList).repeated 5
  | .h => (Trial.under "zswap.enabled=1 zswap.non_same_filled_pages_enabled=N".toList
      "experiment_h_non_same_filled_pages_off".toList).repeated 5
  | .i => (Trial.under "zswap.enabled=1 zswap.same_filled_pages_enabled=N".toList
      "experiment_i_same_filled_pages_off".toList).repeated 5
  | .j => (Trial.under "zswap.enabled=1 zswap.shrinker_enabled=N".toList
      "experiment_j_shrinker_off".toList).repeated 5
  | .k => Trial.repeated ⟨"experiment_k_cgroup_writeback_off".toList, 0, none, "4G".toList,
      "6G".toList, false⟩ 5

/-! ### What is known of the host -/

/-- What is known of the host; no command line stands for the one that the runner found. -/
structure Host where
  /-- The command line that was last written. -/
  edited : Option PyStr
  /-- The one that the next boot takes. -/
  grub : Option PyStr
  /-- The one that the last boot took. -/
  running : Option PyStr
  /-- `memory.max`, as it was set since the last reboot. -/
  memoryMax : Option PyStr
  /-- `memory.swap.max`, likewise. -/
  swapMax : Option PyStr
  /-- The writeback was not turned off since the last reboot. -/
  writeback : Bool
  /-- The flags were removed and no trial was started since. -/
  noFlags : Bool
  /-- The directory for results that was made last. -/
  resultDir : Option (PyStr × ℕ)
  /-- A trial was started since the boot, and its session was not killed. -/
  session : Bool
  /-- A reboot was asked for and not seen to happen. -/
  rebooting : Bool
  /-- The last command to reboot could not be sent. -/
  missed : Bool
  /-- The flag of the last trial was seen. -/
  complete : Bool
  /-- The trials that were started. -/
  started : List (PyStr × ℕ)
  /-- The trials whose results were fetched. -/
  fetched : List (PyStr × ℕ)

namespace Host

/-- Before anything is done. -/
def init : Host where
  edited := none
  grub := none
  running := none
  memoryMax := none
  swapMax := none
  writeback := true
  noFlags := false
  resultDir := none
  session := false
  rebooting := false
  missed := false
  complete := false
  started := []
  fetched := []

/-- The limits of the cgroup are lost. -/
def unlimited (s : Host) : Host := { s with memoryMax := none, swapMax := none, writeback := true }

/-- A command has ended well. -/
def succeed (s : Host) : Command → Host
  | .removeFlags => { s with noFlags := true }
  | .makeResultDir expName runNumber => { s with resultDir := some (expName, runNumber) }
  | .killSession => { s with session := false }
  | .editGrub cmdline => { s with edited := some cmdline }
  | .updateGrub => { s with grub := s.edited }
  | .setMemoryMax memoryMax => { s with memoryMax := some memoryMax }
  | .setSwapMax swapMax => { s with swapMax := some swapMax }
  | .writebackOff => { s with writeback := false }
  | _ => s

/-- A command was sent, and perhaps a reply has come. -/
def executed (s : Host) : Command → Option Reply → Host
  | .reboot, _ => { s.unlimited with rebooting := true, missed := false }
  | .startExperiment expName runNumber, _ => { s with
      noFlags := false
      session := true
      complete := false
      started := s.started ++ [(expName, runNumber)] }
  | .testComplete, some reply =>
    if PyStr.strip reply.stdout = "complete".toList then { s with complete := true } else s
  | c, some reply => if reply.exitCode = 0 then s.succeed c else s
  | _, none => s

/-- The host could not be reached: where it was asked to, it reboots. -/
def unreachable (s : Host) : Host :=
  if s.rebooting then
    { s.unlimited with running := s.grub, session := false, rebooting := false }
  else s

/-- What is known after an event; `unsent` tells whether a connection has just failed. -/
def observe (unsent : Bool) (s : Host) : Script.Event Cmd Ans → Host
  | ⟨.exec c, reply⟩ => s.executed c reply
  | ⟨.freshEcho, exitCode⟩ => if exitCode = some (0 : ℤ) then s else s.unreachable
  | ⟨.close, _⟩ => { s with missed := s.missed || unsent }
  | ⟨.rsyncResults expName runNumber, true⟩ =>
    { s with fetched := s.fetched ++ [(expName, runNumber)] }
  | _ => s

/-- The last reboot that was due was seen to happen. -/
def Settled (s : Host) : Prop := s.rebooting = false ∧ s.missed = false

end Host

/-- The event is a connection that failed. -/
def isUnsent : Script.Event Cmd Ans → Bool
  | ⟨.connect, connected⟩ => !connected
  | _ => false

/-- What is known of the host, and whether a connection has just failed. -/
def look (h : Log) : Host × Bool :=
  h.foldl (fun s e ↦ (s.1.observe s.2 e, isUnsent e)) (Host.init, false)

/-- What is known of the host. -/
def host (h : Log) : Host := (look h).1

/-- A connection has just failed. -/
def unsent (h : Log) : Bool := (look h).2

/-! ### What a run keeps to -/

/-- **The host is ready for a trial.** -/
structure Ready (t : Trial) (s : Host) : Prop where
  noFlags : s.noFlags = true
  resultDir : s.resultDir = some t.key
  memoryMax : s.memoryMax = some t.memoryMax
  swapMax : s.swapMax = some t.swapMax
  writeback : s.writeback = t.writeback
  fetched : s.fetched = s.started
  booted : s.Settled → s.running = t.cmdline ∧ s.session = false

/-- **What may be done**: start a trial of the plan on a host that is ready for it, fetch the
results of the last trial once its flag was seen, and reboot when all results are fetched. -/
def Allowed (trials : List Trial) (s : Host) : Cmd → Prop
  | .exec (.startExperiment expName runNumber) =>
    ∃ t ∈ trials, t.key = (expName, runNumber) ∧ Ready t s
  | .exec .reboot => s.fetched = s.started
  | .rsyncResults expName runNumber =>
    s.started = s.fetched ++ [(expName, runNumber)] ∧ s.complete = true
  | _ => True

/-- **How far a run has come**: the trials that were fetched are the first ones of the plan, and at
most one more was started, the next one. -/
def OnPlan (trials : List Trial) (s : Host) : Prop :=
  ∃ done, s.fetched = done.map Trial.key ∧
    ((done <+: trials ∧ s.started = s.fetched) ∨
      ∃ t, done ++ [t] <+: trials ∧ s.started = s.fetched ++ [t.key])

/-- A run keeps to a plan. -/
abbrev Keeps {α : Type} (trials : List Trial) (s : Action α) (Q : α → Log → Prop) (h : Log) :
    Prop :=
  s.Meets (fun h c ↦ Allowed trials (host h) c) Q (fun _ h ↦ OnPlan trials (host h)) h

/-! ### Frames -/

section Frames

variable {s s' s'' : Host} {c : Command} {reply : Reply} {r : Option Reply} {trials : List Trial}

/-- The command neither starts a trial nor reboots, and it does not ask for the flag. -/
def Command.plain : Command → Bool
  | .startExperiment _ _ => false
  | .reboot => false
  | .testComplete => false
  | _ => true

theorem executed_of_plain (hc : c.plain = true) (hok : reply.exitCode = 0) :
    s.executed c (some reply) = s.succeed c := by
  cases c with
  | startExperiment _ _ => cases hc
  | reboot => cases hc
  | testComplete => cases hc
  | _ => exact if_pos hok

theorem started_executed (hc : ∀ expName runNumber, c ≠ .startExperiment expName runNumber) :
    (s.executed c r).started = s.started ∧ (s.executed c r).fetched = s.fetched := by
  cases c with
  | startExperiment expName runNumber => exact absurd rfl (hc expName runNumber)
  | reboot => exact ⟨rfl, rfl⟩
  | testComplete =>
    cases r with
    | none => exact ⟨rfl, rfl⟩
    | some reply =>
      show (if _ then _ else _ : Host).started = _ ∧ (if _ then _ else _ : Host).fetched = _
      split_ifs <;> exact ⟨rfl, rfl⟩
  | _ =>
    cases r with
    | none => exact ⟨rfl, rfl⟩
    | some reply =>
      show (if _ then _ else _ : Host).started = _ ∧ (if _ then _ else _ : Host).fetched = _
      split_ifs <;> exact ⟨rfl, rfl⟩

theorem onPlan_congr (hplan : OnPlan trials s)
    (h : s'.started = s.started ∧ s'.fetched = s.fetched) : OnPlan trials s' := by
  rw [OnPlan, h.1, h.2]
  exact hplan

end Frames

/-! ### One command -/

section Rules

variable {h : Log} {e : Script.Event Cmd Ans} {c : Command} {trials : List Trial} {ssh : Bool}

theorem host_concat : host (h ++ [e]) = (host h).observe (unsent h) e := by
  rw [host, look, List.foldl_concat]
  rfl

theorem unsent_concat : unsent (h ++ [e]) = isUnsent e := by
  rw [unsent, look, List.foldl_concat]

/-- **The connection** changes nothing that is known of the host. -/
theorem keeps_connect {Q : Bool → Log → Prop} {E : Failure → Log → Prop}
    (hQ : ∀ b h', host h' = host h → unsent h' = !b → Q b h') :
    (connect ssh).Meets (fun h c ↦ Allowed trials (host h) c) Q E h := by
  have hask : ∀ h', host h' = host h → (ask Cmd.connect : Action Bool).Meets
      (fun h c ↦ Allowed trials (host h) c) Q E h' := fun h' hh ↦
    ⟨trivial, fun b ↦ hQ b _ (host_concat.trans hh) unsent_concat⟩
  cases ssh with
  | false => exact hask h rfl
  | true =>
    refine meets_ask.2 ⟨trivial, fun active ↦ ?_⟩
    cases active with
    | true => exact hQ true _ host_concat unsent_concat
    | false => exact hask _ host_concat

/-- **A command whose failure counts.** -/
theorem keeps_execute {Q : Reply → Log → Prop} (hallow : Allowed trials (host h) (.exec c))
    (hplan : OnPlan trials (host h)) (hplan' : ∀ r, OnPlan trials ((host h).executed c r))
    (hQ : ∀ reply h', reply.exitCode = 0 → host h' = (host h).executed c (some reply) →
      Q reply h') : Keeps trials (executeCommand ssh c false) Q h := by
  refine meets_seq (keeps_connect fun b h' hh _ ↦ ?_) fun _ _ hb ↦ hb
  cases b with
  | false =>
    show OnPlan trials (host h')
    rw [hh]
    exact hplan
  | true =>
    refine meets_ask.2 ⟨by rw [hh]; exact hallow, fun r ↦ ?_⟩
    have hhost : host (h' ++ [⟨.exec c, r⟩]) = (host h).executed c r := by
      rw [host_concat, hh]
      rfl
    cases r with
    | none =>
      show OnPlan trials (host _)
      rw [hhost]
      exact hplan' none
    | some reply =>
      refine meets_seq (R := fun _ h' ↦ reply.exitCode = 0 ∧
        host h' = (host h).executed c (some reply)) ?_ fun _ h' hok ↦ hQ reply h' hok.1 hok.2
      refine meets_require.2 ?_
      by_cases hok : reply.exitCode = 0
      · rw [if_pos (by simp [hok])]
        exact ⟨hok, hhost⟩
      · rw [if_neg (by simp [hok]), hhost]
        exact hplan' _

/-- **A command whose failure is ignored.** -/
theorem keeps_execute_ignoring {Q : Reply → Log → Prop}
    (hallow : Allowed trials (host h) (.exec c))
    (hplan' : ∀ r, OnPlan trials ((host h).executed c r))
    (hunsent : ∀ h', host h' = host h → unsent h' = true → Q ⟨-1, []⟩ h')
    (hQ : ∀ reply h', host h' = (host h).executed c (some reply) → Q reply h') :
    Keeps trials (executeCommand ssh c true) Q h := by
  refine meets_seq (keeps_connect fun b h' hh hb ↦ ?_) fun _ _ hb ↦ hb
  cases b with
  | false => exact hunsent h' hh hb
  | true =>
    refine meets_ask.2 ⟨by rw [hh]; exact hallow, fun r ↦ ?_⟩
    have hhost : host (h' ++ [⟨.exec c, r⟩]) = (host h).executed c r := by
      rw [host_concat, hh]
      rfl
    cases r with
    | none =>
      show OnPlan trials (host _)
      rw [hhost]
      exact hplan' none
    | some reply =>
      refine meets_seq (R := fun _ h' ↦ host h' = (host h).executed c (some reply)) ?_
        fun _ h' hh' ↦ hQ reply h' hh'
      refine meets_require.2 ?_
      rw [if_pos (by simp)]
      exact hhost

/-- Commands that are plain are allowed, and leave a run on its plan. -/
theorem allowed_of_plain {s : Host} (hc : c.plain = true) : Allowed trials s (.exec c) := by
  cases c with
  | startExperiment _ _ => cases hc
  | reboot => cases hc
  | _ => trivial

theorem onPlan_executed {s : Host} (hplan : OnPlan trials s) (hc : c.plain = true)
    (r : Option Reply) : OnPlan trials (s.executed c r) :=
  onPlan_congr hplan (started_executed fun _ _ heq ↦ by rw [heq] at hc; cases hc)

theorem onPlan_succeed {s : Host} (hplan : OnPlan trials s) (hc : c.plain = true) :
    OnPlan trials (s.succeed c) := by
  have hok : s.executed c (some ⟨0, []⟩) = s.succeed c := executed_of_plain hc rfl
  rw [← hok]
  exact onPlan_executed hplan hc _

/-- **Plain commands, one after the other**, before the rest of a list. -/
theorem keeps_executeAll_append {cs cs' : List Command} {Q : Unit → Log → Prop}
    (hcs : ∀ c ∈ cs, c.plain = true) (hplan : OnPlan trials (host h))
    (hQ : ∀ ssh h', host h' = cs.foldl Host.succeed (host h) →
      Keeps trials (executeAll ssh cs') Q h') :
    Keeps trials (executeAll ssh (cs ++ cs')) Q h := by
  induction cs generalizing h ssh with
  | nil => exact hQ ssh h rfl
  | cons c cs ih =>
    obtain ⟨hc, hcs⟩ := List.forall_mem_cons.1 hcs
    refine meets_seq (R := fun _ h' ↦ host h' = (host h).succeed c)
      (keeps_execute (allowed_of_plain hc) hplan (onPlan_executed hplan hc)
        fun reply h' hok hh ↦ ?_) fun _ h' hh ↦ ?_
    · rw [hh, executed_of_plain hc hok]
    · refine ih hcs (by rw [hh]; exact onPlan_succeed hplan hc) fun ssh h'' hh' ↦ hQ ssh h'' ?_
      rw [hh', hh]
      rfl

theorem keeps_executeAll {cs : List Command} {Q : Unit → Log → Prop}
    (hcs : ∀ c ∈ cs, c.plain = true) (hplan : OnPlan trials (host h))
    (hQ : ∀ h', host h' = cs.foldl Host.succeed (host h) → Q () h') :
    Keeps trials (executeAll ssh cs) Q h := by
  rw [← List.append_nil cs]
  exact keeps_executeAll_append hcs hplan fun _ h' hh ↦ hQ h' hh

/-! ### A reboot -/

/-- The host is waited for: it was unreachable at some time, or not. -/
def Waited (s s' : Host) : Prop := s' = s ∨ s' = s.unreachable

theorem unreachable_unreachable (s : Host) : s.unreachable.unreachable = s.unreachable := by
  by_cases hr : s.rebooting = true
  · have hdown : s.unreachable = { s.unlimited with
        running := s.grub, session := false, rebooting := false } := if_pos hr
    rw [hdown]
    exact if_neg Bool.false_ne_true
  · have hstays : s.unreachable = s := if_neg hr
    rw [hstays, hstays]

theorem Waited.trans {s s' s'' : Host} (hw : Waited s s') (hw' : Waited s' s'') : Waited s s'' := by
  obtain rfl | rfl := hw
  · exact hw'
  · refine .inr ?_
    obtain rfl | rfl := hw'
    · rfl
    · exact unreachable_unreachable s

theorem onPlan_unreachable {s : Host} (hplan : OnPlan trials s) : OnPlan trials s.unreachable := by
  rw [Host.unreachable]
  split_ifs
  · exact hplan
  · exact hplan

theorem Waited.onPlan {s s' : Host} (hw : Waited s s') (hplan : OnPlan trials s) :
    OnPlan trials s' := by
  obtain rfl | rfl := hw
  · exact hplan
  · exact onPlan_unreachable hplan

/-- **A look whether the host is there.** -/
theorem keeps_checkSsh {Q : Bool → Log → Prop}
    (hQ : ∀ up h', Waited (host h) (host h') → Q up h') : Keeps trials (checkSsh false) Q h := by
  refine ⟨trivial, fun exitCode ↦ hQ _ _ ?_⟩
  rw [host_concat]
  show Waited (host h) (if exitCode = some (0 : ℤ) then host h else (host h).unreachable)
  split_ifs
  · exact .inl rfl
  · exact .inr rfl

theorem keeps_awaitDown {left : ℕ} {Q : Unit → Log → Prop} {s : Host} (hw : Waited s (host h))
    (hQ : ∀ h', Waited s (host h') → Q () h') : Keeps trials (awaitDown left) Q h := by
  induction left generalizing h with
  | zero => exact hQ h hw
  | succ left ih =>
    refine meets_seq (keeps_checkSsh fun up h' hw' ↦ ?_) fun _ _ hb ↦ hb
    cases up with
    | false => exact hQ h' (hw.trans hw')
    | true => exact ⟨trivial, fun _ ↦ ih (by rw [host_concat]; exact hw.trans hw')⟩

theorem keeps_awaitUp {start : ℚ} {turns : ℕ} {Q : Unit → Log → Prop} {s : Host}
    (hplan : OnPlan trials s) (hw : Waited s (host h))
    (hQ : ∀ h', Waited s (host h') → Q () h') : Keeps trials (awaitUp start turns) Q h := by
  induction turns generalizing h with
  | zero => exact hw.onPlan hplan
  | succ turns ih =>
    refine meets_seq (keeps_checkSsh fun up h' hw' ↦ ?_) fun _ _ hb ↦ hb
    cases up with
    | true => exact hQ h' (hw.trans hw')
    | false =>
      refine ⟨trivial, fun now ↦ ?_⟩
      have hw'' : Waited s (host (h' ++ [⟨.time, now⟩])) := by
        rw [host_concat]
        exact hw.trans hw'
      show (if now - start > sshTimeout then _ else _ : Action Unit).Meets _ _ _ _
      split_ifs with htime
      · exact hw''.onPlan hplan
      · exact ⟨trivial, fun _ ↦ ih (by rw [host_concat]; exact hw'')⟩

/-- **What a reboot leads to**: what is fetched and written stays, and where the reboot was seen to
happen, the host runs with the command line that was written, and no session is on. -/
structure Rebooted (s s' : Host) : Prop where
  grub : s'.grub = s.grub
  started : s'.started = s.started
  fetched : s'.fetched = s.fetched
  writeback : s.writeback = true → s'.writeback = true
  booted : s'.Settled → s'.running = s.grub ∧ s'.session = false

/-- The command was sent. -/
theorem rebooted_of_sent {s s' : Host} (r : Option Reply)
    (hw : Waited { s.executed .reboot r with missed := false } s') : Rebooted s s' := by
  obtain rfl | rfl := hw
  · exact ⟨rfl, rfl, rfl, fun _ ↦ rfl, fun hset ↦ Bool.noConfusion (hset.1 : true = false)⟩
  · exact ⟨rfl, rfl, rfl, fun _ ↦ rfl, fun _ ↦ ⟨rfl, rfl⟩⟩

/-- The command could not be sent. -/
theorem rebooted_of_unsent {s s' : Host} (hw : Waited { s with missed := true } s') :
    Rebooted s s' := by
  obtain rfl | rfl := hw
  · exact ⟨rfl, rfl, rfl, id, fun hset ↦ Bool.noConfusion (hset.2 : true = false)⟩
  · by_cases hr : s.rebooting = true
    · have hdown : ({ s with missed := true } : Host).unreachable =
          { ({ s with missed := true } : Host).unlimited with
            running := s.grub, session := false, rebooting := false } := if_pos hr
      rw [hdown]
      exact ⟨rfl, rfl, rfl, fun _ ↦ rfl, fun hset ↦ Bool.noConfusion (hset.2 : true = false)⟩
    · have hstays : ({ s with missed := true } : Host).unreachable = { s with missed := true } :=
        if_neg hr
      rw [hstays]
      exact ⟨rfl, rfl, rfl, id, fun hset ↦ Bool.noConfusion (hset.2 : true = false)⟩

/-- **The rest of a reboot**, once the command was sent or not. -/
theorem keeps_rest {turns : ℕ} {Q : Unit → Log → Prop} {s : Host} (hplan : OnPlan trials s)
    (hs : { host h with missed := (host h).missed || unsent h } = s)
    (hQ : ∀ h', Waited s (host h') → Q () h') :
    Keeps trials (do
      tell Cmd.close
      tell (Cmd.sleep 5)
      awaitDown 30
      let start ← (ask Cmd.time : Action ℚ)
      awaitUp start turns
      tell (Cmd.sleep 30)) Q h := by
  refine meets_tell.2 ⟨trivial, fun _ ↦ meets_tell.2 ⟨trivial, fun _ ↦ ?_⟩⟩
  have hw : Waited s (host (h ++ [⟨.close, ()⟩] ++ [⟨.sleep 5, ()⟩])) := by
    rw [host_concat, host_concat]
    exact .inl hs
  refine meets_seq (R := fun _ h ↦ Waited s (host h)) (keeps_awaitDown hw fun _ hw ↦ hw)
    fun _ h₁ hw₁ ↦ ?_
  refine meets_ask.2 ⟨trivial, fun start ↦ ?_⟩
  have hw₂ : Waited s (host (h₁ ++ [⟨.time, start⟩])) := by
    rw [host_concat]
    exact hw₁
  refine meets_seq (R := fun _ h ↦ Waited s (host h)) (keeps_awaitUp hplan hw₂ fun _ hw ↦ hw)
    fun _ h₃ hw₃ ↦ ?_
  refine meets_last.2 ⟨trivial, fun _ ↦ hQ _ ?_⟩
  rw [host_concat]
  exact hw₃

/-- The command to reboot, whose failure is caught: it was sent, or the connection has failed. -/
theorem meets_attempt_reboot {Q : Except Failure Reply → Log → Prop} {E : Failure → Log → Prop}
    (hfetched : (host h).fetched = (host h).started)
    (hunsent : ∀ x h', host h' = host h → unsent h' = true → Q x h')
    (hsent : ∀ x r h', host h' = (host h).executed .reboot r → unsent h' = false → Q x h') :
    (attempt (executeCommand ssh .reboot true)).Meets (fun h c ↦ Allowed trials (host h) c) Q E
      h := by
  refine meets_attempt.2 (meets_seq (keeps_connect fun b h' hh hu ↦ ?_) fun _ _ hb ↦ hb)
  cases b with
  | false => exact hunsent _ h' hh hu
  | true =>
    refine meets_ask.2 ⟨by rw [hh]; exact hfetched, fun r ↦ ?_⟩
    have hhost : host (h' ++ [⟨.exec .reboot, r⟩]) = (host h).executed .reboot r := by
      rw [host_concat, hh]
      rfl
    cases r with
    | none => exact hsent _ none _ hhost unsent_concat
    | some reply =>
      refine meets_seq (R := fun _ h' ↦ host h' = (host h).executed .reboot (some reply) ∧
        unsent h' = false) ?_ fun _ h' hb ↦ hsent _ _ h' hb.1 hb.2
      refine meets_require.2 ?_
      rw [if_pos (by simp)]
      exact ⟨hhost, unsent_concat⟩

/-- **A reboot**, where all results are fetched. -/
theorem keeps_rebootAndWait {turns : ℕ} {Q : Unit → Log → Prop} (hplan : OnPlan trials (host h))
    (hfetched : (host h).fetched = (host h).started)
    (hQ : ∀ h', Rebooted (host h) (host h') → Q () h') :
    Keeps trials (rebootAndWait turns ssh) Q h := by
  refine meets_seq (meets_attempt_reboot hfetched (fun x h₁ hh hu ↦ ?_) fun x r h₁ hh hu ↦ ?_)
    fun _ _ hb ↦ hb
  · refine keeps_rest (s := { host h with missed := true }) hplan ?_ fun h' hw ↦
      hQ h' (rebooted_of_unsent hw)
    rw [hh, hu, Bool.or_true]
  · refine keeps_rest (s := { (host h).executed .reboot r with missed := false }) hplan ?_
      fun h' hw ↦ hQ h' (rebooted_of_sent r hw)
    rw [hh, hu]
    rfl

/-! ### One trial -/

/-- **The limits of the cgroup are set.** -/
theorem keeps_configureCgroupMemory {memoryMax swapMax : PyStr} {Q : Unit → Log → Prop}
    (hplan : OnPlan trials (host h))
    (hQ : ∀ h', host h' = { host h with memoryMax := some memoryMax, swapMax := some swapMax } →
      Q () h') : Keeps trials (configureCgroupMemory ssh memoryMax swapMax) Q h := by
  have hsame : ∀ r, (host h).executed .testGroup r = host h := fun r ↦ by
    cases r with
    | none => rfl
    | some reply => exact ite_self _
  have hset : ∀ h', host h' = host h →
      Keeps trials (executeAll true [.setMemoryMax memoryMax, .setSwapMax swapMax]) Q h' := by
    intro h' hh
    refine keeps_executeAll (by simp [Command.plain]) (by rw [hh]; exact hplan) fun h'' hh' ↦
      hQ h'' ?_
    rw [hh', hh]
    rfl
  refine meets_seq (R := fun _ h' ↦ host h' = host h) (keeps_execute_ignoring trivial
    (fun r ↦ by rw [hsame]; exact hplan) (fun h' hh _ ↦ hh) fun reply h' hh ↦ hh.trans (hsame _)) ?_
  intro reply h₁ hh
  refine meets_seq (R := fun _ h' ↦ host h' = host h) (meets_when.2 ?_) fun _ h₂ hh₂ ↦ hset h₂ hh₂
  split_ifs
  · refine meets_seq (keeps_execute trivial (by rw [hh]; exact hplan)
      (onPlan_executed (by rw [hh]; exact hplan) rfl) fun reply h₂ hok hh₂ ↦ ?_) fun _ _ hb ↦ hb
    show host h₂ = host h
    rw [hh₂, hh]
    exact if_pos hok
  · exact hh

/-- What the wait for a trial leaves as it is. -/
structure Same (s s' : Host) : Prop where
  grub : s'.grub = s.grub
  writeback : s'.writeback = s.writeback
  started : s'.started = s.started
  fetched : s'.fetched = s.fetched

theorem Same.trans {s s' s'' : Host} (hs : Same s s') (hs' : Same s' s'') : Same s s'' :=
  ⟨hs'.grub.trans hs.grub, hs'.writeback.trans hs.writeback, hs'.started.trans hs.started,
    hs'.fetched.trans hs.fetched⟩

theorem Same.onPlan {s s' : Host} (hs : Same s s') (hplan : OnPlan trials s) : OnPlan trials s' :=
  onPlan_congr hplan ⟨hs.started, hs.fetched⟩

/-- A look at the flags. -/
theorem same_testComplete (s : Host) (reply : Reply) :
    Same s (s.executed .testComplete (some reply)) ∧
      (PyStr.strip reply.stdout = "complete".toList →
        (s.executed .testComplete (some reply)).complete = true) := by
  show Same s (if _ then _ else _) ∧ (_ → (if _ then _ else _ : Host).complete = true)
  split_ifs with hflag
  · exact ⟨⟨rfl, rfl, rfl, rfl⟩, fun _ ↦ rfl⟩
  · exact ⟨⟨rfl, rfl, rfl, rfl⟩, fun h ↦ absurd h hflag⟩

theorem same_testError (s : Host) (r : Option Reply) : s.executed .testError r = s := by
  cases r with
  | none => rfl
  | some reply => exact ite_self _

theorem same_killSession (s : Host) (r : Option Reply) : Same s (s.executed .killSession r) ∧
    (s.executed .killSession r).complete = s.complete := by
  cases r with
  | none => exact ⟨⟨rfl, rfl, rfl, rfl⟩, rfl⟩
  | some reply =>
    show Same s (if _ then _ else _) ∧ (if _ then _ else _ : Host).complete = s.complete
    split_ifs <;> exact ⟨⟨rfl, rfl, rfl, rfl⟩, rfl⟩

theorem keeps_killSession {s : Host} {ok : Bool} (hplan : OnPlan trials s) (hs : Same s (host h))
    (hok : ok = true → (host h).complete = true) :
    Keeps trials (do
      let _ ← executeCommand true .killSession true
      pure ok) (fun ok h' ↦ Same s (host h') ∧ (ok = true → (host h').complete = true)) h := by
  refine meets_seq (R := fun _ h' ↦ Same s (host h') ∧ (host h').complete = (host h).complete)
    (keeps_execute_ignoring trivial (onPlan_executed (hs.onPlan hplan) rfl) (fun h' hh _ ↦ ?_)
      fun reply h' hh ↦ ?_) fun _ h' hb ↦ ⟨hb.1, fun htrue ↦ hb.2.trans (hok htrue)⟩
  · rw [hh]
    exact ⟨hs, rfl⟩
  · obtain ⟨hsame, hcomplete⟩ := same_killSession (host h) (some reply)
    rw [hh]
    exact ⟨hs.trans hsame, hcomplete⟩

/-- **The wait for a trial**: it returns `True` only where the flag was seen. -/
theorem keeps_awaitExperiment {start : ℚ} {turns : ℕ} {s : Host} (hplan : OnPlan trials s)
    (hs : Same s (host h)) : Keeps trials (awaitExperiment start turns)
      (fun ok h' ↦ Same s (host h') ∧ (ok = true → (host h').complete = true)) h := by
  induction turns generalizing h with
  | zero => exact hs.onPlan hplan
  | succ turns ih =>
    refine meets_seq (R := fun reply h' ↦ Same s (host h') ∧
      (PyStr.strip reply.stdout = "complete".toList → (host h').complete = true))
      (keeps_execute_ignoring trivial (fun r ↦ ?_) (fun h' hh _ ↦ ?_) fun reply h' hh ↦ ?_) ?_
    · cases r with
      | none => exact hs.onPlan hplan
      | some reply => exact (hs.trans (same_testComplete _ reply).1).onPlan hplan
    · rw [hh]
      exact ⟨hs, fun hflag ↦ absurd hflag (by decide)⟩
    · rw [hh]
      exact ⟨hs.trans (same_testComplete _ reply).1, (same_testComplete _ reply).2⟩
    rintro reply h₁ ⟨hs₁, hcomplete⟩
    show (if _ then _ else _ : Action Bool).Meets _ _ _ _
    split_ifs with hflag
    · exact keeps_killSession hplan hs₁ fun _ ↦ hcomplete hflag
    -- no flag of success: is there one of failure
    refine meets_seq (R := fun _ h' ↦ Same s (host h')) (keeps_execute_ignoring trivial
      (onPlan_executed (hs₁.onPlan hplan) rfl) (fun h' hh _ ↦ by rw [hh]; exact hs₁)
      fun reply h' hh ↦ by rw [hh, same_testError]; exact hs₁) ?_
    rintro reply h₂ hs₂
    show (if _ then _ else _ : Action Bool).Meets _ _ _ _
    split_ifs with herror
    · exact keeps_killSession hplan hs₂ fun hfalse ↦ Bool.noConfusion hfalse
    refine meets_ask.2 ⟨trivial, fun now ↦ ?_⟩
    have hs₃ : Same s (host (h₂ ++ [⟨.time, now⟩])) := by
      rw [host_concat]
      exact hs₂
    show (if _ then _ else _ : Action Bool).Meets _ _ _ _
    split_ifs with htime
    · exact keeps_killSession hplan hs₃ fun hfalse ↦ Bool.noConfusion hfalse
    · refine meets_tell.2 ⟨trivial, fun _ ↦ ih ?_⟩
      rw [host_concat]
      exact hs₃

/-- **How far a series is** between two trials: `off` says whether it turns the writeback off. -/
structure At (trials done : List Trial) (grub : Option PyStr) (off : Bool) (s : Host) : Prop where
  fetched : s.fetched = done.map Trial.key
  started : s.started = s.fetched
  done_prefix : done <+: trials
  grub_eq : s.grub = grub
  writeback : off = false → s.writeback = true

/-- The host was just booted, as far as is known, or nothing has happened on it yet. -/
def Fresh (grub : Option PyStr) (s : Host) : Prop :=
  s.Settled → s.running = grub ∧ s.session = false

variable {done : List Trial} {grub : Option PyStr} {off : Bool}

theorem At.onPlan {s : Host} (hat : At trials done grub off s) : OnPlan trials s :=
  ⟨done, hat.fetched, .inl ⟨hat.done_prefix, hat.started⟩⟩

/-- All trials have been run, and all results are fetched. -/
def Finished (trials : List Trial) (s : Host) : Prop :=
  s.fetched = trials.map Trial.key ∧ s.started = s.fetched

theorem Finished.onPlan {s : Host} (hs : Finished trials s) : OnPlan trials s :=
  ⟨trials, hs.1, .inl ⟨List.prefix_refl _, hs.2⟩⟩

theorem At.finished {s : Host} (hat : At trials trials grub off s) : Finished trials s :=
  ⟨hat.fetched, hat.started⟩

/-- **A trial is run** on a host that is ready for it but for the flags and the directory. -/
theorem keeps_runExperiment {turns : ℕ} {t : Trial} {s : Host} (hhost : host h = s)
    (hready : Ready t { s with noFlags := true, resultDir := some t.key })
    (hfetched : s.fetched = done.map Trial.key) (hnext : done ++ [t] <+: trials) :
    Keeps trials (runExperiment turns ssh t.expName t.runNumber)
      (fun ok h' ↦ Same { s with started := s.started ++ [t.key] } (host h') ∧
        (ok = true → (host h').complete = true)) h := by
  have hpre : done <+: trials := (List.prefix_append done [t]).trans hnext
  have hstarted : s.fetched = s.started := hready.fetched
  have hplan : OnPlan trials s := ⟨done, hfetched, .inl ⟨hpre, hstarted.symm⟩⟩
  have hmem : t ∈ trials := hnext.subset (List.mem_append_right _ (List.mem_singleton_self t))
  have hplan' : OnPlan trials { s with started := s.started ++ [t.key] } :=
    ⟨done, hfetched, .inr ⟨t, hnext, by rw [hstarted]⟩⟩
  have hplain : ∀ c ∈ [Command.removeFlags, .makeResultDir t.expName t.runNumber],
      c.plain = true := by simp [Command.plain]
  refine meets_seq (R := fun _ h' ↦ Same { s with started := s.started ++ [t.key] } (host h'))
    (keeps_executeAll_append hplain (by rw [hhost]; exact hplan) fun ssh h₁ hh₁ ↦ ?_)
    fun _ h₁ hs ↦ ?_
  · rw [hhost] at hh₁
    have hh : host h₁ = { s with noFlags := true, resultDir := some t.key } := hh₁
    refine meets_seq (keeps_execute ?_ ?_ ?_ fun reply h₂ _ hh₂ ↦ ?_) fun _ _ hb ↦ hb
    · rw [hh]
      exact ⟨t, hmem, rfl, hready⟩
    · rw [hh]
      exact hplan
    · rw [hh]
      exact fun r ↦ hplan'
    · show Same _ (host h₂)
      rw [hh₂, hh]
      exact ⟨rfl, rfl, rfl, rfl⟩
  · refine meets_ask.2 ⟨trivial, fun start ↦ keeps_awaitExperiment hplan' ?_⟩
    rw [host_concat]
    exact hs

/-- **The results of the last trial are fetched.** -/
theorem keeps_syncResults {expName : PyStr} {runNumber : ℕ} {Q : Unit → Log → Prop}
    (hplan : OnPlan trials (host h))
    (hlast : (host h).started = (host h).fetched ++ [(expName, runNumber)])
    (hcomplete : (host h).complete = true)
    (hQ : ∀ h', host h' =
      { host h with fetched := (host h).fetched ++ [(expName, runNumber)] } → Q () h') :
    Keeps trials (syncResults expName runNumber) Q h := by
  refine meets_ask.2 ⟨trivial, fun made ↦ ?_⟩
  have hh : host (h ++ [⟨.makedirs expName runNumber, made⟩]) = host h := host_concat
  refine meets_seq (R := fun _ h' ↦ host h' = host h) (meets_require.2 ?_) fun _ h₁ hh₁ ↦ ?_
  · split_ifs
    · exact hh
    · rw [hh]
      exact hplan
  · refine meets_ask.2 ⟨by rw [hh₁]; exact ⟨hlast, hcomplete⟩, fun copied ↦ meets_require.2 ?_⟩
    cases copied with
    | true =>
      refine hQ _ ?_
      rw [host_concat, hh₁]
      rfl
    | false =>
      show OnPlan trials (host _)
      rw [host_concat, hh₁]
      exact hplan

/-- What a series does between the limits and the trial. -/
theorem foldl_succeed_extra {s : Host} (hs : off = false → s.writeback = true) :
    (if off then [Command.writebackOff] else []).foldl Host.succeed s =
      { s with writeback := !off } := by
  cases off with
  | true => rfl
  | false =>
    show s = { s with writeback := true }
    rw [← hs rfl]

/-- **A trial is run and its results are fetched.** -/
theorem keeps_runTrial {turns : ℕ} {t : Trial} {extra : List Command}
    (hat : At trials done t.cmdline off (host h)) (hfresh : Fresh t.cmdline (host h))
    (hnext : done ++ [t] <+: trials) (hextra : extra = if off then [.writebackOff] else [])
    (hwriteback : t.writeback = !off) :
    Keeps trials (runTrial turns ssh t.memoryMax t.swapMax extra t.expName t.runNumber)
      (fun _ h' ↦ At trials (done ++ [t]) t.cmdline off (host h')) h := by
  have hplain : ∀ c ∈ extra, c.plain = true := by
    rw [hextra]
    split_ifs <;> simp [Command.plain]
  refine meets_seq (R := fun _ h' ↦ host h' =
      { host h with memoryMax := some t.memoryMax, swapMax := some t.swapMax })
    (keeps_configureCgroupMemory hat.onPlan fun h₁ hh₁ ↦ hh₁) fun _ h₁ hh₁ ↦ ?_
  refine meets_seq (R := fun _ h' ↦ host h' = { host h with
    memoryMax := some t.memoryMax
    swapMax := some t.swapMax
    writeback := t.writeback }) (keeps_executeAll hplain ?_ fun h₂ hh₂ ↦ ?_) fun _ h₂ hh₂ ↦ ?_
  · rw [hh₁]
    exact hat.onPlan
  · rw [hh₂, hh₁, hextra, hwriteback]
    exact foldl_succeed_extra hat.writeback
  have hready : Ready t { host h with
      memoryMax := some t.memoryMax
      swapMax := some t.swapMax
      writeback := t.writeback
      noFlags := true
      resultDir := some t.key } := ⟨rfl, rfl, rfl, rfl, rfl, hat.started.symm, hfresh⟩
  refine meets_seq (keeps_runExperiment hh₂ hready hat.fetched hnext) ?_
  rintro ok h₃ ⟨hs, hcomplete⟩
  have hplan : OnPlan trials (host h₃) :=
    ⟨done, hs.fetched.trans hat.fetched, .inr ⟨t, hnext, by
      rw [hs.started, hs.fetched]
      exact congrArg (· ++ [t.key]) hat.started⟩⟩
  refine meets_seq (R := fun _ h' ↦ h' = h₃ ∧ ok = true) (meets_require.2 ?_) ?_
  · split_ifs with hok
    · exact ⟨rfl, hok⟩
    · exact hplan
  rintro - h₄ ⟨rfl, hok⟩
  refine keeps_syncResults hplan ?_ (hcomplete hok) fun h₅ hh₅ ↦ ?_
  · rw [hs.started, hs.fetched]
    exact congrArg (· ++ [t.key]) hat.started
  · have hfetched : (host h₅).fetched = (done ++ [t]).map Trial.key := by
      rw [hh₅, List.map_append]
      exact congrArg (· ++ [t.key]) (hs.fetched.trans hat.fetched)
    refine ⟨hfetched, ?_, hnext, ?_, fun hoff ↦ ?_⟩
    · rw [hh₅]
      show (host h₄).started = (host h₄).fetched ++ [t.key]
      rw [hs.started, hs.fetched]
      exact congrArg (· ++ [t.key]) hat.started
    · rw [hh₅]
      exact hs.grub.trans hat.grub_eq
    · rw [hh₅]
      refine hs.writeback.trans ?_
      show t.writeback = true
      rw [hwriteback, hoff]
      rfl

/-! ### The series -/

/-- A reboot between two trials. -/
theorem keeps_rebootAndWait_at {turns : ℕ} (hat : At trials done grub off (host h)) :
    Keeps trials (rebootAndWait turns ssh)
      (fun _ h' ↦ At trials done grub off (host h') ∧ Fresh grub (host h')) h := by
  refine keeps_rebootAndWait hat.onPlan hat.started.symm fun h' hr ↦ ⟨⟨?_, ?_, hat.done_prefix, ?_,
    fun hoff ↦ hr.writeback (hat.writeback hoff)⟩, fun hset ↦ ?_⟩
  · rw [hr.fetched, hat.fetched]
  · rw [hr.started, hat.started, hr.fetched]
  · rw [hr.grub, hat.grub_eq]
  · rw [← hat.grub_eq]
    exact hr.booted hset

theorem keeps_configureGrub {cmdline : PyStr} (hne : cmdline ≠ [])
    (hat : At trials done grub off (host h)) : Keeps trials (configureGrub ssh cmdline)
      (fun _ h' ↦ At trials done (some cmdline) off (host h')) h := by
  rw [configureGrub, if_neg hne]
  refine keeps_executeAll (by simp [Command.plain]) hat.onPlan fun h' hh ↦ ?_
  rw [hh]
  exact ⟨hat.fetched, hat.started, hat.done_prefix, rfl, hat.writeback⟩

theorem keeps_insertModule {module : PyStr} (hat : At trials done grub off (host h)) :
    Keeps trials (insertModule ssh module) (fun _ h' ↦ At trials done grub off (host h')) h := by
  rw [insertModule]
  split_ifs
  · exact hat
  · refine keeps_executeAll (by simp [Command.plain]) hat.onPlan fun h' hh ↦ ?_
    rw [hh]
    exact hat

/-- **A loop over values**, each with its own trials. -/
theorem keeps_forEach {γ : Type} {body : γ → Bool → Action Bool} {values : List γ}
    (trialsOf : γ → List Trial) (J : List Trial → Log → Prop)
    (hbody : ∀ v done b h, J done h → done ++ trialsOf v <+: trials →
      Keeps trials (body v b) (fun _ ↦ J (done ++ trialsOf v)) h)
    (hJ : J done h) (hpre : done ++ values.flatMap trialsOf <+: trials) :
    Keeps trials (forEach body values ssh) (fun _ ↦ J (done ++ values.flatMap trialsOf)) h := by
  refine meets_forEach (I := fun vs _ ↦ J (done ++ vs.flatMap trialsOf)) ?_ ?_
  · intro vs v rest hvalues b h' hJ'
    have hnext : done ++ vs.flatMap trialsOf ++ trialsOf v <+: trials := by
      refine List.IsPrefix.trans ?_ hpre
      rw [hvalues, List.flatMap_append, List.flatMap_cons, ← List.append_assoc, ← List.append_assoc]
      exact List.prefix_append _ _
    rw [List.flatMap_append, List.flatMap_singleton, ← List.append_assoc]
    exact hbody v _ b h' hJ' hnext
  · rw [List.flatMap_nil, List.append_nil]
    exact hJ

/-- The trials of a loop over the numbers of runs. -/
theorem repeated_eq (t : Trial) (n : ℕ) :
    t.repeated n = (List.range' 1 n).flatMap fun i ↦ [{ t with runNumber := i }] :=
  List.map_eq_flatMap

/-- **Five trials under a command line.** -/
theorem keeps_configuredTrials {turns : ℕ} {cmdline expName : PyStr} (hne : cmdline ≠ [])
    (hat : At trials done grub false (host h))
    (hnext : done ++ (Trial.under cmdline expName).repeated 5 <+: trials) :
    Keeps trials (configuredTrials turns cmdline expName ssh) (fun _ h' ↦
      At trials (done ++ (Trial.under cmdline expName).repeated 5) (some cmdline) false (host h'))
      h := by
  refine meets_seq (keeps_configureGrub hne hat) fun _ h₁ hat₁ ↦ meets_tell.2 ⟨trivial, fun _ ↦ ?_⟩
  rw [repeated_eq] at hnext ⊢
  refine keeps_forEach _ (fun done h ↦ At trials done (some cmdline) false (host h)) ?_ ?_ hnext
  · intro j done b h' hat' hnext'
    refine meets_seq (keeps_rebootAndWait_at hat') ?_
    rintro _ h₂ ⟨hat₂, hfresh⟩
    exact meets_seq (keeps_runTrial hat₂ hfresh hnext' rfl rfl) fun _ h₃ hat₃ ↦ hat₃
  · rw [host_concat]
    exact hat₁

/-- The next of the repeated trials has the next number. -/
theorem runNumber_eq {n i : ℕ} {t : Trial}
    (h : done ++ [{ t with runNumber := i }] <+: t.repeated n) :
    i = done.length + 1 ∧ done.length < n := by
  obtain ⟨rest, hrest⟩ := h
  have hget : (t.repeated n)[done.length]? = some { t with runNumber := i } := by
    rw [← hrest]
    simp
  rw [Trial.repeated, List.getElem?_map, Option.map_eq_some_iff] at hget
  obtain ⟨k, hk, heq⟩ := hget
  obtain ⟨hlt, hk⟩ := List.getElem?_eq_some_iff.1 hk
  rw [List.getElem_range'] at hk
  rw [List.length_range'] at hlt
  have hi : k = i := congrArg Trial.runNumber heq
  exact ⟨by omega, hlt⟩

/-- **Trials with a reboot after each but the last.** -/
theorem keeps_repeated {turns n : ℕ} {t : Trial} {extra : List Command}
    (hat : At (t.repeated n) [] t.cmdline off (host h)) (hfresh : Fresh t.cmdline (host h))
    (hextra : extra = if off then [.writebackOff] else []) (hwriteback : t.writeback = !off) :
    Keeps (t.repeated n) (forEach (separatedTurn turns n t.memoryMax t.swapMax extra t.expName)
      (List.range' 1 n) ssh) (fun _ h' ↦ Finished (t.repeated n) (host h')) h := by
  have hpre : [] ++ (List.range' 1 n).flatMap (fun i ↦ [{ t with runNumber := i }]) <+:
      t.repeated n := by
    rw [← repeated_eq]
    exact List.prefix_refl _
  refine Meets.mono (keeps_forEach _ (fun done h ↦ At (t.repeated n) done t.cmdline off (host h) ∧
    (done.length < n → Fresh t.cmdline (host h))) ?_ ⟨hat, fun _ ↦ hfresh⟩ hpre) ?_ fun _ _ he ↦ he
  · rintro i done b h' ⟨hat', hfresh'⟩ hnext
    obtain ⟨hi, hlt⟩ := runNumber_eq hnext
    have hlen : (done ++ [{ t with runNumber := i }]).length = i := by
      rw [List.length_append, hi]
      rfl
    have hrun : Keeps (t.repeated n)
        (runTrial turns b t.memoryMax t.swapMax extra t.expName i) (fun _ h' ↦
          At (t.repeated n) (done ++ [{ t with runNumber := i }]) t.cmdline off (host h')) h' :=
      keeps_runTrial (t := { t with runNumber := i }) hat' (hfresh' hlt) hnext hextra hwriteback
    refine meets_seq hrun fun _ h₁ hat₁ ↦ ?_
    show (if _ then _ else _ : Action Bool).Meets _ _ _ _
    split_ifs with hmore
    · refine meets_seq (keeps_rebootAndWait_at hat₁) ?_
      rintro _ h₂ ⟨hat₂, hfresh₂⟩
      exact ⟨hat₂, fun _ ↦ hfresh₂⟩
    · exact ⟨hat₁, fun hlt' ↦ absurd (hlen ▸ hlt') hmore⟩
  · rintro _ h' ⟨hat', -⟩
    rw [List.nil_append, ← repeated_eq] at hat'
    exact hat'.finished

/-- **The series with different limits**: a reboot follows every trial. -/
theorem keeps_runExperimentB {turns : ℕ} (hat : At (plan .b) [] none false (host h))
    (hfresh : Fresh none (host h)) : Keeps (plan .b) (runExperimentB turns ssh)
      (fun _ h' ↦ Finished (plan .b) (host h')) h := by
  refine Meets.mono (keeps_forEach (fun mem ↦
    Trial.repeated ⟨"experiment_b_memory_".toList ++ mem, 0, none, mem, mem, true⟩ 5)
    (fun done h ↦ At (plan .b) done none false (host h) ∧ Fresh none (host h)) ?_ ⟨hat, hfresh⟩
    (List.prefix_refl (plan .b))) (fun _ _ hq ↦ hq.1.finished) fun _ _ he ↦ he
  intro mem done b h₁ hJ hnext
  rw [repeated_eq] at hnext ⊢
  refine keeps_forEach _ (fun done h ↦ At (plan .b) done none false (host h) ∧ Fresh none (host h))
    ?_ hJ hnext
  rintro j done b h₂ ⟨hat₂, hfresh₂⟩ hnext'
  exact meets_seq (keeps_runTrial hat₂ hfresh₂ hnext' rfl rfl) fun _ h₃ hat₃ ↦
    meets_seq (keeps_rebootAndWait_at hat₃) fun _ h₄ hJ₄ ↦ hJ₄

/-- **A series over values**, each with a command line and five trials under it. -/
theorem keeps_forEach_under {γ : Type} {body : γ → Bool → Action Bool} {values : List γ}
    (cmdline expName : γ → PyStr)
    (hbody : ∀ v done grub b h, At trials done grub false (host h) →
      done ++ (Trial.under (cmdline v) (expName v)).repeated 5 <+: trials →
      Keeps trials (body v b) (fun _ h' ↦ At trials
        (done ++ (Trial.under (cmdline v) (expName v)).repeated 5) (some (cmdline v)) false
        (host h')) h)
    (htrials : trials = values.flatMap fun v ↦ (Trial.under (cmdline v) (expName v)).repeated 5)
    (hat : At trials [] grub false (host h)) :
    Keeps trials (forEach body values ssh) (fun _ h' ↦ Finished trials (host h')) h := by
  subst htrials
  refine Meets.mono (keeps_forEach (fun v ↦ (Trial.under (cmdline v) (expName v)).repeated 5)
    (fun done h ↦ ∃ grub, At _ done grub false (host h)) ?_ ⟨grub, hat⟩ (List.prefix_refl _))
    (fun _ _ ⟨_, hat₁⟩ ↦ At.finished hat₁) fun _ _ he ↦ he
  rintro v done b h' ⟨grub', hat'⟩ hnext
  exact (hbody v done grub' b h' hat' hnext).mono (fun _ _ hat₁ ↦ ⟨_, hat₁⟩) fun _ _ he ↦ he

/-- A command line that begins with an option is not empty. -/
theorem append_ne_nil_of_left {option value : PyStr} (h : option ≠ []) : option ++ value ≠ [] :=
  fun heq ↦ h (List.append_eq_nil_iff.1 heq).1

/-- **A series under one command line.** -/
theorem keeps_under {turns : ℕ} {cmdline expName : PyStr} (hne : cmdline ≠ [])
    (htrials : trials = (Trial.under cmdline expName).repeated 5)
    (hat : At trials [] grub false (host h)) :
    Keeps trials (configuredTrials turns cmdline expName ssh)
      (fun _ h' ↦ Finished trials (host h')) h := by
  subst htrials
  exact (keeps_configuredTrials hne hat (List.prefix_refl _)).mono
    (fun _ _ hat₁ ↦ At.finished hat₁) fun _ _ he ↦ he

/-- **Every series keeps to its plan**, from the moment on at which nothing has been done. -/
theorem keeps_function {turns : ℕ} (experiment : Experiment)
    (hat : At (plan experiment) [] none false (host h)) (hfresh : Fresh none (host h)) :
    Keeps (plan experiment) (experiment.function turns ssh)
      (fun _ h' ↦ Finished (plan experiment) (host h')) h := by
  cases experiment with
  | a => exact keeps_repeated hat hfresh rfl rfl
  | b => exact keeps_runExperimentB hat hfresh
  | c =>
    refine keeps_forEach_under thresholdCmdline
      (fun threshold ↦ "experiment_c_accept_threshold_".toList ++ PyStr.ofInt threshold) ?_ rfl hat
    intro threshold done grub b h' hat' hnext
    exact keeps_configuredTrials (append_ne_nil_of_left (by decide)) hat' hnext
  | d =>
    refine keeps_forEach_under poolPercentCmdline
      (fun pool ↦ "experiment_d_max_pool_percent_".toList ++ PyStr.ofInt pool) ?_ rfl hat
    intro pool done grub b h' hat' hnext
    exact keeps_configuredTrials (append_ne_nil_of_left (by decide)) hat' hnext
  | e =>
    refine keeps_forEach_under compressorCmdline
      (fun comp ↦ "experiment_e_compressor_".toList ++ comp) ?_ rfl hat
    intro comp done grub b h' hat' hnext
    exact meets_seq (keeps_insertModule hat') fun _ h₁ hat₁ ↦
      keeps_configuredTrials (append_ne_nil_of_left (by decide)) hat₁ hnext
  | f =>
    refine keeps_forEach_under zpoolCmdline (fun pool ↦ "experiment_f_zpool_".toList ++ pool) ?_ rfl
      hat
    intro pool done grub b h' hat' hnext
    exact meets_seq (keeps_insertModule hat') fun _ h₁ hat₁ ↦
      keeps_configuredTrials (append_ne_nil_of_left (by decide)) hat₁ hnext
  | g => exact keeps_under (by decide) rfl hat
  | h => exact keeps_under (by decide) rfl hat
  | i => exact keeps_under (by decide) rfl hat
  | j => exact keeps_under (by decide) rfl hat
  | k =>
    have hoff : At (plan .k) [] none true (host h) :=
      ⟨hat.fetched, hat.started, hat.done_prefix, hat.grub_eq, fun hfalse ↦ Bool.noConfusion hfalse⟩
    exact keeps_repeated hoff hfresh rfl rfl

/-- **The preparation** leaves what is known of the host as it is. -/
theorem keeps_setupExperiments {Q : Unit → Log → Prop} (hplan : OnPlan trials (host h))
    (hQ : ∀ h', host h' = host h → Q () h') : Keeps trials setupExperiments Q h := by
  have hsame : ∀ (c : Command) (reply : Reply), reply.exitCode = 0 →
      c = .resetResults ∨ c = .chmodSetup → (host h).executed c (some reply) = host h := by
    rintro c reply hok (rfl | rfl)
    · exact if_pos hok
    · exact if_pos hok
  refine meets_seq (R := fun _ h' ↦ host h' = host h) (keeps_execute trivial hplan
    (onPlan_executed hplan rfl) fun reply h' hok hh ↦ hh.trans (hsame _ _ hok (.inl rfl))) ?_
  rintro - h₁ hh₁
  have hrequire : ∀ (ok : Bool) (h' : Log), host h' = host h →
      Keeps trials (require ok (.systemExit 1)) (fun _ h'' ↦ host h'' = host h) h' := by
    intro ok h' hh'
    refine meets_require.2 ?_
    split_ifs
    · exact hh'
    · rw [hh']
      exact hplan
  refine meets_ask.2 ⟨trivial, fun found ↦ meets_seq (hrequire found _ (host_concat.trans hh₁)) ?_⟩
  rintro - h₂ hh₂
  refine meets_ask.2 ⟨trivial, fun copied ↦ meets_seq (hrequire copied _ ?_) ?_⟩
  · rw [host_concat, hh₂]
    cases copied <;> rfl
  rintro - h₃ hh₃
  refine meets_seq (keeps_execute trivial (by rw [hh₃]; exact hplan)
    (onPlan_executed (by rw [hh₃]; exact hplan) rfl) fun reply h₄ hok hh₄ ↦ ?_) fun _ _ hq ↦ hq
  refine hQ h₄ (hh₄.trans ?_)
  rw [hh₃]
  exact hsame _ _ hok (.inr rfl)

end Rules

/-- The trials of a series have different names and numbers. -/
theorem nodup_plan (experiment : Experiment) : ((plan experiment).map Trial.key).Nodup := by
  cases experiment <;> decide +kernel

theorem OnPlan.nodup_fetched {s : Host} (experiment : Experiment)
    (hs : OnPlan (plan experiment) s) : s.fetched.Nodup := by
  obtain ⟨done, hfetched, hrest⟩ := hs
  have hpre : done <+: plan experiment := by
    obtain ⟨hpre, -⟩ | ⟨t, hpre, -⟩ := hrest
    · exact hpre
    · exact (List.prefix_append done [t]).trans hpre
  rw [hfetched]
  exact (nodup_plan experiment).sublist (hpre.map Trial.key).sublist

/-- **The runner keeps to the plan**, whatever the host, the network and the clock answer, and
however far it comes: every trial is started on a host that is ready for it, results are fetched
only of the last trial and after its flag was seen, and there is no reboot before they are fetched.
What has been fetched is the results of the first trials of the plan, each once; where the runner
returns, it is those of all trials. -/
theorem main_keepsPlan (turns : ℕ) (experiment : Experiment) (env : Env Cmd Ans) :
    let r := (main turns experiment).run env []
    Safe (fun h c ↦ Allowed (plan experiment) (host h) c) r.1 ∧
      OnPlan (plan experiment) (host r.1) ∧
      (host r.1).fetched.Nodup ∧
      ((∃ u, r.2 = .ok u) → (host r.1).fetched = (plan experiment).map Trial.key) := by
  intro r
  have hinit : OnPlan (plan experiment) (host []) := ⟨[], rfl, .inl ⟨List.nil_prefix, rfl⟩⟩
  have hmain : Keeps (plan experiment) (main turns experiment)
      (fun _ h ↦ Finished (plan experiment) (host h)) [] := by
    refine meets_ask.2 ⟨trivial, fun found ↦ ?_⟩
    refine meets_seq (R := fun _ h ↦ host h = Host.init) (meets_require.2 ?_) fun _ h₁ hh₁ ↦ ?_
    · split_ifs
      · exact host_concat
      · rw [host_concat]
        exact hinit
    refine meets_seq (R := fun _ h ↦ host h = Host.init) (keeps_setupExperiments
      (by rw [hh₁]; exact hinit) fun h₂ hh₂ ↦ hh₂.trans hh₁) fun _ h₂ hh₂ ↦ ?_
    refine meets_seq (keeps_function experiment ?_ ?_) fun _ _ hq ↦ hq
    · rw [hh₂]
      exact ⟨rfl, rfl, List.nil_prefix, rfl, fun _ ↦ rfl⟩
    · rw [hh₂]
      exact fun _ ↦ ⟨rfl, rfl⟩
  obtain ⟨hsafe, hok, herror⟩ := hmain.run safe_nil env
  have hplan : OnPlan (plan experiment) (host r.1) := by
    cases hr : r.2 with
    | ok u => exact (hok u hr).onPlan
    | error e => exact herror e hr
  exact ⟨hsafe, hplan, hplan.nodup_fetched experiment, fun ⟨u, hu⟩ ↦ (hok u hu).1⟩

end Remote

end Zswap
