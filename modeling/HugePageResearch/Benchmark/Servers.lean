import HugePageResearch.Benchmark.Phases

/-!
# The servers of the YCSB benchmarks

`poll`, `wait`, `kill` and `end_server` of the three benchmarks, and any sequence of calls of `run`
and these methods on one object. `run` sets `self.server` at once and `self.process` at its very
end, and a method that is called before raises `BenchmarkNotRunningError` and calls nothing; so the
polling thread, which calls the methods while `run` is going on, adds nothing to the sequences of
whole calls.

The three classes differ in how they stop the server. On redis a server that takes too long is
terminated. On memcached `wait` raises instead, so the branch that terminates is never taken and the
server stays set. On MongoDB `kill` interrupts the server before `end_server` asks it to drop the
databases.
-/

namespace Benchmark

open Script

/-! ### The methods -/

/-- `end_server`. -/
def Service.endServer (self : Attributes) : Service → Action Unit
  | redis _ => .when self.server do
    tell .dbsize
    tell .sigint
    let inTime ← ask .waitServer
    .when (!inTime) (tell .terminateServer)
    tell .clearServer
  | memcached _ => .when self.server do
    tell .sigint
    let inTime ← ask .waitServer
    require inTime .timeoutExpired
    tell .clearServer
  | mongodb _ => .when self.server do
    let dropped ← ask .dropDatabases
    require dropped .mongoError
    tell .terminateServer
    tell .clearServer

/-- `poll`. -/
def Service.poll (service : Service) (self : Attributes) : Action (Option ℤ) := do
  require self.process .notRunning
  let ret ← (ask Cmd.pollRun : Action (Option ℤ))
  .when ret.isSome (service.endServer self)
  pure ret

/-- `wait`. -/
def Service.wait (service : Service) (self : Attributes) : Action Unit := do
  require self.process .notRunning
  tell .waitRun
  service.endServer self

/-- `kill`. -/
def Service.kill (service : Service) (self : Attributes) : Action Unit := do
  require self.process .notRunning
  match service with
  | mongodb _ =>
    .when self.server do
      tell .sigint
      let inTime ← ask .waitServer
      require inTime .timeoutExpired
  | _ => tell .terminateRun
  service.endServer self

/-- The methods that are called from outside. -/
inductive Method where
  | run
  | poll
  | wait
  | kill
  deriving DecidableEq

/-- A method; the result is whether the workload has ended. -/
def Service.method (timeparse : PyStr → Option ℚ) (service : Service) (self : Attributes) :
    Method → Action Bool
  | .run => do
    service.run timeparse self
    pure false
  | .poll => do
    let ret ← service.poll self
    pure ret.isSome
  | .wait => do
    service.wait self
    pure true
  | .kill => do
    service.kill self
    pure true

/-! ### The life of the server -/

/-- What the history says about the server. -/
structure Life where
  /-- How many servers were started. -/
  starts : ℕ
  /-- How often `SIGINT` was sent. -/
  interrupts : ℕ
  /-- How often `wait(10)` took too long. -/
  lates : ℕ
  /-- How often `SIGTERM` was sent. -/
  terminations : ℕ
  /-- `self.process` and `self.server`. -/
  self : Attributes

/-- What an event changes. -/
def Life.step (l : Life) : Event Cmd Ans → Life
  | ⟨.startServer _, _⟩ => { l with starts := l.starts + 1, self := { l.self with server := true } }
  | ⟨.sigint, _⟩ => { l with interrupts := l.interrupts + 1 }
  | ⟨.waitServer, inTime⟩ => { l with lates := if (inTime : Bool) then l.lates else l.lates + 1 }
  | ⟨.terminateServer, _⟩ => { l with terminations := l.terminations + 1 }
  | ⟨.setProcess, _⟩ => { l with self := { l.self with process := true } }
  | ⟨.clearServer, _⟩ => { l with self := { l.self with server := false } }
  | _ => l

/-- A new object. -/
def Life.fresh : Life := ⟨0, 0, 0, 0, ⟨false, false⟩⟩

/-- After a history. -/
def life (h : Log) : Life := h.foldl Life.step .fresh

/-- A sequence of calls on one object, whatever each of them returns or raises. -/
def Service.session (timeparse : PyStr → Option ℚ) (service : Service) (env : Env Cmd Ans) :
    List Method → Log → Log
  | [], h => h
  | m :: ms, h =>
    service.session timeparse env ms ((service.method timeparse (life h).self m).run env h).1

/-- The server is up: what has been tried to stop it. -/
def Service.Up (l : Life) : Service → Prop
  | redis _ => l.starts = 1 ∧ l.self.server = true ∧
      l.interrupts = 0 ∧ l.lates = 0 ∧ l.terminations = 0
  | memcached _ => l.starts = 1 ∧ l.self.server = true ∧
      l.interrupts = l.lates ∧ l.terminations = 0
  | mongodb _ => l.starts = 1 ∧ l.self.server = true ∧ l.terminations = 0

/-- The server was stopped: how. -/
def Service.Down (l : Life) : Service → Prop
  | redis _ => l.starts = 1 ∧ l.self = ⟨true, false⟩ ∧
      l.interrupts = 1 ∧ l.lates ≤ 1 ∧ l.terminations = l.lates
  | memcached _ => l.starts = 1 ∧ l.self = ⟨true, false⟩ ∧
      l.interrupts = l.lates + 1 ∧ l.terminations = 0
  | mongodb _ => l.starts = 1 ∧ l.self = ⟨true, false⟩ ∧ l.terminations = 1

/-- The three stages of an object. -/
def Service.Stage (service : Service) (l : Life) : Prop :=
  l = .fresh ∨ service.Up l ∨ service.Down l

/-- When a call may be made, as far as the server is concerned: a server is started once, only a
server that is set is signalled or gets records and workloads, and only a workload that is kept is
polled or terminated. -/
def LifeAllowed (h : Log) : Cmd → Prop
  | .startServer _ => life h = .fresh
  | .load _ _ => (life h).self.server = true
  | .spawnRun _ => (life h).self.server = true
  | .sigint => (life h).self.server = true
  | .waitServer => (life h).self.server = true
  | .dropDatabases => (life h).self.server = true
  | .terminateServer => (life h).self.server = true
  | .clearServer => (life h).self.server = true
  | .pollRun => (life h).self.process = true
  | .terminateRun => (life h).self.process = true
  | _ => True

variable {h : Log} {c : Cmd} {service : Service}

@[simp] theorem life_concat {e : Event Cmd Ans} : life (h ++ [e]) = (life h).step e := by
  rw [life, List.foldl_concat]
  rfl

/-! ### Starting the server -/

/-- A call of `run` that does not start the server. -/
def Cmd.ofRun : Cmd → Bool
  | .startServer _ => false
  | .pollRun => false
  | .terminateRun => false
  | .sigint => false
  | .waitServer => false
  | .dropDatabases => false
  | .terminateServer => false
  | .clearServer => false
  | _ => true

theorem lifeAllowed_of_ofRun (hc : c.ofRun = true) (hserver : (life h).self.server = true) :
    LifeAllowed h c := by
  cases c with
  | startServer _ | pollRun | terminateRun | sigint | waitServer => cases hc
  | dropDatabases | terminateServer | clearServer => cases hc
  | load _ _ | spawnRun _ => exact hserver
  | _ => trivial

/-- Such a call changes nothing but `self.process`. -/
theorem step_of_ofRun (hc : c.ofRun = true) (hne : c ≠ .setProcess) (l : Life) (a : Ans c) :
    l.step ⟨c, a⟩ = l := by
  cases c with
  | startServer _ | pollRun | terminateRun | sigint | waitServer => cases hc
  | dropDatabases | terminateServer | clearServer => cases hc
  | setProcess => exact absurd rfl hne
  | _ => rfl

theorem Service.Up.ofRun (hup : service.Up (life h)) (hc : c.ofRun = true) {a : Ans c} :
    service.Up (life (h ++ [⟨c, a⟩])) := by
  rw [life_concat]
  by_cases hset : c = .setProcess
  · subst hset
    cases service <;> exact hup
  · rwa [step_of_ofRun hc hset]

theorem Service.Up.server {l : Life} (hup : service.Up l) : l.self.server = true := by
  cases service <;> exact hup.2.1

/-- What a part of a method demands of the life of the server: it leads from one stage to another,
also where it raises. -/
abbrev Lives {α : Type} (service : Service) (s : Action α) (Q : α → Log → Prop) (h : Log) : Prop :=
  s.Meets LifeAllowed Q (fun _ h ↦ service.Stage (life h)) h

/-- **A part of `run` with the server up.** -/
theorem lives_of_only {α : Type} {s : Action α} (hs : s.Only fun c ↦ c.ofRun = true)
    (hup : service.Up (life h)) : Lives service s (fun _ h ↦ service.Up (life h)) h :=
  (hs.meets (I := fun h ↦ service.Up (life h)) (fun _ _ hc hup ↦ lifeAllowed_of_ofRun hc hup.server)
    (fun _ _ _ hc hup ↦ hup.ofRun hc) hup).mono (fun _ _ hup ↦ hup) fun _ _ hup ↦ .inr (.inl hup)

theorem ofRun_purgeServer : purgeServer.Only fun c ↦ c.ofRun = true :=
  only_ask rfl fun _ ↦ only_require _ _

theorem ofRun_finishRun (timeparse : PyStr → Option ℚ) (purge : Bool) (sleep : Option PyStr)
    (message : PyStr) (process : Bool) :
    (finishRun timeparse purge sleep message process).Only fun c ↦ c.ofRun = true := by
  have hsleep := @only_sleepFor (fun c ↦ c.ofRun = true) fun _ ↦ rfl
  refine Only.when fun _ ↦ only_ask rfl fun returncode ↦ ?_
  refine Only.bind (Only.when fun _ ↦ ofRun_purgeServer) fun _ ↦ ?_
  refine Only.bind (hsleep _) fun _ ↦ Only.when fun _ ↦ ?_
  exact only_tell rfl trivial

theorem ofRun_loops (timeparse : PyStr → Option ℚ) (service : Service) :
    (service.loops timeparse).Only fun c ↦ c.ofRun = true := by
  have hload : ∀ insertStart recordCount message,
      (loadRecords insertStart recordCount message).Only fun c ↦ c.ofRun = true :=
    fun _ _ _ ↦ only_ask rfl fun _ ↦ only_require _ _
  have hserial : ∀ config runFailed loadFailed i process,
      (serialTurn timeparse config runFailed loadFailed i process).Only fun c ↦ c.ofRun = true := by
    intro config runFailed loadFailed i process
    refine Only.bind (ofRun_finishRun _ _ _ _ _) fun _ ↦ Only.bind (hload _ _ _) fun _ ↦ ?_
    exact only_tell rfl trivial
  cases service with
  | redis config =>
    refine Only.forRange (fun outI process ↦ Only.forRange (fun i process ↦ ?_) _ _) _ _
    refine Only.bind (ofRun_finishRun _ _ _ _ _) fun _ ↦ Only.bind (Only.when fun _ ↦ ?_) fun _ ↦ ?_
    · exact Only.bind (hload _ _ _) fun _ ↦ Only.when fun _ ↦ ofRun_purgeServer
    · exact only_tell rfl (only_tell rfl trivial)
  | memcached config => exact Only.forRange (fun i process ↦ hserial _ _ _ _ _) _ _
  | mongodb config => exact Only.forRange (fun i process ↦ hserial _ _ _ _ _) _ _

/-- A call of `run` that comes before the server is started. -/
def Cmd.beforeServer : Cmd → Bool
  | .dumpExists => true
  | .moveDump => true
  | .shutdown => true
  | .moduleExists => true
  | .sleep _ => true
  | _ => false

/-- Before the server is started. -/
theorem lives_new {α : Type} {s : Action α} (hs : s.Only fun c ↦ c.beforeServer = true)
    (hnew : life h = .fresh) : Lives service s (fun _ h ↦ life h = .fresh) h := by
  have hcall : ∀ h c, c.beforeServer = true → LifeAllowed h c ∧
      ∀ (a : Ans c) (l : Life), l.step ⟨c, a⟩ = l := by
    intro h c hc
    cases c with
    | dumpExists | moveDump | shutdown | moduleExists | sleep _ =>
      exact ⟨trivial, fun _ _ ↦ rfl⟩
    | _ => cases hc
  refine (hs.meets (I := fun h ↦ life h = .fresh) (fun h c hc _ ↦ (hcall h c hc).1)
    (fun h c a hc hnew ↦ ?_) hnew).mono (fun _ _ hnew ↦ hnew) fun _ _ hnew ↦ .inl hnew
  rw [life_concat, (hcall h c hc).2, hnew]

/-- **The server is started once**, by a new object. -/
theorem lives_start (hnew : life h = .fresh) :
    Lives service service.start (fun _ h ↦ service.Up (life h)) h := by
  have hawait := @only_awaitServer (fun c ↦ c.ofRun = true) rfl fun _ ↦ rfl
  have hstart : ∀ {h : Log} {loadModule : Bool} {a : Unit}, life h = .fresh →
      service.Up (life (h ++ [⟨.startServer loadModule, a⟩])) := by
    intro h loadModule a hnew
    rw [life_concat, hnew]
    cases service with
    | redis config => exact ⟨rfl, rfl, rfl, rfl, rfl⟩
    | memcached config => exact ⟨rfl, rfl, rfl, rfl⟩
    | mongodb config => exact ⟨rfl, rfl, rfl⟩
  cases service with
  | redis config =>
    refine meets_seq (lives_new (Only.when fun _ ↦ only_ask rfl fun there ↦
      Only.when fun _ ↦ only_exec.2 rfl) hnew) fun _ h₁ hnew₁ ↦ ?_
    refine meets_seq (s := ask .shutdown) (lives_new (only_exec.2 rfl) hnew₁)
      fun inTime h₂ hnew₂ ↦ ?_
    refine meets_seq (lives_new (only_require _ _) hnew₂) fun _ h₃ hnew₃ ↦ ?_
    refine meets_seq (lives_new (only_exec.2 rfl) hnew₃) fun _ h₄ hnew₄ ↦ ?_
    refine meets_seq (s := ask .moduleExists) (lives_new (only_exec.2 rfl) hnew₄)
      fun vaptrSo h₅ hnew₅ ↦ ?_
    refine meets_tell.2 ⟨hnew₅, fun a ↦ lives_of_only ?_ (hstart hnew₅)⟩
    exact only_tell rfl (hawait _)
  | memcached config =>
    refine meets_tell.2 ⟨hnew, fun a ↦ lives_of_only ?_ (hstart hnew)⟩
    refine Only.bind (hawait _) fun _ ↦ ?_
    exact only_ask rfl fun _ ↦ only_require _ _
  | mongodb config =>
    exact meets_tell.2 ⟨hnew, fun a ↦ lives_of_only (hawait _) (hstart hnew)⟩

/-- An object whose attributes are not set is a new one. -/
theorem Service.Stage.fresh {l : Life} (hl : service.Stage l) (hprocess : l.self.process = false)
    (hserver : l.self.server = false) : l = .fresh := by
  rcases hl with hl | hup | hdown
  · exact hl
  · have hset := hup.server
    rw [hserver] at hset
    cases hset
  · have hset : l.self = ⟨true, false⟩ := by cases service <;> exact hdown.2.1
    rw [hset] at hprocess
    cases hprocess

/-- A check that raises changes nothing. -/
theorem lives_require {α : Type} {ok : Bool} {e : BenchmarkException} {f : Unit → Action α}
    {Q : α → Log → Prop} (hl : service.Stage (life h)) (hf : ok = true → Lives service (f ()) Q h) :
    Lives service (require ok e >>= f) Q h := by
  cases ok with
  | false => exact hl
  | true => exact hf rfl

/-- **`run`** leads from one stage to another, and returns with the server up. -/
theorem lives_run (timeparse : PyStr → Option ℚ) (hl : service.Stage (life h)) :
    Lives service (service.run timeparse (life h).self) (fun _ h ↦ service.Up (life h)) h := by
  have hsleep := @only_sleepFor (fun c ↦ c.ofRun = true) fun _ ↦ rfl
  refine meets_seq (R := fun _ h' ↦ h' = h ∧ life h = .fresh) ?_ ?_
  · refine lives_require hl fun hprocess ↦ meets_require.2 ?_
    split_ifs with hserver
    · exact ⟨rfl, hl.fresh (by simpa using hprocess) (by simpa using hserver)⟩
    · exact hl
  · rintro _ h ⟨rfl, hnew⟩
    refine meets_seq (lives_start hnew) fun _ h₁ hup₁ ↦ ?_
    refine meets_seq (lives_of_only (hsleep _) hup₁) fun _ h₂ hup₂ ↦ ?_
    refine meets_seq (lives_of_only (ofRun_loops timeparse service) hup₂) fun process h₃ hup₃ ↦ ?_
    exact lives_of_only (Only.when fun _ ↦ only_exec.2 rfl) hup₃

/-! ### Stopping the server -/

/-- **`end_server`** of a server that is up, with the workload kept: the server goes down, unless
the method raises. -/
theorem lives_endServer (hup : service.Up (life h)) (hprocess : (life h).self.process = true)
    {self : Attributes} (hself : self.server = true) :
    Lives service (service.endServer self) (fun _ h ↦ service.Down (life h)) h := by
  have hset : ∀ {a : Attributes}, a.process = true →
      (⟨a.process, false⟩ : Attributes) = ⟨true, false⟩ := fun h ↦ by rw [h]
  cases service with
  | redis config =>
    obtain ⟨hstarts, hserver, hinterrupts, hlates, hterminations⟩ := hup
    refine meets_when.2 ?_
    rw [if_pos hself]
    refine meets_tell.2 ⟨trivial, fun _ ↦ meets_tell.2 ⟨?_, fun _ ↦ meets_ask.2 ⟨?_, ?_⟩⟩⟩
    · rw [LifeAllowed, life_concat]
      exact hserver
    · rw [LifeAllowed, life_concat, life_concat]
      exact hserver
    · intro inTime
      refine meets_seq (R := fun _ h' ↦ (life h').starts = 1 ∧ (life h').self = (life h).self ∧
        (life h').interrupts = 1 ∧ (life h').lates ≤ 1 ∧
          (life h').terminations = (life h').lates) (meets_when.2 ?_) ?_
      · cases inTime with
        | true =>
          rw [if_neg (by decide), life_concat, life_concat, life_concat]
          refine ⟨hstarts, rfl, congrArg (· + 1) hinterrupts, ?_, hterminations.trans hlates.symm⟩
          exact Nat.le_trans (Nat.le_of_eq hlates) (Nat.zero_le 1)
        | false =>
          rw [if_pos (by decide)]
          refine meets_last.2 ⟨?_, fun _ ↦ ?_⟩
          · rw [LifeAllowed, life_concat, life_concat, life_concat]
            exact hserver
          · rw [life_concat, life_concat, life_concat, life_concat]
            exact ⟨hstarts, rfl, congrArg (· + 1) hinterrupts,
              Nat.le_of_eq (congrArg (· + 1) hlates),
              congrArg (· + 1) (hterminations.trans hlates.symm)⟩
      · rintro _ h' ⟨hstarts, hsame, hcounts⟩
        refine meets_last.2 ⟨?_, fun _ ↦ ?_⟩
        · rw [LifeAllowed, hsame]
          exact hserver
        · rw [life_concat]
          exact ⟨hstarts, hset (hsame ▸ hprocess), hcounts⟩
  | memcached config =>
    obtain ⟨hstarts, hserver, hinterrupts, hterminations⟩ := hup
    refine meets_when.2 ?_
    rw [if_pos hself]
    refine meets_tell.2 ⟨hserver, fun _ ↦ meets_ask.2 ⟨?_, fun inTime ↦ ?_⟩⟩
    · rw [LifeAllowed, life_concat]
      exact hserver
    · cases inTime with
      | true =>
        refine meets_last.2 ⟨?_, fun _ ↦ ?_⟩
        · rw [LifeAllowed, life_concat, life_concat]
          exact hserver
        · rw [life_concat, life_concat, life_concat]
          exact ⟨hstarts, hset hprocess, congrArg (· + 1) hinterrupts, hterminations⟩
      | false =>
        refine .inr (.inl ?_)
        rw [life_concat, life_concat]
        exact ⟨hstarts, hserver, congrArg (· + 1) hinterrupts, hterminations⟩
  | mongodb config =>
    obtain ⟨hstarts, hserver, hterminations⟩ := hup
    refine meets_when.2 ?_
    rw [if_pos hself]
    refine meets_ask.2 ⟨hserver, fun dropped ↦ ?_⟩
    cases dropped with
    | true =>
      refine meets_tell.2 ⟨?_, fun _ ↦ meets_last.2 ⟨?_, fun _ ↦ ?_⟩⟩
      · rw [LifeAllowed, life_concat]
        exact hserver
      · rw [LifeAllowed, life_concat, life_concat]
        exact hserver
      · rw [life_concat, life_concat, life_concat]
        exact ⟨hstarts, hset hprocess, congrArg (· + 1) hterminations⟩
    | false =>
      refine .inr (.inl ?_)
      rw [life_concat]
      exact ⟨hstarts, hserver, hterminations⟩

/-- **`end_server`** of an object whose workload is kept. -/
theorem lives_stop (hl : service.Stage (life h)) (hprocess : (life h).self.process = true) :
    Lives service (service.endServer (life h).self) (fun _ h ↦ service.Down (life h)) h := by
  rcases hl with hnew | hup | hdown
  · rw [hnew] at hprocess
    cases hprocess
  · exact lives_endServer hup hprocess hup.server
  · have hself : (life h).self = ⟨true, false⟩ := by cases service <;> exact hdown.2.1
    rw [hself]
    cases service <;> exact hdown

/-- A call that does not touch the server. -/
theorem life_concat_of_eq {a : Ans c} (hc : ∀ l : Life, l.step ⟨c, a⟩ = l) :
    life (h ++ [⟨c, a⟩]) = life h := life_concat.trans (hc _)

theorem Service.Down.server {l : Life} (hdown : service.Down l) : l.self.server = false := by
  have hself : l.self = ⟨true, false⟩ := by cases service <;> exact hdown.2.1
  rw [hself]

/-- What holds after a method: a stage, and no server where the workload has ended. -/
def After (service : Service) (ended : Bool) (h : Log) : Prop :=
  service.Stage (life h) ∧ (ended = true → (life h).self.server = false)

theorem after_of_down (hdown : service.Down (life h)) (ended : Bool) : After service ended h :=
  ⟨.inr (.inr hdown), fun _ ↦ hdown.server⟩

/-- The stop after a call that does not touch the server. -/
theorem lives_stop_after (hl : service.Stage (life h)) (hprocess : (life h).self.process = true)
    {a : Ans c} (hc : ∀ l : Life, l.step ⟨c, a⟩ = l) :
    Lives service (service.endServer (life h).self) (fun _ h ↦ service.Down (life h))
      (h ++ [⟨c, a⟩]) := by
  have hsame : life (h ++ [⟨c, a⟩]) = life h := life_concat_of_eq hc
  rw [← hsame] at hl hprocess ⊢
  exact lives_stop hl hprocess

/-- **`kill`**: on MongoDB the server is interrupted before it is asked anything. -/
theorem lives_kill (hl : service.Stage (life h)) :
    Lives service (service.kill (life h).self) (fun _ h ↦ service.Down (life h)) h := by
  refine lives_require hl fun hprocess ↦ ?_
  cases service with
  | redis config =>
    exact meets_tell.2 ⟨hprocess, fun a ↦ lives_stop_after hl hprocess fun _ ↦ rfl⟩
  | memcached config =>
    exact meets_tell.2 ⟨hprocess, fun a ↦ lives_stop_after hl hprocess fun _ ↦ rfl⟩
  | mongodb config =>
    cases hserver : (life h).self.server with
    | false =>
      refine meets_seq (R := fun _ h' ↦ h' = h) (meets_when.2 ?_) ?_
      · exact rfl
      · rintro _ h rfl
        exact lives_stop hl hprocess
    | true =>
      have hup : (Service.mongodb config).Up (life h) := by
        rcases hl with hnew | hup | hdown
        · rw [hnew] at hserver
          cases hserver
        · exact hup
        · rw [hdown.server] at hserver
          cases hserver
      obtain ⟨hstarts, hset, hterminations⟩ := hup
      refine meets_seq (R := fun _ h' ↦ (Service.mongodb config).Up (life h') ∧
        (life h').self.process = true) (meets_when.2 ?_) fun _ h' hafter ↦ ?_
      · rw [if_pos rfl]
        refine meets_tell.2 ⟨hset, fun _ ↦ meets_ask.2 ⟨?_, fun inTime ↦ meets_require.2 ?_⟩⟩
        · rw [LifeAllowed, life_concat]
          exact hset
        · rw [life_concat, life_concat]
          split_ifs
          · exact ⟨⟨hstarts, hset, hterminations⟩, hprocess⟩
          · exact .inr (.inl ⟨hstarts, hset, hterminations⟩)
      · exact lives_endServer hafter.1 hafter.2 hserver

/-- **Every method** leads from one stage to another. -/
theorem lives_method (timeparse : PyStr → Option ℚ) (hl : service.Stage (life h)) (m : Method) :
    Lives service (service.method timeparse (life h).self m) (After service) h := by
  cases m with
  | run =>
    refine meets_seq (lives_run timeparse hl) fun _ h₁ hup ↦ ?_
    exact ⟨.inr (.inl hup), fun hend ↦ absurd hend Bool.false_ne_true⟩
  | poll =>
    refine meets_seq (R := fun ret : Option ℤ ↦ After service ret.isSome) ?_
      fun ret h₁ hafter ↦ hafter
    refine lives_require hl fun hprocess ↦ meets_ask.2 ⟨hprocess, fun ret ↦ ?_⟩
    refine meets_seq (R := fun _ ↦ After service ret.isSome) ?_ fun _ h₁ hafter ↦ hafter
    refine meets_when.2 ?_
    split_ifs with hret
    · exact (lives_stop_after hl hprocess fun _ ↦ rfl).mono (fun _ _ hdown ↦ after_of_down hdown _)
        fun _ _ hstage ↦ hstage
    · refine ⟨?_, fun hend ↦ absurd hend hret⟩
      rwa [life_concat_of_eq fun _ ↦ rfl]
  | wait =>
    refine meets_seq (R := fun _ h ↦ service.Down (life h)) ?_
      fun _ h₁ hdown ↦ after_of_down hdown _
    refine lives_require hl fun hprocess ↦ meets_tell.2 ⟨trivial, fun a ↦ ?_⟩
    exact lives_stop_after hl hprocess fun _ ↦ rfl
  | kill => exact meets_seq (lives_kill hl) fun _ h₁ hdown ↦ after_of_down hdown _

/-! ### Sequences of calls -/

/-- **Every sequence of calls** makes allowed calls only and ends in a stage. -/
theorem stage_session (timeparse : PyStr → Option ℚ) (service : Service) (env : Env Cmd Ans)
    (ms : List Method) (hsafe : Safe LifeAllowed h) (hl : service.Stage (life h)) :
    Safe LifeAllowed (service.session timeparse env ms h) ∧
      service.Stage (life (service.session timeparse env ms h)) := by
  induction ms generalizing h with
  | nil => exact ⟨hsafe, hl⟩
  | cons m ms ih =>
    obtain ⟨hsafe', hok, herror⟩ := (lives_method timeparse hl m).run hsafe env
    refine ih hsafe' ?_
    rcases hend : ((service.method timeparse (life h).self m).run env h).2 with e | ended
    · exact herror e hend
    · exact (hok ended hend).1

/-- A method that reports the end of the workload leaves no server set. -/
def Service.EndsServer (timeparse : PyStr → Option ℚ) (service : Service) (env : Env Cmd Ans)
    (h : Log) : Prop :=
  ∀ m, ((service.method timeparse (life h).self m).run env h).2 = .ok true →
    (life ((service.method timeparse (life h).self m).run env h).1).self.server = false

/-- **The server over any sequence of calls.** On a new object, whatever the methods return or raise
and whatever the outside answers: a server is started only if none ever was, only a server that is
set is signalled or gets records and workloads, and only a workload that is kept is polled or
terminated; the object is always new, up or down, with the numbers of signals that `Up` and `Down`
say. A method that reports the end of the workload leaves no server set. -/
theorem session_signals (timeparse : PyStr → Option ℚ) (service : Service) (env : Env Cmd Ans)
    (ms : List Method) :
    Safe LifeAllowed (service.session timeparse env ms []) ∧
      service.Stage (life (service.session timeparse env ms [])) ∧
      service.EndsServer timeparse env (service.session timeparse env ms []) := by
  obtain ⟨hsafe, hl⟩ := stage_session (h := []) timeparse service env ms safe_nil (.inl rfl)
  refine ⟨hsafe, hl, fun m hend ↦ ?_⟩
  obtain ⟨-, hok, -⟩ := (lives_method timeparse hl m).run hsafe env
  exact (hok true hend).2 rfl

/-- Without a workload, a server that is set keeps every method from doing anything. -/
theorem session_of_unset (timeparse : PyStr → Option ℚ) (service : Service) (env : Env Cmd Ans)
    (ms : List Method) (hself : (life h).self = ⟨false, true⟩) :
    service.session timeparse env ms h = h := by
  induction ms with
  | nil => rfl
  | cons m ms ih =>
    have hsame : ((service.method timeparse (life h).self m).run env h).1 = h := by
      rw [hself]
      cases m <;> rfl
    rw [Service.session, hsame, ih]

/-- **A failed start is final.** If `run` raises after it has started the server and before it has
kept a workload, then the server stays set for good: no sequence of calls does anything any more. -/
theorem session_of_failed_run (timeparse : PyStr → Option ℚ) (service : Service)
    {env : Env Cmd Ans} {e : BenchmarkException} {h : Log}
    (hrun : (service.run timeparse ⟨false, false⟩).run env [] = (h, .error e))
    (hstarted : (life h).starts ≠ 0) (hprocess : (life h).self.process = false)
    (env' : Env Cmd Ans) (ms : List Method) :
    (life h).self.server = true ∧ service.session timeparse env' ms h = h := by
  have hlives : Lives service (service.run timeparse (life []).self)
      (fun _ h ↦ service.Up (life h)) [] := lives_run timeparse (.inl rfl)
  obtain ⟨-, -, herror⟩ := hlives.run safe_nil env
  have hrun' : (service.run timeparse (life []).self).run env [] = (h, .error e) := hrun
  rw [hrun'] at herror
  have hserver : (life h).self.server = true := by
    rcases herror e rfl with hnew | hup | hdown
    · exact absurd (by rw [show life h = _ from hnew]; rfl) hstarted
    · exact hup.server
    · have hself : (life h).self = ⟨true, false⟩ := by cases service <;> exact hdown.2.1
      rw [hself] at hprocess
      cases hprocess
  refine ⟨hserver, session_of_unset timeparse service env' ms ?_⟩
  calc (life h).self = ⟨(life h).self.process, (life h).self.server⟩ := rfl
    _ = ⟨false, true⟩ := by rw [hprocess, hserver]

/-- As `calmEnv`, but the load fails. -/
def failingLoad : Env Cmd Ans
  | _, .load _ _ => (1 : ℤ)
  | h, c => calmEnv h c

theorem session_of_failedLoad : ∃ h, (life h).self.server = true ∧
    (Service.redis twoRecords).session (fun _ ↦ none) calmEnv [.poll, .wait, .kill, .run] h = h :=
  ⟨_, @session_of_failed_run (fun _ ↦ none) (.redis twoRecords) failingLoad _ _ rfl
    (Nat.succ_ne_zero 0) rfl calmEnv [.poll, .wait, .kill, .run]⟩

end Benchmark
