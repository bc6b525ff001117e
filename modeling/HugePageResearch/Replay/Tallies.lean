import HugePageResearch.Replay.Replayer

/-!
# What a replay returns

`replay` of `data_collection/replay_trace.py` documents its first result as the number of commands
replayed. It does not count them: it sums the counters of the keys. A command that succeeds without
a key, or on the empty key, is in no counter.

## The result

`replay_returnsCounts_iff`: a replay that returns has counted its page breaks, and it has counted
its commands exactly where each one that succeeded has a key.
-/

namespace Replay

open PyStr

/-! ### Tallies of the calls -/

section Tally

variable [Python] (srv : Server)

/-- The call of `break_page` returned this value. -/
def returned (pid : ℤ) (success : Bool) (call : BreakSite × PyStr) : Bool :=
  srv.breakPage call.1 pid call.2 = .ok success

omit [Python] in
/-- The key of a call of `break_page`. -/
def Event.brokenKey : Event → Option PyStr
  | .breakPage k => some k
  | _ => none

/-- **A replay returns its counts**: of the commands of the trace that succeeded, and of the page
breaks it made that returned `True` and `False`. -/
def ReturnsCounts (trace : PyStr) (breakpoints : Option (Dict PyStr ℤ)) : Prop :=
  ∃ pid, srv.getRedisPid = .ok pid ∧
    (replay srv trace breakpoints).1.events.filterMap Event.brokenKey =
      (breakCalls srv trace (breakpoints.getD Dict.empty)).map Prod.snd ∧
    (replay srv trace breakpoints).1.result =
      ((traceCommands trace).countP (succeeds srv),
        (breakCalls srv trace (breakpoints.getD Dict.empty)).countP (returned srv pid true),
        (breakCalls srv trace (breakpoints.getD Dict.empty)).countP (returned srv pid false))

end Tally

/-! ### What the local variables add up to -/

namespace Replayed

/-- The variables have grown by so many counted accesses and by the tallies of these calls. -/
structure GrownBy [Python] (srv : Server) (pid : ℤ) (s : Replayed) (n : ℕ)
    (calls : List (BreakSite × PyStr)) (s' : Replayed) : Prop where
  accesses : s'.accessCounts.values.sum = s.accessCounts.values.sum + n
  success : s'.breakSuccess = s.breakSuccess + calls.countP (returned srv pid true)
  failed : s'.breakFailed = s.breakFailed + calls.countP (returned srv pid false)
  keys : s'.events.filterMap Event.brokenKey =
    s.events.filterMap Event.brokenKey ++ calls.map Prod.snd

variable [Python] {srv : Server} {pid : ℤ} {s s' s'' : Replayed} {n n' : ℕ}
  {calls calls' : List (BreakSite × PyStr)}

theorem GrownBy.refl (srv : Server) (pid : ℤ) (s : Replayed) : GrownBy srv pid s 0 [] s :=
  ⟨rfl, rfl, rfl, (List.append_nil _).symm⟩

theorem GrownBy.trans (h : GrownBy srv pid s n calls s') (h' : GrownBy srv pid s' n' calls' s'') :
    GrownBy srv pid s (n + n') (calls ++ calls') s'' where
  accesses := by rw [h'.accesses, h.accesses, Nat.add_assoc]
  success := by rw [h'.success, h.success, List.countP_append, Nat.add_assoc]
  failed := by rw [h'.failed, h.failed, List.countP_append, Nat.add_assoc]
  keys := by rw [h'.keys, h.keys, List.map_append, List.append_assoc]

/-- A page break is one call. -/
theorem GrownBy.breakKey {site : BreakSite} {key : PyStr}
    (h : breakKey srv pid site key s = (s', none)) : GrownBy srv pid s 0 [(site, key)] s' := by
  rw [Replay.breakKey] at h
  rcases hbreak : srv.breakPage site pid key with e | success
  · rw [hbreak] at h
    cases h
  · rw [hbreak] at h
    obtain rfl : (s.did (.breakPage key)).tallied success = s' := (Prod.mk.inj h).1
    rcases success with - | - <;>
      exact ⟨rfl, by simp [returned, hbreak, tallied, did],
        by simp [returned, hbreak, tallied, did], by simp [Event.brokenKey]⟩

/-- A command that was executed is one access where it succeeded and has a key. -/
theorem GrownBy.execute (srv : Server) (pid : ℤ) (s : Replayed) (cmd : RedisCommand) (ok : Bool) :
    GrownBy srv pid s (if ok = true ∧ cmd.key ≠ [] then 1 else 0) []
      ((s.did (.execute cmd ok)).counted cmd.key ok) := by
  rw [counted]
  split_ifs
  · exact ⟨Dict.sum_values_incr _ _, rfl, rfl, by simp [did, Event.brokenKey]⟩
  · exact ⟨rfl, rfl, rfl, by simp [Event.brokenKey]⟩

end Replayed

open Replayed

section Run

variable [Python] {srv : Server} {breakpoints : Dict PyStr ℤ} {pid : ℤ} {s s' : Replayed}

omit [Python] in
/-- The command is one of those that `replay` counts. -/
def countedCommand (srv : Server) (c : RedisCommand × ℕ) : Bool :=
  c.1.key ≠ [] && succeeds srv c

/-- **One command of the trace**, where it raises nothing. -/
theorem grownBy_replayCommand {c : RedisCommand × ℕ}
    (h : replayCommand srv breakpoints pid s c = (s', none)) :
    GrownBy srv pid s (if countedCommand srv c = true then 1 else 0)
      (if isDue breakpoints c.1.key (s.accessCounts.count c.1.key) then
        [(.line c.2, c.1.key)] else []) s' := by
  rw [replayCommand] at h
  rcases hok : srv.execute c.1 c.2 with e | ok
  -- a command that raises ends the replay
  · simp only [hok] at h
    rcases hstart : (if isDue breakpoints c.1.key (s.accessCounts.count c.1.key) then
      breakKey srv pid (.line c.2) c.1.key s else (s, none)) with ⟨s₁, - | e'⟩
    · rw [hstart] at h
      cases h
    · rw [hstart] at h
      cases h
  · have hcounted : countedCommand srv c = true ↔ ok = true ∧ c.1.key ≠ [] := by
      rw [countedCommand, succeeds, hok, Bool.and_eq_true, decide_eq_true_eq, and_comm]
    have hexec : ∀ s : Replayed, GrownBy srv pid s (if countedCommand srv c = true then 1 else 0) []
        ((s.did (.execute c.1 ok)).counted c.1.key ok) := fun s ↦ by
      rw [if_congr hcounted rfl rfl]
      exact GrownBy.execute srv pid s c.1 ok
    simp only [hok] at h
    by_cases hdue : isDue breakpoints c.1.key (s.accessCounts.count c.1.key) = true
    · rw [if_pos hdue] at h ⊢
      rcases hbreak : breakKey srv pid (.line c.2) c.1.key s with ⟨s₁, - | e⟩
      · rw [hbreak] at h
        obtain rfl := (Prod.mk.inj h).1
        have hgrown := (GrownBy.breakKey hbreak).trans (hexec s₁)
        rwa [Nat.zero_add, List.append_nil] at hgrown
      · rw [hbreak] at h
        cases h
    · rw [if_neg hdue] at h ⊢
      obtain rfl := (Prod.mk.inj h).1
      exact hexec s

/-- **A run over the commands** that raises nothing. -/
theorem grownBy_replayCommands {before cs : List (RedisCommand × ℕ)}
    (hcounts : CountsOf srv before s) (h : replayCommands srv breakpoints pid s cs = (s', none)) :
    GrownBy srv pid s (cs.countP (countedCommand srv)) (dueCalls srv breakpoints before cs) s' := by
  induction cs generalizing before s with
  | nil =>
    obtain rfl := (Prod.mk.inj h).1
    exact GrownBy.refl srv pid s
  | cons c cs ih =>
    rw [replayCommands] at h
    rcases hr : replayCommand srv breakpoints pid s c with ⟨s₁, - | e⟩
    · rw [hr] at h
      have hstep := grownBy_replayCommand hr
      rw [hcounts.isDue_eq] at hstep
      have hone : replayCommands srv breakpoints pid s [c] = (s₁, none) := by
        rw [replayCommands, hr]
        rfl
      have hcounts' := (replayCommands_eq hcounts breakpoints pid [c]).2.2 (by rw [hone])
      rw [hone] at hcounts'
      rw [List.countP_cons, Nat.add_comm, dueCalls]
      exact hstep.trans (ih hcounts' h)
    · rw [hr] at h
      cases h

/-- **The breaks before the trace**, where they raise nothing. -/
theorem grownBy_preBreaks {keys : List (PyStr × ℕ)} (h : preBreaks srv pid s keys = (s', none)) :
    GrownBy srv pid s 0 (preCalls keys) s' := by
  induction keys generalizing s with
  | nil =>
    obtain rfl := (Prod.mk.inj h).1
    exact GrownBy.refl srv pid s
  | cons e keys ih =>
    rw [preBreaks] at h
    rcases hbreak : breakKey srv pid (.pre e.2) e.1 s with ⟨s₁, - | err⟩
    · rw [hbreak] at h
      exact (GrownBy.breakKey hbreak).trans (ih h)
    · rw [hbreak] at h
      cases h

/-- **A whole replay** that returns. -/
theorem grownBy_replay {trace : PyStr} {breakpoints : Option (Dict PyStr ℤ)}
    (h : (replay srv trace breakpoints).2 = none) :
    ∃ pid, srv.getRedisPid = .ok pid ∧
      GrownBy srv pid .start ((traceCommands trace).countP (countedCommand srv))
        (breakCalls srv trace (breakpoints.getD Dict.empty)) (replay srv trace breakpoints).1 := by
  rw [replay, replayFrom] at h ⊢
  rcases hpid : srv.getRedisPid with e | pid
  · rw [hpid] at h
    cases h
  · rw [hpid] at h
    refine ⟨pid, rfl, ?_⟩
    dsimp only at h ⊢
    generalize breakpoints.getD Dict.empty = bps at h ⊢
    rcases hpre : preBreaks srv pid .start (preBreakKeys bps).zipIdx with ⟨s, - | e⟩
    · rw [hpre, Ended.andThen, replayLines_eq] at h
      rw [Ended.andThen, replayLines_eq]
      rcases hrun : replayCommands srv bps pid (s.did .openTrace)
        (commandsOf ((fileLines trace).zipIdx 1)) with ⟨s', - | e⟩
      · have hgrown := grownBy_preBreaks hpre
        have hopen : GrownBy srv pid s 0 [] (s.did .openTrace) :=
          ⟨rfl, rfl, rfl, by simp [Event.brokenKey]⟩
        have hcounts : CountsOf srv [] (s.did .openTrace) := by
          intro k hk
          obtain ⟨-, -, -, hsame, -⟩ := preBreaks_eq srv pid .start (preBreakKeys bps).zipIdx
          rw [hpre] at hsame
          rw [accessCounts_did, hsame]
          rfl
        have hall := (hgrown.trans hopen).trans (grownBy_replayCommands hcounts hrun)
        rw [List.append_nil, Nat.add_zero, Nat.zero_add] at hall
        exact hall
      · rw [hrun] at h
        cases h
    · rw [hpre] at h
      cases h

/-! ### The counts that are returned -/

omit [Python] in
/-- The commands that are counted are all that succeeded, where each of these has a key. -/
theorem countP_countedCommand_iff (srv : Server) (cs : List (RedisCommand × ℕ)) :
    cs.countP (countedCommand srv) = cs.countP (succeeds srv) ↔
      ∀ c ∈ cs, succeeds srv c = true → c.1.key ≠ [] := by
  have hcounted : cs.countP (countedCommand srv) =
      (cs.filter (succeeds srv)).countP fun c ↦ c.1.key ≠ [] := List.countP_filter.symm
  rw [hcounted, List.countP_eq_length_filter (p := succeeds srv), List.countP_eq_length]
  constructor
  · intro h c hc hsucc
    exact of_decide_eq_true (h c (List.mem_filter.2 ⟨hc, hsucc⟩))
  · intro h c hc
    obtain ⟨hc, hsucc⟩ := List.mem_filter.1 hc
    exact decide_eq_true (h c hc hsucc)

/-- **A replay that returns has its counts right exactly where each command that succeeded has a
key**: a page break is always tallied, and a command only through the counter of its key. -/
theorem replay_returnsCounts_iff (srv : Server) (trace : PyStr)
    (breakpoints : Option (Dict PyStr ℤ)) (h : (replay srv trace breakpoints).2 = none) :
    ReturnsCounts srv trace breakpoints ↔
      ∀ c ∈ traceCommands trace, succeeds srv c = true → c.1.key ≠ [] := by
  obtain ⟨pid, hpid, hgrown⟩ := grownBy_replay h
  have htotal : (replay srv trace breakpoints).1.result.1 =
      (traceCommands trace).countP (countedCommand srv) := hgrown.accesses.trans (Nat.zero_add _)
  have hbreaks : (replay srv trace breakpoints).1.result.2 =
      ((breakCalls srv trace (breakpoints.getD Dict.empty)).countP (returned srv pid true),
        (breakCalls srv trace (breakpoints.getD Dict.empty)).countP (returned srv pid false)) :=
    Prod.ext (hgrown.success.trans (Nat.zero_add _)) (hgrown.failed.trans (Nat.zero_add _))
  rw [← countP_countedCommand_iff, ← htotal]
  constructor
  · rintro ⟨_, -, -, hresult⟩
    exact congrArg Prod.fst hresult
  · intro hall
    exact ⟨pid, hpid, hgrown.keys, Prod.ext hall hbreaks⟩

end Run

/-- A replay of one read counts it. -/
theorem returnsCounts_oneRead : @ReturnsCounts Python.ascii (failingAt []) oneRead
    (some (Dict.empty.set user1 0)) :=
  (@replay_returnsCounts_iff Python.ascii (failingAt []) oneRead (some (Dict.empty.set user1 0))
    (by decide +kernel)).2 (by decide +kernel)

/-- A log with one command that has no key. -/
def onePing : PyStr := shortHeader.text ++ joinQuoted [['P', 'I', 'N', 'G']] ++ ['\n']

/-- The command without a key succeeds, and none is counted. -/
theorem not_returnsCounts_onePing :
    (@replay Python.ascii (failingAt []) onePing none).2 = none ∧
      ¬ @ReturnsCounts Python.ascii (failingAt []) onePing none := by
  refine ⟨by decide +kernel, ?_⟩
  rintro ⟨_, -, -, hresult⟩
  have htotal : (@replay Python.ascii (failingAt []) onePing none).1.result.1 =
      (@traceCommands Python.ascii onePing).countP (succeeds (failingAt [])) :=
    congrArg Prod.fst hresult
  exact absurd htotal (by decide +kernel)

end Replay
