import HugePageResearch.Library.Lists
import HugePageResearch.Replay.Breakpoints
import Mathlib.Algebra.GroupWithZero.Nat

/-!
# Replaying a trace

`replay` of `data_collection/replay_trace.py`: the pages of the keys with breakpoint `-1` are split
first; then, line by line, a key whose number of successful accesses equals its breakpoint has its
page split, and the command is executed. What the server, its module and the split syscall answer is
supplied, by the place of the call, so that a pattern of failures is an input.

## The results

* `replay_honours_iff`: when every command succeeds, a breakpoint to which replay comes is acted on
  as it is documented exactly where it is not the number of accesses itself: that value never
  triggers, although one more is what stands for never. A page break whose key has no address ends
  the replay, which then does not come to the later ones.
* `replay_breaks_le_one_iff`: a key is split at most once exactly where no command fails while its
  key is due and the key comes again. The count that a breakpoint is compared with moves only with a
  command that succeeds.

Both rest on `replayCommand_eq`, which says once what one command of the trace does.
-/

namespace Replay

open Lists PyStr

/-! ### The server and the kernel -/

/-- A call of `break_page`: for the key at a position of `pre_break_keys`, or at a line. -/
inductive BreakSite where
  /-- Before the trace. -/
  | pre (i : ℕ)
  /-- At a line of the trace. -/
  | line (n : ℕ)
  deriving DecidableEq

/-- The exceptions that leave `replay`. -/
inductive ReplayError where
  /-- `redis.RedisError`. -/
  | redisError
  /-- Any other exception of the client. -/
  | other
  /-- `RuntimeError`: no valid `process_id`. -/
  | noProcessId
  /-- `RuntimeError`: the reply of `VAPTR` has another shape. -/
  | vaptrShape (key : PyStr)
  /-- `RuntimeError`: `VAPTR` returned another key. -/
  | vaptrKey (replyKey key : PyStr)
  /-- `RuntimeError`: `VAPTR` did not resolve a direct pointer. -/
  | vaptrNil (key : PyStr)
  /-- `RuntimeError`: `VAPTR` returned a malformed address. -/
  | vaptrAddress (key replyVaddr : PyStr)
  deriving DecidableEq

/-- What replay gets to see of the outside. -/
structure Server where
  /-- The `process_id` of `INFO server`, where it is an integer. -/
  processId : Except ReplayError (Option ℤ)
  /-- The first entry of the reply to `VAPTR FIELD field0 <key>`, where it is a pair. -/
  vaptr : BreakSite → PyStr → Except ReplayError (Option (PyStr × PyStr))
  /-- The return code and the `errno` of `split_thp(pid, vaddr)`, by attempt. -/
  splitThp : BreakSite → ℕ → ℤ → ℤ → ℤ × ℕ
  /-- `client.execute_command` at a line of the trace, by attempt. -/
  executeCommand : ℕ → ℕ → RedisCommand → Except ReplayError Unit

/-- `EXECUTE_MAX_ATTEMPTS`. -/
def executeMaxAttempts : ℕ := 2

/-- `BREAK_PAGE_MAX_ATTEMPTS`. -/
def breakPageMaxAttempts : ℕ := 2

/-- `errno.EIO`. -/
def eio : ℕ := 5

namespace Server

variable (srv : Server)

/-- `_get_redis_pid`. -/
def getRedisPid : Except ReplayError ℤ :=
  match srv.processId with
  | .error e => .error e
  | .ok none => .error .noProcessId
  | .ok (some pid) => if pid ≤ 0 then .error .noProcessId else .ok pid

/-- `_resolve_key_vaddr`. -/
def resolveKeyVaddr [Python] (site : BreakSite) (key : PyStr) : Except ReplayError ℤ :=
  match srv.vaptr site key with
  | .error e => .error e
  | .ok none => .error (.vaptrShape key)
  | .ok (some (replyKey, replyVaddr)) =>
    if replyKey ≠ key then .error (.vaptrKey replyKey key)
    else if replyVaddr = "(nil)".toList then .error (.vaptrNil key)
    else
      match PyStr.int 16 replyVaddr with
      | none => .error (.vaptrAddress key replyVaddr)
      | some vaddr => .ok vaddr

/-- `_invoke_split_thp_syscall`: the `errno` of the `OSError` it raises, if it does. -/
def invokeSplitThp (site : BreakSite) (attempt : ℕ) (pid vaddr : ℤ) : Option ℕ :=
  let (rc, errno) := srv.splitThp site attempt pid vaddr
  if rc = 0 then none else some (if errno = 0 then eio else errno)

/-- The attempts of `_break_page_for_pid`, with the error of the last one before them. -/
def splitAttempts (site : BreakSite) (pid vaddr : ℤ) (lastError : Option ℕ) :
    List ℕ → Option ℕ
  | [] => lastError
  | attempt :: attempts =>
    match srv.invokeSplitThp site attempt pid vaddr with
    | none => none
    | some err => splitAttempts site pid vaddr (some err) attempts

/-- `_break_page_for_pid`. -/
def breakPageForPid [Python] (site : BreakSite) (pid : ℤ) (key : PyStr) :
    Except ReplayError (ℤ × Option ℕ) :=
  match srv.resolveKeyVaddr site key with
  | .error e => .error e
  | .ok vaddr => .ok (vaddr, srv.splitAttempts site pid vaddr none
      (List.range' 1 breakPageMaxAttempts))

/-- `break_page`. -/
def breakPage [Python] (site : BreakSite) (pid : ℤ) (key : PyStr) : Except ReplayError Bool :=
  match srv.breakPageForPid site pid key with
  | .error e => .error e
  | .ok (_, error) => .ok error.isNone

/-- The attempts of `_execute`. -/
def executeAttempts (cmd : RedisCommand) (lineNo : ℕ) : List ℕ → Except ReplayError Bool
  | [] => .ok false
  | attempt :: attempts =>
    match srv.executeCommand lineNo attempt cmd with
    | .ok () => .ok true
    | .error .redisError => executeAttempts cmd lineNo attempts
    | .error e => .error e

/-- `_execute`. -/
def execute (cmd : RedisCommand) (lineNo : ℕ) : Except ReplayError Bool :=
  srv.executeAttempts cmd lineNo (List.range executeMaxAttempts)

end Server

/-! ### `replay` -/

/-- What replay does to the outside. -/
inductive Event where
  /-- `break_page` is called. -/
  | breakPage (key : PyStr)
  /-- The trace is opened. -/
  | openTrace
  /-- `_execute` returned. -/
  | execute (cmd : RedisCommand) (ok : Bool)

/-- The local variables of `replay`, and what it has done. -/
structure Replayed where
  /-- `access_counts`. -/
  accessCounts : Dict PyStr ℕ
  /-- `break_success`. -/
  breakSuccess : ℕ
  /-- `break_failed`. -/
  breakFailed : ℕ
  /-- What was done, first thing first. -/
  events : List Event

namespace Replayed

/-- The variables before anything is done. -/
def start : Replayed := ⟨Dict.empty, 0, 0, []⟩

/-- Something is done. -/
def did (s : Replayed) (e : Event) : Replayed :=
  { s with events := s.events ++ [e] }

/-- A page break is tallied. -/
def tallied (s : Replayed) (success : Bool) : Replayed :=
  if success then { s with breakSuccess := s.breakSuccess + 1 }
  else { s with breakFailed := s.breakFailed + 1 }

/-- An access is counted, where the command succeeded and has a key. -/
def counted (s : Replayed) (key : PyStr) (ok : Bool) : Replayed :=
  if ok ∧ key ≠ [] then { s with accessCounts := s.accessCounts.incr key } else s

@[simp] theorem accessCounts_did (s : Replayed) (e : Event) :
    (s.did e).accessCounts = s.accessCounts := rfl

@[simp] theorem events_did (s : Replayed) (e : Event) : (s.did e).events = s.events ++ [e] := rfl

@[simp] theorem accessCounts_tallied (s : Replayed) (success : Bool) :
    (s.tallied success).accessCounts = s.accessCounts := by
  rcases success <;> rfl

@[simp] theorem events_tallied (s : Replayed) (success : Bool) :
    (s.tallied success).events = s.events := by
  rcases success <;> rfl

@[simp] theorem events_counted (s : Replayed) (key : PyStr) (ok : Bool) :
    (s.counted key ok).events = s.events := by
  rw [counted]
  split_ifs <;> rfl

theorem count_counted (s : Replayed) (key k : PyStr) (ok : Bool) :
    (s.counted key ok).accessCounts.count k =
      s.accessCounts.count k + if ok = true ∧ key ≠ [] ∧ key = k then 1 else 0 := by
  rw [counted]
  by_cases h : ok = true ∧ key ≠ []
  · rw [if_pos h, Dict.count_incr]
    simp [h.1, h.2]
  · rw [if_neg h, if_neg fun h' ↦ h ⟨h'.1, h'.2.1⟩, Nat.add_zero]

end Replayed

/-- Where a part of replay ends: in a state, and perhaps with an exception. -/
abbrev Ended := Replayed × Option ReplayError

/-- Go on, unless an exception was raised. -/
def Ended.andThen (r : Ended) (f : Replayed → Ended) : Ended :=
  match r.2 with
  | some e => (r.1, some e)
  | none => f r.1

section Replay

variable [Python] (srv : Server)

/-- One call of `break_page` and its tally. -/
def breakKey (pid : ℤ) (site : BreakSite) (key : PyStr) (s : Replayed) : Ended :=
  match srv.breakPage site pid key with
  | .error e => (s.did (.breakPage key), some e)
  | .ok success => ((s.did (.breakPage key)).tallied success, none)

omit [Python] in
/-- `pre_break_keys`. -/
def preBreakKeys (breakpoints : Dict PyStr ℤ) : List PyStr :=
  (breakpoints.items.filter fun e ↦ e.2 = -1).map Prod.fst

/-- The loop over `pre_break_keys`. -/
def preBreaks (pid : ℤ) : Replayed → List (PyStr × ℕ) → Ended
  | s, [] => (s, none)
  | s, (key, i) :: rest => (breakKey srv pid (.pre i) key s).andThen fun s ↦ preBreaks pid s rest

omit [Python] in
/-- The breakpoint check, on the number of accesses counted for the key. -/
def isDue (breakpoints : Dict PyStr ℤ) (key : PyStr) (n : ℕ) : Bool :=
  key ≠ [] && (breakpoints.get? key).any fun v ↦ v ≠ -1 && (n : ℤ) = v

variable (breakpoints : Dict PyStr ℤ) (pid : ℤ)

/-- The loop's body for a parsed command and its line number. -/
def replayCommand (s : Replayed) (c : RedisCommand × ℕ) : Ended :=
  Ended.andThen
    (if isDue breakpoints c.1.key (s.accessCounts.count c.1.key) then
      breakKey srv pid (.line c.2) c.1.key s
    else (s, none))
    fun s ↦
      match srv.execute c.1 c.2 with
      | .error e => (s, some e)
      | .ok ok => ((s.did (.execute c.1 ok)).counted c.1.key ok, none)

/-- The loop over the trace, from numbered lines. -/
def replayLines : Replayed → List (PyStr × ℕ) → Ended
  | s, [] => (s, none)
  | s, (rawLine, lineNo) :: rest =>
    Ended.andThen
      (match parseLine rawLine with
      | none => (s, none)
      | some cmd => replayCommand srv breakpoints pid s (cmd, lineNo))
      fun s ↦ replayLines s rest

omit breakpoints pid in
/-- `replay` of a trace with the given lines. -/
def replayFrom (breakpoints : Dict PyStr ℤ) (lines : List PyStr) : Ended :=
  match srv.getRedisPid with
  | .error e => (.start, some e)
  | .ok pid =>
    (preBreaks srv pid .start (preBreakKeys breakpoints).zipIdx).andThen fun s ↦
      replayLines srv breakpoints pid (s.did .openTrace) (lines.zipIdx 1)

omit breakpoints pid in
/-- `replay` of a file with the given text. -/
def replay (trace : PyStr) (breakpoints : Option (Dict PyStr ℤ)) : Ended :=
  replayFrom srv (breakpoints.getD Dict.empty) (fileLines trace)

omit [Python] in
/-- What `replay` returns: the number of commands, of successful and of failed page breaks. -/
def Replayed.result (s : Replayed) : ℕ × ℕ × ℕ :=
  (s.accessCounts.values.sum, s.breakSuccess, s.breakFailed)

omit breakpoints pid in
/-- The commands of numbered lines, each with the number of its line. -/
def commandsOf (lines : List (PyStr × ℕ)) : List (RedisCommand × ℕ) :=
  lines.filterMap fun e ↦ (parseLine e.1).map (·, e.2)

omit breakpoints pid in
/-- The commands of a trace. -/
def traceCommands (trace : PyStr) : List (RedisCommand × ℕ) :=
  commandsOf ((fileLines trace).zipIdx 1)

/-- The loop over the commands. -/
def replayCommands : Replayed → List (RedisCommand × ℕ) → Ended
  | s, [] => (s, none)
  | s, c :: cs => (replayCommand srv breakpoints pid s c).andThen fun s ↦ replayCommands s cs

/-- Lines that hold no command do nothing. -/
theorem replayLines_eq (s : Replayed) (lines : List (PyStr × ℕ)) :
    replayLines srv breakpoints pid s lines =
      replayCommands srv breakpoints pid s (commandsOf lines) := by
  induction lines generalizing s with
  | nil => rfl
  | cons e lines ih =>
    rw [replayLines, commandsOf]
    rcases hparse : parseLine e.1 with - | cmd
    · rw [List.filterMap_cons_none (by rw [hparse]; rfl)]
      exact ih s
    · rw [List.filterMap_cons_some (by rw [hparse]; rfl), replayCommands]
      exact congrArg _ (funext ih)

end Replay

/-! ### What one command does -/

section Command

variable [Python] (srv : Server) (breakpoints : Dict PyStr ℤ) (pid : ℤ)

omit [Python] in
/-- The command succeeds, at one of its attempts. -/
def succeeds (c : RedisCommand × ℕ) : Bool :=
  match srv.execute c.1 c.2 with
  | .ok ok => ok
  | .error _ => false

/-- Neither the page break at a line, if there is one, nor the command raises. -/
def isQuiet (c : RedisCommand × ℕ) (due : Bool) : Bool :=
  (!due || (srv.breakPage (.line c.2) pid c.1.key).isOk) && (srv.execute c.1 c.2).isOk

/-- What is done at a command. -/
def commandEvents (c : RedisCommand × ℕ) (due : Bool) : List Event :=
  (if due then [.breakPage c.1.key] else []) ++
    if isQuiet srv pid c due then [.execute c.1 (succeeds srv c)] else []

/-- **One command of the trace**: it ends without an exception exactly where nothing raises, and
then its key has been counted where it succeeded. -/
theorem replayCommand_eq (s : Replayed) (c : RedisCommand × ℕ) :
    let due := isDue breakpoints c.1.key (s.accessCounts.count c.1.key)
    let r := replayCommand srv breakpoints pid s c
    r.1.events = s.events ++ commandEvents srv pid c due ∧
      (r.2 = none ↔ isQuiet srv pid c due = true) ∧
      (r.2 = none → ∀ k, r.1.accessCounts.count k = s.accessCounts.count k +
        if succeeds srv c = true ∧ c.1.key ≠ [] ∧ c.1.key = k then 1 else 0) := by
  intro due r
  have hdue : due = isDue breakpoints c.1.key (s.accessCounts.count c.1.key) := rfl
  have hr : r = replayCommand srv breakpoints pid s c := rfl
  rw [replayCommand, ← hdue] at hr
  -- whether the key is due, how the page break ends, and how the command ends
  rcases due with - | - <;>
    rcases hbreak : srv.breakPage (.line c.2) pid c.1.key with e | success <;>
    rcases hexec : srv.execute c.1 c.2 with e' | ok <;>
    simp [hr, breakKey, commandEvents, isQuiet, succeeds, Ended.andThen, hbreak, hexec, Except.isOk,
      Except.toBool, Replayed.count_counted]

/-! ### What a run over the trace does -/

omit [Python] in
/-- The number of commands on a key that succeed. -/
def successes (cs : List (RedisCommand × ℕ)) (k : PyStr) : ℕ :=
  cs.countP fun c ↦ c.1.key = k && succeeds srv c

omit [Python] in
theorem successes_append_singleton (cs : List (RedisCommand × ℕ)) (c : RedisCommand × ℕ)
    (k : PyStr) : successes srv (cs ++ [c]) k =
      successes srv cs k + if c.1.key = k ∧ succeeds srv c = true then 1 else 0 := by
  simp [successes, List.countP_append, List.countP_singleton]

omit [Python] in
/-- The key of a command is due when the commands before it are through. -/
def isDueAfter (before : List (RedisCommand × ℕ)) (c : RedisCommand × ℕ) : Bool :=
  isDue breakpoints c.1.key (successes srv before c.1.key)

/-- Nothing raises at any of the commands. -/
def allQuiet (before : List (RedisCommand × ℕ)) : List (RedisCommand × ℕ) → Bool
  | [] => true
  | c :: cs => isQuiet srv pid c (isDueAfter srv breakpoints before c) &&
    allQuiet (before ++ [c]) cs

/-- What is done at the commands, up to the first exception. -/
def eventsFrom (before : List (RedisCommand × ℕ)) : List (RedisCommand × ℕ) → List Event
  | [] => []
  | c :: cs => commandEvents srv pid c (isDueAfter srv breakpoints before c) ++
    if isQuiet srv pid c (isDueAfter srv breakpoints before c) then
      eventsFrom (before ++ [c]) cs
    else []

omit [Python] in
/-- The counts are those of the commands that succeeded. -/
def CountsOf (before : List (RedisCommand × ℕ)) (s : Replayed) : Prop :=
  ∀ k, k ≠ [] → s.accessCounts.count k = successes srv before k

variable {srv breakpoints pid}

omit [Python] in
theorem CountsOf.isDue_eq {before : List (RedisCommand × ℕ)} {s : Replayed}
    (h : CountsOf srv before s) (c : RedisCommand × ℕ) :
    isDue breakpoints c.1.key (s.accessCounts.count c.1.key) =
      isDueAfter srv breakpoints before c := by
  rw [isDueAfter]
  rcases hkey : c.1.key with - | ⟨a, key⟩
  · rfl
  · rw [h _ (List.cons_ne_nil a key)]

/-- **A run over the commands**: its events, whether it goes through, and the counts it ends
with. -/
theorem replayCommands_eq {before : List (RedisCommand × ℕ)} {s : Replayed}
    (h : CountsOf srv before s) (breakpoints : Dict PyStr ℤ) (pid : ℤ)
    (cs : List (RedisCommand × ℕ)) :
    let r := replayCommands srv breakpoints pid s cs
    r.1.events = s.events ++ eventsFrom srv breakpoints pid before cs ∧
      (r.2 = none ↔ allQuiet srv breakpoints pid before cs = true) ∧
      (r.2 = none → CountsOf srv (before ++ cs) r.1) := by
  induction cs generalizing before s with
  | nil => exact ⟨(List.append_nil _).symm, by simp [replayCommands, allQuiet],
      fun _ ↦ by rwa [List.append_nil]⟩
  | cons c cs ih =>
    obtain ⟨hevents, hnone, hcounts⟩ := replayCommand_eq srv breakpoints pid s c
    rw [h.isDue_eq] at hevents hnone
    rw [replayCommands, eventsFrom, allQuiet]
    rcases hr : replayCommand srv breakpoints pid s c with ⟨s₁, - | e⟩
    · rw [hr] at hevents hnone hcounts
      have hstep : CountsOf srv (before ++ [c]) s₁ := by
        intro k hk
        rw [hcounts rfl k, h k hk, successes_append_singleton]
        refine congrArg _ (if_congr ⟨fun hc ↦ ⟨hc.2.2, hc.1⟩, fun hc ↦ ⟨hc.2, ?_, hc.1⟩⟩ rfl rfl)
        rw [hc.1]
        exact hk
      rw [hnone.1 rfl, if_pos rfl, Bool.true_and, ← List.append_assoc, ← hevents,
        List.append_cons before c cs]
      exact ih hstep
    · rw [hr] at hevents hnone
      have hloud : isQuiet srv pid c (isDueAfter srv breakpoints before c) = false :=
        Bool.eq_false_iff.2 fun hq ↦ by cases hnone.2 hq
      rw [hloud, if_neg Bool.false_ne_true, List.append_nil, Bool.false_and, ← hevents]
      exact ⟨rfl, ⟨fun he ↦ (by cases he), fun he ↦ (by cases he)⟩, fun he ↦ (by cases he)⟩

end Command

/-! ### The calls of `break_page` -/

section Calls

variable [Python] (srv : Server)

omit [Python] in
/-- The page breaks of a trace, each where its key is due. -/
def dueCalls (breakpoints : Dict PyStr ℤ) (before : List (RedisCommand × ℕ)) :
    List (RedisCommand × ℕ) → List (BreakSite × PyStr)
  | [] => []
  | c :: cs =>
    (if isDueAfter srv breakpoints before c then [(.line c.2, c.1.key)] else []) ++
      dueCalls breakpoints (before ++ [c]) cs

omit [Python] in
/-- The page breaks before a trace. -/
def preCalls (keys : List (PyStr × ℕ)) : List (BreakSite × PyStr) :=
  keys.map fun e ↦ (.pre e.2, e.1)

/-- The calls of `break_page`, before and during a trace. -/
def breakCalls (trace : PyStr) (breakpoints : Dict PyStr ℤ) : List (BreakSite × PyStr) :=
  preCalls (preBreakKeys breakpoints).zipIdx ++ dueCalls srv breakpoints [] (traceCommands trace)

/-- Each call that comes before the first one for the key finds an address for its own key. -/
def resolvesUpTo (k : PyStr) : List (BreakSite × PyStr) → Bool
  | [] => true
  | call :: calls =>
    call.2 = k || (srv.resolveKeyVaddr call.1 call.2).isOk && resolvesUpTo k calls

/-- A page break raises where the key has no address, whatever the process id. -/
theorem isOk_breakPage (site : BreakSite) (pid : ℤ) (key : PyStr) :
    (srv.breakPage site pid key).isOk = (srv.resolveKeyVaddr site key).isOk := by
  rw [Server.breakPage, Server.breakPageForPid]
  rcases srv.resolveKeyVaddr site key with e | vaddr
  · rfl
  · rfl

variable {srv} {k : PyStr} {calls calls' : List (BreakSite × PyStr)}

/-- Where a call for the key comes, what follows it plays no role. -/
theorem resolvesUpTo_append_of_mem (hk : k ∈ calls.map Prod.snd) :
    resolvesUpTo srv k (calls ++ calls') = resolvesUpTo srv k calls := by
  induction calls with
  | nil => exact absurd hk List.not_mem_nil
  | cons call calls ih =>
    rw [List.cons_append, resolvesUpTo, resolvesUpTo]
    by_cases hcall : call.2 = k
    · rw [decide_eq_true hcall, Bool.true_or, Bool.true_or]
    · rw [ih ((List.mem_cons.1 hk).resolve_left (Ne.symm hcall))]

/-- Where none comes, all calls find an address. -/
theorem resolvesUpTo_append_of_not_mem (hk : k ∉ calls.map Prod.snd) :
    resolvesUpTo srv k (calls ++ calls') =
      ((calls.all fun call ↦ (srv.resolveKeyVaddr call.1 call.2).isOk) &&
        resolvesUpTo srv k calls') := by
  induction calls with
  | nil => rfl
  | cons call calls ih =>
    obtain ⟨hcall, hcalls⟩ := not_or.1 (mt List.mem_cons.2 hk)
    rw [List.cons_append, resolvesUpTo, ih hcalls, decide_eq_false (Ne.symm hcall),
      Bool.false_or, List.all_cons, Bool.and_assoc]

/-- Where all calls find an address, those before any do. -/
theorem resolvesUpTo_of_all
    (h : calls.all (fun call ↦ (srv.resolveKeyVaddr call.1 call.2).isOk) = true) :
    resolvesUpTo srv k calls = true := by
  induction calls with
  | nil => rfl
  | cons call calls ih =>
    rw [List.all_cons, Bool.and_eq_true] at h
    rw [resolvesUpTo, h.1, ih h.2, Bool.and_true, Bool.or_true]

end Calls

/-! ### The breaks before the trace -/

section PreBreaks

variable [Python] (srv : Server) (breakpoints : Dict PyStr ℤ)

omit [Python] in
theorem mem_preBreakKeys {k : PyStr} : k ∈ preBreakKeys breakpoints ↔
    breakpoints.get? k = some (-1) := by
  rw [preBreakKeys, List.mem_map, Dict.get?_eq_some]
  constructor
  · rintro ⟨⟨k', v⟩, hmem, rfl⟩
    obtain ⟨hmem, hv⟩ := List.mem_filter.1 hmem
    rwa [← of_decide_eq_true hv]
  · intro hmem
    exact ⟨(k, -1), List.mem_filter.2 ⟨hmem, decide_eq_true rfl⟩, rfl⟩

omit [Python] in
theorem nodup_preBreakKeys : (preBreakKeys breakpoints).Nodup :=
  breakpoints.nodupKeys.sublist (List.filter_sublist.map Prod.fst)

/-- None of the breaks raises. -/
def preQuiet (pid : ℤ) (keys : List (PyStr × ℕ)) : Bool :=
  keys.all fun e ↦ (srv.breakPage (.pre e.2) pid e.1).isOk

theorem preQuiet_eq (pid : ℤ) (keys : List (PyStr × ℕ)) : preQuiet srv pid keys =
    (preCalls keys).all fun call ↦ (srv.resolveKeyVaddr call.1 call.2).isOk := by
  rw [preQuiet, preCalls, List.all_map]
  exact congrArg keys.all (funext fun e ↦ isOk_breakPage srv (.pre e.2) pid e.1)

/-- **The breaks before the trace** break keys of the list, in order, up to the first exception. -/
theorem preBreaks_eq (pid : ℤ) (s : Replayed) (keys : List (PyStr × ℕ)) :
    let r := preBreaks srv pid s keys
    ∃ done, done <+: keys.map Prod.fst ∧ r.1.events = s.events ++ done.map .breakPage ∧
      r.1.accessCounts = s.accessCounts ∧ (r.2 = none ↔ preQuiet srv pid keys = true) ∧
      (r.2 = none → done = keys.map Prod.fst) ∧
      ∀ k, k ∈ done ↔ k ∈ keys.map Prod.fst ∧ resolvesUpTo srv k (preCalls keys) = true := by
  induction keys generalizing s with
  | nil => exact ⟨[], List.prefix_rfl, (List.append_nil _).symm, rfl, by simp [preBreaks, preQuiet],
      fun _ ↦ rfl, fun k ↦ by simp⟩
  | cons e keys ih =>
    rw [preBreaks, breakKey]
    have hok := isOk_breakPage srv (.pre e.2) pid e.1
    have hreach : ∀ k, resolvesUpTo srv k (preCalls (e :: keys)) = true ↔ k = e.1 ∨
        (srv.breakPage (.pre e.2) pid e.1).isOk = true ∧
          resolvesUpTo srv k (preCalls keys) = true := by
      intro k
      rw [hok]
      show (decide (e.1 = k) || (_ && resolvesUpTo srv k (preCalls keys))) = true ↔ _
      rw [Bool.or_eq_true, decide_eq_true_eq, Bool.and_eq_true]
      exact or_congr eq_comm Iff.rfl
    rcases hbreak : srv.breakPage (.pre e.2) pid e.1 with err | success
    · refine ⟨[e.1], ⟨keys.map Prod.fst, rfl⟩, rfl, rfl,
        by simp [Ended.andThen, preQuiet, hbreak, Except.isOk, Except.toBool],
        fun he ↦ (by cases he), fun k ↦ ?_⟩
      rw [hreach, hbreak, List.mem_singleton, List.map_cons, List.mem_cons]
      exact ⟨fun h ↦ ⟨Or.inl h, Or.inl h⟩, fun h ↦ h.2.resolve_right fun h' ↦ by cases h'.1⟩
    · obtain ⟨done, hpre, hevents, hcounts, hnone, hall, hmem⟩ :=
        ih ((s.did (.breakPage e.1)).tallied success)
      refine ⟨e.1 :: done, (List.prefix_cons_inj _).2 hpre, ?_, ?_, ?_, ?_, fun k ↦ ?_⟩
      · rw [Ended.andThen, hevents]
        simp
      · rw [Ended.andThen, hcounts]
        simp
      · rw [Ended.andThen, hnone, preQuiet, preQuiet, List.all_cons, hbreak]
        exact Iff.rfl
      · intro h
        rw [hall h, List.map_cons]
      · rw [hreach, hbreak, List.mem_cons, hmem, List.map_cons, List.mem_cons]
        by_cases hk : k = e.1
        · exact iff_of_true (Or.inl hk) ⟨Or.inl hk, Or.inl hk⟩
        · rw [or_iff_right hk, or_iff_right hk, or_iff_right hk]
          exact and_congr_right fun _ ↦ ⟨fun h ↦ ⟨rfl, h⟩, And.right⟩

omit [Python] in
theorem map_fst_zipIdx_preBreakKeys :
    (preBreakKeys breakpoints).zipIdx.map Prod.fst = preBreakKeys breakpoints := by
  rw [List.zipIdx_map_fst]

/-- Replay gets to the trace: the process id and the breaks before it raise nothing. -/
def GetsToTrace (pid : ℤ) : Prop :=
  srv.getRedisPid = .ok pid ∧ preQuiet srv pid (preBreakKeys breakpoints).zipIdx = true

/-- **A whole replay**: it ends before the trace is opened, or it goes over the commands. -/
theorem replayFrom_cases (lines : List PyStr) :
    let r := replayFrom srv breakpoints lines
    ((∀ pid, ¬ GetsToTrace srv breakpoints pid) ∧ r.2 ≠ none ∧
      ∃ done, done <+: preBreakKeys breakpoints ∧ r.1.events = done.map .breakPage ∧
        ∀ k, k ∈ done ↔ srv.getRedisPid.isOk = true ∧ k ∈ preBreakKeys breakpoints ∧
          resolvesUpTo srv k (preCalls (preBreakKeys breakpoints).zipIdx) = true) ∨
    ∃ pid, GetsToTrace srv breakpoints pid ∧
      r.1.events = (preBreakKeys breakpoints).map .breakPage ++
        .openTrace :: eventsFrom srv breakpoints pid [] (commandsOf (lines.zipIdx 1)) ∧
      (r.2 = none ↔ allQuiet srv breakpoints pid [] (commandsOf (lines.zipIdx 1)) = true) ∧
      (r.2 = none → CountsOf srv (commandsOf (lines.zipIdx 1)) r.1) := by
  rw [replayFrom]
  rcases hpid : srv.getRedisPid with e | pid
  · refine Or.inl ⟨fun pid h ↦ ?_, Option.some_ne_none e, [], List.nil_prefix, rfl, fun k ↦
      iff_of_false List.not_mem_nil fun h ↦ by cases h.1⟩
    cases hpid.symm.trans h.1
  · obtain ⟨done, hpre, hevents, hcounts, hnone, hall, hmem⟩ :=
      preBreaks_eq srv pid .start (preBreakKeys breakpoints).zipIdx
    simp only [map_fst_zipIdx_preBreakKeys] at hpre hall hmem
    dsimp only
    rcases hr : preBreaks srv pid .start (preBreakKeys breakpoints).zipIdx with ⟨s, - | e⟩
    · rw [hr] at hevents hcounts hnone hall
      have hstart : CountsOf srv [] (s.did .openTrace) := by
        intro k hk
        rw [Replayed.accessCounts_did, hcounts]
        rfl
      obtain ⟨hevents', hnone', hcounts'⟩ :=
        replayCommands_eq hstart breakpoints pid (commandsOf (lines.zipIdx 1))
      refine Or.inr ⟨pid, ⟨hpid, hnone.1 rfl⟩, ?_⟩
      rw [Ended.andThen, replayLines_eq]
      refine ⟨?_, hnone', hcounts'⟩
      rw [hevents', Replayed.events_did, hevents, hall rfl, List.append_assoc]
      rfl
    · rw [hr] at hevents hnone
      refine Or.inl ⟨fun pid' h ↦ ?_, Option.some_ne_none e, done, hpre, ?_, fun k ↦ ?_⟩
      · obtain rfl : pid = pid' := Except.ok.inj (hpid.symm.trans h.1)
        cases hnone.2 h.2
      · rw [Ended.andThen, hevents]
        rfl
      · rw [hmem]
        exact ⟨fun h ↦ ⟨rfl, h⟩, And.right⟩

end PreBreaks

/-! ### At most one break for each key -/

section AtMostOnce

/-- The event is a call of `break_page` for the key. -/
def Event.breaks (k : PyStr) : Event → Bool
  | .breakPage k' => k' = k
  | _ => false

/-- The number of calls of `break_page` for a key. -/
def breakCount (k : PyStr) (es : List Event) : ℕ := es.countP (Event.breaks k)

theorem breakCount_append (k : PyStr) (es es' : List Event) :
    breakCount k (es ++ es') = breakCount k es + breakCount k es' :=
  List.countP_append

theorem breakCount_map_breakPage (k : PyStr) (ks : List PyStr) :
    breakCount k (ks.map .breakPage) = ks.countP (· = k) := by
  rw [breakCount, List.countP_map]
  rfl

/-- The keys broken before the trace are broken once there, and no other is. -/
theorem breakCount_preBreakKeys (breakpoints : Dict PyStr ℤ) (k : PyStr) :
    breakCount k ((preBreakKeys breakpoints).map .breakPage) =
      if breakpoints.get? k = some (-1) then 1 else 0 := by
  rw [breakCount_map_breakPage, countP_of_nodup (nodup_preBreakKeys breakpoints)]
  by_cases hk : k ∈ preBreakKeys breakpoints
  · rw [if_pos hk, if_pos ((mem_preBreakKeys breakpoints).1 hk)]
  · rw [if_neg hk, if_neg (mt (mem_preBreakKeys breakpoints).2 hk)]

variable [Python] {srv : Server} {breakpoints : Dict PyStr ℤ} {pid : ℤ}

theorem breakCount_commandEvents (k : PyStr) (c : RedisCommand × ℕ) (due : Bool) :
    breakCount k (commandEvents srv pid c due) = if due = true ∧ c.1.key = k then 1 else 0 := by
  have hexec : breakCount k (if isQuiet srv pid c due then [.execute c.1 (succeeds srv c)]
      else []) = 0 := by
    split_ifs <;> rfl
  rw [commandEvents, breakCount_append, hexec, Nat.add_zero]
  rcases due with - | -
  · rfl
  · simp [breakCount, Event.breaks, List.countP_cons]

omit [Python] in
/-- A due key has a breakpoint other than `-1`: the number of its commands that succeeded. -/
theorem isDueAfter_iff {before : List (RedisCommand × ℕ)} {c : RedisCommand × ℕ} :
    isDueAfter srv breakpoints before c = true ↔ c.1.key ≠ [] ∧
      breakpoints.get? c.1.key = some (successes srv before c.1.key : ℤ) := by
  rw [isDueAfter, isDue, Bool.and_eq_true, decide_eq_true_eq, Option.any_eq_true]
  refine and_congr_right fun _ ↦ ⟨?_, fun h ↦ ⟨_, h, ?_⟩⟩
  · rintro ⟨v, hv, h⟩
    rw [Bool.and_eq_true, decide_eq_true_eq, decide_eq_true_eq] at h
    rw [hv, h.2]
  · rw [Bool.and_eq_true, decide_eq_true_eq, decide_eq_true_eq]
    exact ⟨by omega, rfl⟩

omit [Python] in
theorem successes_le_append (before cs : List (RedisCommand × ℕ)) (k : PyStr) :
    successes srv before k ≤ successes srv (before ++ cs) k := by
  rw [successes, successes, List.countP_append]
  exact Nat.le_add_right _ _

/-- A key that is past its breakpoint is not broken any more. -/
theorem breakCount_eventsFrom_of_past {k : PyStr} {v : ℤ} (hv : breakpoints.get? k = some v)
    {before : List (RedisCommand × ℕ)} (hpast : v < successes srv before k)
    (cs : List (RedisCommand × ℕ)) :
    breakCount k (eventsFrom srv breakpoints pid before cs) = 0 := by
  induction cs generalizing before with
  | nil => rfl
  | cons c cs ih =>
    have hnot : ¬ (isDueAfter srv breakpoints before c = true ∧ c.1.key = k) := by
      rintro ⟨hdue, rfl⟩
      have heq := Option.some.inj (hv.symm.trans (isDueAfter_iff.1 hdue).2)
      omega
    have hmore : v < successes srv (before ++ [c]) k :=
      hpast.trans_le (by exact_mod_cast successes_le_append before [c] k)
    rw [eventsFrom, breakCount_append, breakCount_commandEvents, if_neg hnot, Nat.zero_add]
    split_ifs
    · exact ih hmore
    · rfl

/-- A due key is broken as soon as a command on it is reached. -/
theorem breakCount_eventsFrom_pos_iff {k : PyStr} (hk : k ≠ [])
    {before : List (RedisCommand × ℕ)}
    (hv : breakpoints.get? k = some (successes srv before k : ℤ)) (cs : List (RedisCommand × ℕ)) :
    0 < breakCount k (eventsFrom srv breakpoints pid before cs) ↔
      ∃ mid c post, cs = mid ++ c :: post ∧ c.1.key = k ∧
        allQuiet srv breakpoints pid before mid = true := by
  induction cs generalizing before with
  | nil => simp [eventsFrom, breakCount]
  | cons c cs ih =>
    rw [eventsFrom, breakCount_append, breakCount_commandEvents]
    by_cases hkey : c.1.key = k
    · have hdue : isDueAfter srv breakpoints before c = true := by
        rw [isDueAfter_iff, hkey]
        exact ⟨hk, hv⟩
      rw [if_pos ⟨hdue, hkey⟩]
      exact ⟨fun _ ↦ ⟨[], c, cs, rfl, hkey, rfl⟩, fun _ ↦ by omega⟩
    · have hsame : successes srv (before ++ [c]) k = successes srv before k := by
        rw [successes_append_singleton, if_neg fun h ↦ hkey h.1]
        rfl
      rw [if_neg fun h ↦ hkey h.2, Nat.zero_add]
      rcases hquiet : isQuiet srv pid c (isDueAfter srv breakpoints before c) with - | -
      · refine ⟨fun h ↦ absurd h (Nat.lt_irrefl 0), ?_⟩
        rintro ⟨mid, c', post, heq, hkey', hmid⟩
        rcases mid with - | ⟨x, mid⟩
        · exact absurd ((List.cons.inj heq).1 ▸ hkey') hkey
        · obtain ⟨rfl, -⟩ := List.cons.inj heq
          rw [allQuiet, hquiet] at hmid
          cases hmid
      · rw [if_pos rfl, ih (by rw [hsame]; exact hv)]
        constructor
        · rintro ⟨mid, c', post, rfl, hkey', hmid⟩
          exact ⟨c :: mid, c', post, rfl, hkey', by rw [allQuiet, hquiet, hmid]; rfl⟩
        · rintro ⟨mid, c', post, heq, hkey', hmid⟩
          rcases mid with - | ⟨x, mid⟩
          · exact absurd ((List.cons.inj heq).1 ▸ hkey') hkey
          · obtain ⟨rfl, rfl⟩ := List.cons.inj heq
            rw [allQuiet, hquiet] at hmid
            exact ⟨mid, c', post, rfl, hkey', hmid⟩

/-- No command on the key fails while the key is due and a later command on it is reached. -/
def NoFailureWhileDue (srv : Server) (breakpoints : Dict PyStr ℤ) (pid : ℤ)
    (before cs : List (RedisCommand × ℕ)) (k : PyStr) : Prop :=
  ∀ pre c mid c' post, cs = pre ++ c :: mid ++ c' :: post → c.1.key = k → c'.1.key = k →
    isDueAfter srv breakpoints (before ++ pre) c = true →
    allQuiet srv breakpoints pid before (pre ++ c :: mid) = true → succeeds srv c = true

variable {before cs : List (RedisCommand × ℕ)} {c : RedisCommand × ℕ} {k : PyStr}

/-- Where something raises at the first command, nothing after it is reached. -/
theorem NoFailureWhileDue.of_not_quiet
    (hquiet : isQuiet srv pid c (isDueAfter srv breakpoints before c) = false) :
    NoFailureWhileDue srv breakpoints pid before (c :: cs) k := by
  intro pre x mid c' post heq _ _ _ hall
  have hfirst : ∃ t, pre ++ x :: mid = c :: t := by
    rcases pre with - | ⟨y, pre⟩
    · exact ⟨mid, by rw [(List.cons.inj heq).1]; rfl⟩
    · exact ⟨pre ++ x :: mid, by rw [(List.cons.inj heq).1]; rfl⟩
  obtain ⟨t, ht⟩ := hfirst
  rw [ht, allQuiet, hquiet] at hall
  cases hall

/-- The condition at a first command that raises nothing: it is not a failure of the key while due
with the key still to come, and the condition holds from the next command on. -/
theorem noFailureWhileDue_cons
    (hquiet : isQuiet srv pid c (isDueAfter srv breakpoints before c) = true) :
    NoFailureWhileDue srv breakpoints pid before (c :: cs) k ↔
      (c.1.key = k → isDueAfter srv breakpoints before c = true → succeeds srv c = false →
        ¬ ∃ mid c' post, cs = mid ++ c' :: post ∧ c'.1.key = k ∧
          allQuiet srv breakpoints pid (before ++ [c]) mid = true) ∧
      NoFailureWhileDue srv breakpoints pid (before ++ [c]) cs k := by
  constructor
  · intro h
    constructor
    · rintro hkey hdue hfail ⟨mid, c', post, rfl, hkey', hmid⟩
      have hc := h [] c mid c' post rfl hkey hkey' (by rwa [List.append_nil])
        (by rw [List.nil_append, allQuiet, hquiet, hmid]; rfl)
      rw [hfail] at hc
      cases hc
    · rintro pre x mid c' post rfl hkey hkey' hdue hall
      refine h (c :: pre) x mid c' post rfl hkey hkey' (by rwa [List.append_cons]) ?_
      rw [List.cons_append, allQuiet, hquiet, hall]
      rfl
  · rintro ⟨hfirst, hrest⟩ pre x mid c' post heq hkey hkey' hdue hall
    rcases pre with - | ⟨y, pre⟩
    · obtain ⟨rfl, rfl⟩ := List.cons.inj heq
      rw [List.append_nil] at hdue
      rw [List.nil_append, allQuiet, hquiet, Bool.true_and] at hall
      by_contra hfail
      exact hfirst hkey hdue (Bool.eq_false_iff.2 hfail) ⟨mid, c', post, rfl, hkey', hall⟩
    · obtain ⟨rfl, rfl⟩ := List.cons.inj heq
      rw [List.cons_append, allQuiet, hquiet, Bool.true_and] at hall
      exact hrest pre x mid c' post rfl hkey hkey' (by rwa [← List.append_cons]) hall

/-- **One key**: it is broken at most once over the commands exactly where none on it fails while it
is due and comes again. -/
theorem breakCount_eventsFrom_le_one_iff :
    breakCount k (eventsFrom srv breakpoints pid before cs) ≤ 1 ↔
      NoFailureWhileDue srv breakpoints pid before cs k := by
  induction cs generalizing before with
  | nil =>
    refine iff_of_true (Nat.zero_le 1) ?_
    rintro pre c mid c' post heq
    exact absurd heq.symm (by simp)
  | cons c cs ih =>
    rw [eventsFrom, breakCount_append, breakCount_commandEvents]
    rcases hquiet : isQuiet srv pid c (isDueAfter srv breakpoints before c) with - | -
    · refine iff_of_true ?_ (.of_not_quiet hquiet)
      rw [if_neg Bool.false_ne_true]
      show (if _ then 1 else 0) + 0 ≤ 1
      split_ifs <;> omega
    rw [if_pos rfl, noFailureWhileDue_cons hquiet, ← ih]
    by_cases hdue : isDueAfter srv breakpoints before c = true ∧ c.1.key = k
    · rw [if_pos hdue]
      obtain ⟨hdue, rfl⟩ := hdue
      obtain ⟨hk, hv⟩ := isDueAfter_iff.1 hdue
      rcases hc : succeeds srv c with - | -
      · -- the count stays, and the next command on the key breaks it again
        have hsame : successes srv (before ++ [c]) c.1.key = successes srv before c.1.key := by
          rw [successes_append_singleton, if_neg fun h ↦ by rw [hc] at h; cases h.2]
          rfl
        have hpos :
            0 < breakCount c.1.key (eventsFrom srv breakpoints pid (before ++ [c]) cs) ↔ _ :=
          breakCount_eventsFrom_pos_iff hk (hsame ▸ hv) cs
        constructor
        · intro hle
          exact ⟨fun _ _ _ hlater ↦ by have := hpos.2 hlater; omega, by omega⟩
        · rintro ⟨hnone, -⟩
          have hzero := mt hpos.1 (hnone rfl hdue rfl)
          omega
      · have hmore : (successes srv before c.1.key : ℤ) <
            successes srv (before ++ [c]) c.1.key := by
          rw [successes_append_singleton, if_pos ⟨rfl, hc⟩]
          omega
        rw [breakCount_eventsFrom_of_past hv hmore]
        exact iff_of_true le_rfl ⟨fun _ _ h ↦ (by cases h), Nat.zero_le 1⟩
    · rw [if_neg hdue, Nat.zero_add]
      exact ⟨fun h ↦ ⟨fun hkey hd ↦ absurd ⟨hd, hkey⟩ hdue, h⟩, And.right⟩

/-- **A call of `replay` breaks each key at most once exactly where no command of the trace fails
while its key is due and another command on the key is reached.** -/
theorem replay_breaks_le_one_iff (srv : Server) (trace : PyStr)
    (breakpoints : Option (Dict PyStr ℤ)) :
    (∀ k, breakCount k (replay srv trace breakpoints).1.events ≤ 1) ↔
      ∀ pid, GetsToTrace srv (breakpoints.getD Dict.empty) pid → ∀ k,
        NoFailureWhileDue srv (breakpoints.getD Dict.empty) pid [] (traceCommands trace) k := by
  rw [replay, traceCommands]
  generalize breakpoints.getD Dict.empty = bps
  rcases replayFrom_cases srv bps (fileLines trace) with
    ⟨hnot, -, done, hdone, hevents, -⟩ | ⟨pid, hpid, hevents, -⟩
  · refine iff_of_true (fun k ↦ ?_) fun pid hpid ↦ absurd hpid (hnot pid)
    rw [hevents, breakCount_map_breakPage]
    have hle := (hdone.sublist.map Event.breakPage).countP_le (p := Event.breaks k)
    have hall := breakCount_preBreakKeys bps k
    rw [breakCount] at hall
    rw [List.countP_map, hall] at hle
    exact hle.trans (by split_ifs <;> omega)
  · have hcount : ∀ k, breakCount k (replayFrom srv bps (fileLines trace)).1.events ≤ 1 ↔
        breakCount k (eventsFrom srv bps pid [] (commandsOf ((fileLines trace).zipIdx 1))) ≤ 1 := by
      intro k
      rw [hevents, breakCount_append, breakCount_preBreakKeys]
      show _ + breakCount k ([.openTrace] ++ _) ≤ 1 ↔ _
      rw [breakCount_append, show breakCount k [.openTrace] = 0 from rfl, Nat.zero_add]
      split_ifs with hk
      · -- a key broken before the trace is past its breakpoint from the start
        rw [breakCount_eventsFrom_of_past hk (by omega)]
        exact iff_of_true le_rfl (Nat.zero_le 1)
      · rw [Nat.zero_add]
    rw [forall_congr' hcount]
    constructor
    · intro h pid' hpid' k
      obtain rfl : pid = pid' := Except.ok.inj (hpid.1.symm.trans hpid'.1)
      exact breakCount_eventsFrom_le_one_iff.1 (h k)
    · exact fun h k ↦ breakCount_eventsFrom_le_one_iff.2 (h pid hpid k)

end AtMostOnce

/-- A server that answers every call, except that no attempt to execute a command succeeds at some
lines. -/
def failingAt (lines : List ℕ) : Server where
  processId := .ok (some 7)
  vaptr _ key := .ok (some (key, ['1', '0']))
  splitThp _ _ _ _ := (0, 0)
  executeCommand lineNo _ _ := if lineNo ∈ lines then .error .redisError else .ok ()

/-- A log in which `user1` is read twice. -/
def twoReads : PyStr := oneRead ++ oneRead

/-- The first read fails while `user1` is due, so that it is split again at the second. -/
theorem not_breaks_le_one_twoReads : ¬ ∀ k, breakCount k
    (@replay Python.ascii (failingAt [1]) twoReads
      (some (Dict.empty.set user1 0))).1.events ≤ 1 := by
  intro h
  exact absurd (h user1) (by decide +kernel)

/-! ### Breakpoints when every command succeeds -/

/-- What happens to one key: it is accessed, or its page is to be split. -/
inductive KeyEvent where
  /-- A command on it succeeds. -/
  | access
  /-- `break_page` is called for it. -/
  | split
  deriving DecidableEq

/-- What an event is for a key. -/
def Event.ofKey (k : PyStr) : Event → Option KeyEvent
  | .breakPage k' => if k' = k then some .split else none
  | .openTrace => none
  | .execute cmd ok => if ok = true ∧ cmd.key = k then some .access else none

/-- The history of a key. -/
def historyOf (k : PyStr) (es : List Event) : List KeyEvent := es.filterMap (Event.ofKey k)

theorem historyOf_append (k : PyStr) (es es' : List Event) :
    historyOf k (es ++ es') = historyOf k es ++ historyOf k es' :=
  List.filterMap_append

/-- The breaks of a key are the splits in its history. -/
theorem breakCount_eq (k : PyStr) (es : List Event) :
    breakCount k es = (historyOf k es).countP (· = .split) := by
  rw [breakCount, historyOf, List.countP_filterMap]
  refine List.countP_congr fun e _ ↦ ?_
  rcases e with k' | - | ⟨cmd, ok⟩
  · by_cases hk : k' = k <;> simp [Event.breaks, Event.ofKey, hk]
  · simp [Event.breaks, Event.ofKey]
  · by_cases hok : ok = true ∧ cmd.key = k <;> simp [Event.breaks, Event.ofKey, hok]

theorem historyOf_map_breakPage {k : PyStr} {ks : List PyStr} (hk : k ∉ ks) :
    historyOf k (ks.map .breakPage) = [] := by
  refine List.filterMap_eq_nil_iff.2 fun e he ↦ ?_
  obtain ⟨k', hk', rfl⟩ := List.mem_map.1 he
  exact if_neg fun h : k' = k ↦ hk (h ▸ hk')

/-- The key is split once, after `a` accesses. -/
def SplitAfter (a : ℕ) (history : List KeyEvent) : Prop :=
  ∃ m, history = List.replicate a .access ++ .split :: List.replicate m .access

theorem SplitAfter.mem {a : ℕ} {history : List KeyEvent} (h : SplitAfter a history) :
    KeyEvent.split ∈ history := by
  obtain ⟨m, rfl⟩ := h
  exact List.mem_append_right _ List.mem_cons_self

theorem SplitAfter.access {a : ℕ} {history : List KeyEvent} (h : SplitAfter a history) :
    SplitAfter (a + 1) (.access :: history) := by
  obtain ⟨m, rfl⟩ := h
  exact ⟨m, rfl⟩

theorem mem_historyOf_iff {k : PyStr} {es : List Event} :
    KeyEvent.split ∈ historyOf k es ↔ 0 < breakCount k es := by
  rw [breakCount_eq, List.countP_pos_iff]
  constructor
  · exact fun h ↦ ⟨.split, h, rfl⟩
  · rintro ⟨e, he, hsplit⟩
    rwa [← of_decide_eq_true hsplit]

/-- A key that is not split is accessed so many times. -/
theorem exists_replicate {history : List KeyEvent} (h : KeyEvent.split ∉ history) :
    ∃ m, history = List.replicate m .access := by
  refine ⟨history.length, List.eq_replicate_iff.2 ⟨rfl, fun e he ↦ ?_⟩⟩
  cases e with
  | access => rfl
  | split => exact absurd he h

section Honours

variable [Python] {srv : Server} {breakpoints : Dict PyStr ℤ} {pid : ℤ}

/-- The number of accesses of a key in a list of commands. -/
def accesses (cs : List (RedisCommand × ℕ)) (k : PyStr) : ℕ := cs.countP fun c ↦ c.1.key = k

/-- A command that succeeds, with the page break before it where its key is due. -/
theorem historyOf_commandEvents {c : RedisCommand × ℕ} {due : Bool} (k : PyStr)
    (hc : succeeds srv c = true) : historyOf k (commandEvents srv pid c due) =
      if c.1.key = k then
        (if due = true then [.split] else []) ++
          if isQuiet srv pid c due = true then [.access] else []
      else [] := by
  rw [commandEvents, hc]
  by_cases hkey : c.1.key = k <;> rcases due with - | - <;>
    rcases isQuiet srv pid c _ with - | - <;> simp [historyOf, Event.ofKey, hkey]

/-- A command that succeeds raises nothing where its key is not due or has an address. -/
theorem isQuiet_of_succeeds {c : RedisCommand × ℕ} (hc : succeeds srv c = true) (due : Bool) :
    isQuiet srv pid c due =
      (!due || (srv.resolveKeyVaddr (.line c.2) c.1.key).isOk) := by
  have hexec : (srv.execute c.1 c.2).isOk = true := by
    rw [succeeds] at hc
    rcases hexec : srv.execute c.1 c.2 with e | ok
    · rw [hexec] at hc
      cases hc
    · rfl
  rw [isQuiet, hexec, Bool.and_true, isOk_breakPage]

/-- A key with `d` accesses so far comes to its breakpoint in the next `m`. -/
def Comes (k : PyStr) (v : ℤ) (d m : ℕ) : Prop := k ≠ [] ∧ (d : ℤ) ≤ v ∧ v < d + m

omit [Python] in
theorem comes_succ {k : PyStr} {v : ℤ} {d m : ℕ} (h : ¬ (k ≠ [] ∧ v = d)) :
    Comes k v d (m + 1) ↔ Comes k v (d + 1) m := by
  refine and_congr_right fun hk ↦ ?_
  have hne : v ≠ d := fun hv ↦ h ⟨hk, hv⟩
  omega

/-- The key is split once, after `a` accesses, where `p` is the case, and else never. -/
def SplitsWhere (p : Prop) (a : ℕ) (history : List KeyEvent) : Prop :=
  (p → SplitAfter a history) ∧ (¬ p → KeyEvent.split ∉ history)

omit [Python] in
theorem SplitsWhere.access {p : Prop} {a : ℕ} {history : List KeyEvent}
    (h : SplitsWhere p a history) : SplitsWhere p (a + 1) (.access :: history) := by
  refine ⟨fun hp ↦ (h.1 hp).access, fun hp hmem ↦ ?_⟩
  rcases List.mem_cons.1 hmem with hsplit | hmem
  · cases hsplit
  · exact h.2 hp hmem

omit [Python] in
theorem SplitsWhere.congr {p q : Prop} {a b : ℕ} {history : List KeyEvent}
    (h : SplitsWhere p a history) (hpq : q ↔ p) (hab : q → b = a) : SplitsWhere q b history :=
  ⟨fun hq ↦ hab hq ▸ h.1 (hpq.1 hq), fun hq ↦ h.2 (mt hpq.2 hq)⟩

/-- What comes at and after a command that succeeds, for one key. -/
theorem historyOf_eventsFrom_cons {k : PyStr} {c : RedisCommand × ℕ}
    {before cs : List (RedisCommand × ℕ)} (hc : succeeds srv c = true) :
    let due := isDueAfter srv breakpoints before c
    let quiet := !due || (srv.resolveKeyVaddr (.line c.2) c.1.key).isOk
    historyOf k (eventsFrom srv breakpoints pid before (c :: cs)) =
      (if c.1.key = k then
        (if due = true then [.split] else []) ++ if quiet = true then [.access] else []
      else []) ++
        historyOf k (if quiet = true then eventsFrom srv breakpoints pid (before ++ [c]) cs
          else []) := by
  rw [eventsFrom, historyOf_append, historyOf_commandEvents k hc, isQuiet_of_succeeds hc]

/-- **A command on the key at its breakpoint**: the key is split before it, and never again. -/
theorem splitAfter_of_due {v : ℤ} {c : RedisCommand × ℕ} {before : List (RedisCommand × ℕ)}
    (hc : succeeds srv c = true) (hv : breakpoints.get? c.1.key = some v)
    (hdue : isDueAfter srv breakpoints before c = true) (cs : List (RedisCommand × ℕ)) :
    SplitAfter 0 (historyOf c.1.key (eventsFrom srv breakpoints pid before (c :: cs))) := by
  have hd := (isDueAfter_iff.1 hdue).2
  obtain rfl := Option.some.inj (hv.symm.trans hd)
  have hpast : breakCount c.1.key (eventsFrom srv breakpoints pid (before ++ [c]) cs) = 0 :=
    breakCount_eventsFrom_of_past hv (by
      rw [successes_append_singleton, if_pos ⟨rfl, hc⟩]
      omega) cs
  obtain ⟨m, hm⟩ := exists_replicate fun h ↦ (mem_historyOf_iff.1 h).ne' hpast
  rw [historyOf_eventsFrom_cons hc, hdue, if_pos rfl]
  by_cases hok : (srv.resolveKeyVaddr (.line c.2) c.1.key).isOk = true
  · rw [hok]
    refine ⟨m + 1, ?_⟩
    show .split :: .access :: historyOf c.1.key _ = .split :: .access :: List.replicate m _
    rw [← hm]
    rfl
  · rw [Bool.eq_false_iff.2 hok]
    exact ⟨0, rfl⟩

/-- **The history of a key** over commands that all succeed: it is split once, at its breakpoint,
where it comes to it and no page break before raises, and else never. -/
theorem historyOf_eventsFrom {k : PyStr} {v : ℤ} (hv : breakpoints.get? k = some v)
    {before cs : List (RedisCommand × ℕ)} (hsucc : ∀ c ∈ cs, succeeds srv c = true) :
    SplitsWhere (Comes k v (successes srv before k) (accesses cs k) ∧
        resolvesUpTo srv k (dueCalls srv breakpoints before cs) = true)
      (v - successes srv before k).toNat
      (historyOf k (eventsFrom srv breakpoints pid before cs)) := by
  induction cs generalizing before with
  | nil =>
    refine ⟨fun h ↦ ?_, fun _ ↦ List.not_mem_nil⟩
    obtain ⟨⟨-, hle, hlt⟩, -⟩ := h
    rw [accesses, List.countP_nil] at hlt
    omega
  | cons c cs ih =>
    obtain ⟨hc, hcs⟩ := List.forall_mem_cons.1 hsucc
    have hrest := @ih (before ++ [c]) hcs
    rw [successes_append_singleton] at hrest
    rw [dueCalls, accesses, List.countP_cons, ← accesses]
    by_cases hkey : c.1.key = k
    · rw [if_pos ⟨hkey, hc⟩] at hrest
      rw [if_pos (decide_eq_true hkey)]
      rcases hdue : isDueAfter srv breakpoints before c with - | -
      · -- an access that no page break precedes
        have hnot : ¬ (k ≠ [] ∧ v = successes srv before k) := by
          rintro ⟨hk, rfl⟩
          rw [Bool.eq_false_iff, ne_eq, isDueAfter_iff, hkey] at hdue
          exact hdue ⟨hk, hv⟩
        rw [historyOf_eventsFrom_cons hc, hdue, if_pos hkey, comes_succ hnot]
        refine hrest.access.congr Iff.rfl fun h ↦ ?_
        have hle := h.1.2.1
        omega
      · -- the key comes to its breakpoint
        subst hkey
        obtain ⟨hk, hd⟩ := isDueAfter_iff.1 hdue
        have hzero := @splitAfter_of_due _ srv breakpoints pid v c before hc hv hdue cs
        obtain rfl := Option.some.inj (hv.symm.trans hd)
        have hcalls : resolvesUpTo srv c.1.key ((if (true : Bool) = true
            then [(.line c.2, c.1.key)] else []) ++
              dueCalls srv breakpoints (before ++ [c]) cs) = true := by
          show (decide (c.1.key = c.1.key) || _) = true
          rw [decide_eq_true rfl, Bool.true_or]
        rw [Int.sub_self]
        exact ⟨fun _ ↦ hzero, fun h ↦ absurd ⟨⟨hk, le_rfl, by omega⟩, hcalls⟩ h⟩
    · rw [if_neg fun h ↦ hkey h.1] at hrest
      rw [historyOf_eventsFrom_cons hc, if_neg hkey, if_neg fun h ↦ hkey (of_decide_eq_true h),
        List.nil_append]
      rcases hdue : isDueAfter srv breakpoints before c with - | -
      · exact hrest
      · -- the page of another key is to be broken
        rw [if_pos rfl, List.singleton_append, resolvesUpTo, decide_eq_false hkey, Bool.false_or,
          Bool.not_true, Bool.false_or]
        by_cases hok : (srv.resolveKeyVaddr (.line c.2) c.1.key).isOk = true
        · rw [hok, Bool.true_and, if_pos rfl]
          exact hrest
        · rw [Bool.eq_false_iff.2 hok]
          exact ⟨fun h ↦ absurd h.2 Bool.false_ne_true, fun _ ↦ List.not_mem_nil⟩

/-- Replay does with a breakpoint what `set_breakpoint` and the replay pipeline say of it, for a key
with `n` accesses. -/
def Honours (k : PyStr) (n : ℕ) (v : ℤ) (es : List Event) : Prop :=
  (v = -1 → ∃ es₁ es₂, es = es₁ ++ es₂ ∧ Event.openTrace ∉ es₁ ∧ breakCount k es₁ = 1 ∧
    breakCount k es₂ = 0) ∧
  (0 ≤ v ∧ v ≤ n → SplitAfter v.toNat (historyOf k es)) ∧
  (v = n + 1 → breakCount k es = 0)

omit [Python] in
/-- Among the values in range, one that is acted on where `P` holds, and never else. -/
theorem honours_iff_of_history {k : PyStr} {n : ℕ} {v : ℤ} {es : List Event} {P : Prop}
    (hrange : InRange n v) (hyes : P → SplitAfter v.toNat (historyOf k es))
    (hno : ¬ P → KeyEvent.split ∉ historyOf k es) (hmax : v = n + 1 → ¬ P) :
    Honours k n v es ↔ v = n + 1 ∨ P := by
  obtain ⟨hlow, hhigh⟩ := hrange
  by_cases hlast : v = n + 1
  · refine iff_of_true ⟨fun hv ↦ by omega, fun hv ↦ by omega, fun _ ↦ ?_⟩ (Or.inl hlast)
    exact Nat.eq_zero_of_not_pos (mt mem_historyOf_iff.2 (hno (hmax hlast)))
  · rw [or_iff_right hlast]
    constructor
    · intro h
      by_contra hP
      exact hno hP (h.2.1 ⟨hlow, by omega⟩).mem
    · exact fun hP ↦ ⟨fun hv ↦ by omega, fun _ ↦ hyes hP, fun hv ↦ absurd hv hlast⟩

/-- Replay comes to the first page break of the key: there is a process id, and no page break before
it raises. -/
def Reaches (srv : Server) (trace : PyStr) (breakpoints : Dict PyStr ℤ) (k : PyStr) : Prop :=
  srv.getRedisPid.isOk = true ∧ resolvesUpTo srv k (breakCalls srv trace breakpoints) = true

section Run

variable {trace k : PyStr} {v : ℤ}

omit [Python] in
theorem map_snd_preCalls (breakpoints : Dict PyStr ℤ) :
    (preCalls (preBreakKeys breakpoints).zipIdx).map Prod.snd = preBreakKeys breakpoints := by
  rw [preCalls, List.map_map]
  exact map_fst_zipIdx_preBreakKeys breakpoints

theorem reaches_iff_of_mem (hk : k ∈ preBreakKeys breakpoints) :
    Reaches srv trace breakpoints k ↔ srv.getRedisPid.isOk = true ∧
      resolvesUpTo srv k (preCalls (preBreakKeys breakpoints).zipIdx) = true := by
  rw [Reaches, breakCalls, resolvesUpTo_append_of_mem (by rwa [map_snd_preCalls])]

theorem reaches_iff_of_not_mem (hk : k ∉ preBreakKeys breakpoints) :
    Reaches srv trace breakpoints k ↔ (∃ pid, GetsToTrace srv breakpoints pid) ∧
      resolvesUpTo srv k (dueCalls srv breakpoints [] (traceCommands trace)) = true := by
  have hpid : srv.getRedisPid.isOk = true ↔ ∃ pid, srv.getRedisPid = .ok pid := by
    rcases srv.getRedisPid with e | pid
    · refine iff_of_false Bool.false_ne_true ?_
      rintro ⟨pid, h⟩
      cases h
    · exact iff_of_true rfl ⟨pid, rfl⟩
  rw [Reaches, breakCalls, resolvesUpTo_append_of_not_mem (by rwa [map_snd_preCalls]), hpid,
    Bool.and_eq_true]
  constructor
  · rintro ⟨⟨pid, h⟩, hpre, hdue⟩
    exact ⟨⟨pid, h, by rwa [preQuiet_eq]⟩, hdue⟩
  · rintro ⟨⟨pid, h, hpre⟩, hdue⟩
    exact ⟨⟨pid, h⟩, by rwa [preQuiet_eq] at hpre, hdue⟩

/-- **A key with breakpoint `-1`** is split once, before the trace is opened, where replay comes to
it, and else never. -/
theorem split_before_trace (hv : breakpoints.get? k = some (-1)) :
    let es := (replay srv trace (some breakpoints)).1.events
    (Reaches srv trace breakpoints k → ∃ es₁ es₂, es = es₁ ++ es₂ ∧ Event.openTrace ∉ es₁ ∧
      breakCount k es₁ = 1 ∧ breakCount k es₂ = 0) ∧
    (¬ Reaches srv trace breakpoints k → breakCount k es = 0) := by
  have hk := (mem_preBreakKeys breakpoints).2 hv
  have hnotOpen : ∀ keys : List PyStr, Event.openTrace ∉ keys.map .breakPage := fun keys h ↦ by
    obtain ⟨_, -, h⟩ := List.mem_map.1 h
    cases h
  rw [reaches_iff_of_mem hk, replay, Option.getD_some]
  rcases replayFrom_cases srv breakpoints (fileLines trace) with
    ⟨-, -, done, hpre, hevents, hdone⟩ | ⟨pid, hpid, hevents, -⟩
  · have hcount := countP_of_nodup ((nodup_preBreakKeys breakpoints).sublist hpre.sublist) k
    rw [← breakCount_map_breakPage] at hcount
    have hiff := hdone k
    rw [and_iff_right hk] at hiff
    rw [hevents, ← hiff]
    refine ⟨fun hmem ↦ ?_, fun hmem ↦ by rw [hcount, if_neg hmem]⟩
    exact ⟨_, [], (List.append_nil _).symm, hnotOpen done, by rw [hcount, if_pos hmem], rfl⟩
  · rw [hevents]
    refine ⟨fun _ ↦ ⟨_, _, rfl, hnotOpen _, by rw [breakCount_preBreakKeys, if_pos hv],
      breakCount_eventsFrom_of_past hv (by omega) _⟩, fun hnot ↦ absurd ⟨?_, ?_⟩ hnot⟩
    · rw [hpid.1]
      rfl
    · refine resolvesUpTo_of_all ?_
      rw [← preQuiet_eq srv pid]
      exact hpid.2

/-- **The history of any other key** with a breakpoint, when every command succeeds: it is split
once, at its breakpoint, where it and replay come to it, and else never. -/
theorem historyOf_replay (hexec : ∀ c ∈ traceCommands trace, succeeds srv c = true)
    (hv : breakpoints.get? k = some v) (hne : v ≠ -1) :
    let history := historyOf k (replay srv trace (some breakpoints)).1.events
    let reached := Comes k v 0 (accesses (traceCommands trace) k) ∧ Reaches srv trace breakpoints k
    (reached → SplitAfter v.toNat history) ∧ (¬ reached → KeyEvent.split ∉ history) := by
  have hk : k ∉ preBreakKeys breakpoints := fun h ↦
    hne (Option.some.inj (hv.symm.trans ((mem_preBreakKeys breakpoints).1 h)))
  rw [reaches_iff_of_not_mem hk, replay, Option.getD_some]
  rcases replayFrom_cases srv breakpoints (fileLines trace) with
    ⟨hnot, -, done, hpre, hevents, -⟩ | ⟨pid, hpid, hevents, -⟩
  · rw [hevents, historyOf_map_breakPage fun h ↦ hk (hpre.subset h)]
    exact ⟨fun h ↦ absurd h.2.1 (not_exists.2 hnot), fun _ ↦ List.not_mem_nil⟩
  · have hfrom := @historyOf_eventsFrom _ srv breakpoints pid k v hv [] (traceCommands trace) hexec
    have hgets : ∃ pid, GetsToTrace srv breakpoints pid := ⟨pid, hpid⟩
    rw [show successes srv [] k = 0 from rfl, Int.natCast_zero, Int.sub_zero] at hfrom
    rw [hevents, historyOf_append, historyOf_map_breakPage hk, List.nil_append,
      and_iff_right hgets]
    exact hfrom

/-- **Replay honours a breakpoint exactly where** it is the value that stands for never, or it is
`-1` or less than the number of accesses and replay comes to it, when every command succeeds: the
number of accesses itself, which is in range, triggers nothing. -/
theorem replay_honours_iff (hexec : ∀ c ∈ traceCommands trace, succeeds srv c = true)
    (hv : breakpoints.get? k = some v)
    (hrange : v = -1 ∨ InRange (accesses (traceCommands trace) k) v) :
    Honours k (accesses (traceCommands trace) k) v (replay srv trace (some breakpoints)).1.events ↔
      v = accesses (traceCommands trace) k + 1 ∨
        (v = -1 ∨ v < accesses (traceCommands trace) k ∧ k ≠ []) ∧
          Reaches srv trace breakpoints k := by
  rcases hrange with rfl | hrange
  · obtain ⟨hyes, hno⟩ := split_before_trace hv
    rw [or_iff_right (by omega), and_iff_right (Or.inl rfl)]
    constructor
    · intro h
      obtain ⟨es₁, es₂, hes, -, hone, -⟩ := h.1 rfl
      by_contra hnot
      have hzero := hno hnot
      rw [hes, breakCount_append, hone] at hzero
      omega
    · exact fun h ↦ ⟨fun _ ↦ hyes h, fun hv ↦ by omega, fun hv ↦ by omega⟩
  · have hne : v ≠ -1 := fun h ↦ by have := hrange.1; omega
    obtain ⟨hyes, hno⟩ := historyOf_replay hexec hv hne
    rw [honours_iff_of_history hrange hyes hno fun hlast h ↦ by have := h.1.2.2; omega,
      or_iff_right hne]
    refine or_congr_right (and_congr_left fun _ ↦ ?_)
    rw [Comes, Int.natCast_zero, zero_add]
    exact ⟨fun h ↦ ⟨h.2.2, h.1⟩, fun h ↦ ⟨h.2, hrange.1, h.1⟩⟩

omit [Python] in
/-- A breakpoint before the only access is honoured. -/
theorem honours_zero_oneRead : Honours user1
    (accesses (@traceCommands Python.ascii oneRead) user1) 0
    (@replay Python.ascii (failingAt []) oneRead (some (Dict.empty.set user1 0))).1.events :=
  (@replay_honours_iff Python.ascii (failingAt []) (Dict.empty.set user1 0) oneRead user1 0
    (by decide +kernel) (by decide +kernel) (Or.inr (by decide +kernel))).2
    (Or.inr ⟨Or.inr (by decide +kernel), by decide +kernel, by decide +kernel⟩)

omit [Python] in
/-- A breakpoint after the only access is in range and triggers nothing. -/
theorem not_honours_one_oneRead :
    (∀ c ∈ @traceCommands Python.ascii oneRead, succeeds (failingAt []) c = true) ∧
    (@replay Python.ascii (failingAt []) oneRead (some (Dict.empty.set user1 1))).2 = none ∧
    (Dict.empty.set user1 (1 : ℤ)).get? user1 = some 1 ∧
    InRange (accesses (@traceCommands Python.ascii oneRead) user1) 1 ∧
    ¬ Honours user1 (accesses (@traceCommands Python.ascii oneRead) user1) 1
      (@replay Python.ascii (failingAt []) oneRead (some (Dict.empty.set user1 1))).1.events := by
  refine ⟨by decide +kernel, by decide +kernel, by decide +kernel, by decide +kernel, fun h ↦ ?_⟩
  exact absurd (h.2.1 (by decide +kernel)).mem (by decide +kernel)

/-- **What replay acts on**: of the breakpoints of a key to which it comes, `-1` and the numbers of
accesses after which there is another. -/
theorem breakCount_replay_pos_iff (hexec : ∀ c ∈ traceCommands trace, succeeds srv c = true)
    (hk : k ≠ []) (hv : breakpoints.get? k = some v) :
    0 < breakCount k (replay srv trace (some breakpoints)).1.events ↔
      ActedOn (accesses (traceCommands trace) k) v ∧ Reaches srv trace breakpoints k := by
  by_cases hne : v = -1
  · subst hne
    obtain ⟨hyes, hno⟩ := @split_before_trace _ srv breakpoints trace k hv
    rw [ActedOn, and_iff_right (Or.inl rfl)]
    constructor
    · intro h
      by_contra hnot
      exact h.ne' (hno hnot)
    · intro h
      obtain ⟨es₁, es₂, hes, -, hone, -⟩ := hyes h
      rw [hes, breakCount_append, hone]
      omega
  · obtain ⟨hyes, hno⟩ := historyOf_replay hexec hv hne
    have hcomes : ActedOn (accesses (traceCommands trace) k) v ↔
        Comes k v 0 (accesses (traceCommands trace) k) := by
      rw [ActedOn, or_iff_right hne, Comes, and_iff_right hk, Int.natCast_zero, zero_add]
    rw [← mem_historyOf_iff, hcomes]
    exact ⟨fun h ↦ by_contra fun hnot ↦ hno hnot h, fun h ↦ (hyes h).mem⟩

end Run

end Honours

end Replay
