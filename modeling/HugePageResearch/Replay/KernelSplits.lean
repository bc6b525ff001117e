import HugePageResearch.Replay.SplitThp
import HugePageResearch.Replay.Tallies

/-!
# The pages that a replay splits

`replay` of `data_collection/replay_trace.py` over the syscall of `SplitThp`: each attempt of
`break_page` is one call of the syscall, whose code comes back through the C library as a return
code and an `errno`. The kernel may answer every attempt in its own way.

`replay_splits` says what the tallies of a replay are then: the successful page breaks are the
folios that the kernel has split, one for each, and each was mapped at the address that the module
gave for the key; and no attempt has left a lock or a reference behind.
-/

namespace Replay

open SplitThp

/-! ### The syscall in place of its answers -/

/-- `syscall` of the C library: the return code and the `errno`. -/
def libcSyscall (code : ℤ) : ℤ × ℕ :=
  if -4095 ≤ code ∧ code < 0 then (-1, (-code).toNat) else (code, 0)

/-- How the kernel answers, by the call of `break_page` and its attempt. -/
abbrev SplitKernel := BreakSite → ℕ → Script.Env Cmd Ans

/-- One attempt: `split_thp(pid, vaddr)`, with what happens in it. -/
def SplitKernel.invoke (kernel : SplitKernel) (site : BreakSite) (attempt : ℕ) (pid vaddr : ℤ) :
    Log × Except Empty ℤ :=
  SplitThp.invoke (kernel site attempt) (BitVec.ofInt 32 pid) (BitVec.ofInt 64 vaddr)

/-- The code of a syscall. -/
def codeOf : Except Empty ℤ → ℤ
  | .ok code => code
  | .error e => e.elim

/-- The server, on a machine with this kernel. -/
def Server.withKernel (srv : Server) (kernel : SplitKernel) : Server where
  processId := srv.processId
  vaptr := srv.vaptr
  splitThp site attempt pid vaddr := libcSyscall (codeOf (kernel.invoke site attempt pid vaddr).2)
  executeCommand := srv.executeCommand

section Calls

variable (srv : Server) (kernel : SplitKernel) (site : BreakSite) (pid vaddr : ℤ)

/-- What happens in the attempts that are made: up to the first one that succeeds. -/
def attemptLogs : List ℕ → List Log
  | [] => []
  | attempt :: attempts =>
    let r := kernel.invoke site attempt pid vaddr
    r.1 :: if codeOf r.2 = 0 then [] else attemptLogs attempts

/-- What happens in the syscalls of one call of `break_page`. -/
def callLogs [Python] (call : BreakSite × PyStr) : List Log :=
  match srv.resolveKeyVaddr call.1 call.2 with
  | .error _ => []
  | .ok vaddr => attemptLogs kernel call.1 pid vaddr (List.range' 1 breakPageMaxAttempts)

/-- The folios that one call of `break_page` has split. -/
def callSplits [Python] (call : BreakSite × PyStr) : List Folio :=
  (callLogs srv kernel pid call).flatMap splits

end Calls

/-! ### One call of `break_page` -/

section Call

variable {srv : Server} {kernel : SplitKernel} {site : BreakSite} {pid vaddr : ℤ}

theorem libcSyscall_fst_eq_zero {code : ℤ} : (libcSyscall code).1 = 0 ↔ code = 0 := by
  rw [libcSyscall]
  split_ifs with h
  · exact iff_of_false (by show (-1 : ℤ) ≠ 0; decide) (ne_of_lt h.2)
  · exact Iff.rfl

theorem invokeSplitThp_eq_none {attempt : ℕ} : srv.invokeSplitThp site attempt pid vaddr = none ↔
    (srv.splitThp site attempt pid vaddr).1 = 0 := by
  rw [Server.invokeSplitThp]
  dsimp only
  split_ifs with h
  · exact iff_of_true rfl h
  · exact iff_of_false not_false h

theorem invokeSplitThp_withKernel {attempt : ℕ} :
    (srv.withKernel kernel).invokeSplitThp site attempt pid vaddr = none ↔
      codeOf (kernel.invoke site attempt pid vaddr).2 = 0 :=
  invokeSplitThp_eq_none.trans libcSyscall_fst_eq_zero

/-- What one attempt does: it splits one folio or none, and its code says which. -/
structure Attempt (pid vaddr : ℤ) (r : Log × Except Empty ℤ) : Prop where
  safe : Script.Safe Allowed r.1
  released : held r.1 = []
  length : (splits r.1).length = if codeOf r.2 = 0 then 1 else 0
  mapped : ∀ folio ∈ splits r.1,
    Mapped (BitVec.ofInt 32 pid) (pageOf (BitVec.ofInt 64 vaddr)) r.1 folio

theorem attempt_invoke (kernel : SplitKernel) (site : BreakSite) (attempt : ℕ) (pid vaddr : ℤ) :
    Attempt pid vaddr (kernel.invoke site attempt pid vaddr) := by
  obtain ⟨hsafe, code, fs, hcode, hl, hout⟩ := exists_leads_invoke (kernel site attempt)
    (BitVec.ofInt 32 pid) (BitVec.ofInt 64 vaddr)
  have hcode' : codeOf (kernel.invoke site attempt pid vaddr).2 = code := congrArg codeOf hcode
  have hfs : splits (kernel.invoke site attempt pid vaddr).1 = fs := hl.splits_eq
  refine ⟨hsafe, hl.held_eq, ?_, ?_⟩
  · rw [hcode', hfs]
    cases hout with
    | split folio hmapped => rfl
    | failed code hne => rw [if_neg hne]; rfl
  · rw [hfs]
    cases hout with
    | split folio hmapped => exact List.forall_mem_singleton.2 hmapped
    | failed code hne => exact List.forall_mem_nil _

/-- **The attempts end with the first folio that is split.** -/
theorem length_attemptLogs (srv : Server) (err : ℕ) (attempts : List ℕ) :
    ((attemptLogs kernel site pid vaddr attempts).flatMap splits).length =
      if (srv.withKernel kernel).splitAttempts site pid vaddr (some err) attempts = none
        then 1 else 0 := by
  induction attempts generalizing err with
  | nil => rfl
  | cons attempt attempts ih =>
    have hlen := (attempt_invoke kernel site attempt pid vaddr).length
    rw [attemptLogs, Server.splitAttempts, List.flatMap_cons, List.length_append, hlen]
    by_cases hcode : codeOf (kernel.invoke site attempt pid vaddr).2 = 0
    · rw [invokeSplitThp_withKernel.2 hcode, if_pos hcode, if_pos hcode]
      rfl
    · have hfails : (srv.withKernel kernel).invokeSplitThp site attempt pid vaddr ≠ none :=
        mt invokeSplitThp_withKernel.1 hcode
      obtain ⟨err', herr⟩ := Option.ne_none_iff_exists'.1 hfails
      rw [herr, if_neg hcode, if_neg hcode, Nat.zero_add]
      exact ih err'

variable [Python] {call : BreakSite × PyStr}

/-- **A call of `break_page` returns `True` exactly where it has split a folio.** -/
theorem length_callSplits (srv : Server) (kernel : SplitKernel) (pid : ℤ)
    (call : BreakSite × PyStr) :
    (callSplits srv kernel pid call).length =
      if returned (srv.withKernel kernel) pid true call = true then 1 else 0 := by
  have hresolve : (srv.withKernel kernel).resolveKeyVaddr call.1 call.2 =
      srv.resolveKeyVaddr call.1 call.2 := rfl
  rw [callSplits, callLogs, returned]
  cases haddr : srv.resolveKeyVaddr call.1 call.2 with
  | error e =>
    have hbreak : (srv.withKernel kernel).breakPage call.1 pid call.2 = .error e := by
      rw [Server.breakPage, Server.breakPageForPid, hresolve, haddr]
    rw [if_neg]
    · rfl
    · rw [decide_eq_true_iff, hbreak]
      intro h
      cases h
  | ok vaddr =>
    -- with an attempt to make, the error before it plays no part
    have hfirst :
        (srv.withKernel kernel).splitAttempts call.1 pid vaddr none
            (List.range' 1 breakPageMaxAttempts) =
          (srv.withKernel kernel).splitAttempts call.1 pid vaddr (some 0)
            (List.range' 1 breakPageMaxAttempts) := rfl
    have hbreak : (srv.withKernel kernel).breakPage call.1 pid call.2 =
        .ok ((srv.withKernel kernel).splitAttempts call.1 pid vaddr (some 0)
          (List.range' 1 breakPageMaxAttempts)).isNone := by
      rw [Server.breakPage, Server.breakPageForPid, hresolve, haddr, ← hfirst]
    refine (length_attemptLogs srv 0 _).trans (if_congr ?_ rfl rfl)
    rw [decide_eq_true_iff, hbreak, Except.ok.injEq, Option.isNone_iff_eq_none]

/-- Every attempt of a call is one call of the syscall, at the address of the key. -/
theorem exists_of_mem_callLogs {log : Log} (h : log ∈ callLogs srv kernel pid call) :
    ∃ vaddr, srv.resolveKeyVaddr call.1 call.2 = .ok vaddr ∧
      ∃ attempt, log = (kernel.invoke call.1 attempt pid vaddr).1 := by
  rw [callLogs] at h
  cases hresolve : srv.resolveKeyVaddr call.1 call.2 with
  | error e =>
    rw [hresolve] at h
    cases h
  | ok vaddr =>
    rw [hresolve] at h
    dsimp only at h
    refine ⟨vaddr, rfl, ?_⟩
    generalize List.range' 1 breakPageMaxAttempts = attempts at h
    induction attempts with
    | nil => cases h
    | cons attempt attempts ih =>
      rw [attemptLogs] at h
      obtain rfl | h := List.mem_cons.1 h
      · exact ⟨attempt, rfl⟩
      · split_ifs at h
        · cases h
        · exact ih h

end Call

/-! ### A whole replay -/

section Run

variable [Python]

/-- The folios that the kernel has split for a replay: those of its calls of `break_page`. -/
def kernelSplits (srv : Server) (kernel : SplitKernel) (pid : ℤ) (trace : PyStr)
    (breakpoints : Dict PyStr ℤ) : List Folio :=
  (breakCalls (srv.withKernel kernel) trace breakpoints).flatMap (callSplits srv kernel pid)

/-- The calls that return `True`, counted by what they have split. -/
theorem length_flatMap_callSplits (srv : Server) (kernel : SplitKernel) (pid : ℤ)
    (calls : List (BreakSite × PyStr)) : (calls.flatMap (callSplits srv kernel pid)).length =
      calls.countP (returned (srv.withKernel kernel) pid true) := by
  induction calls with
  | nil => rfl
  | cons call calls ih =>
    rw [List.flatMap_cons, List.length_append, ih, length_callSplits, List.countP_cons,
      Nat.add_comm]

/-- **A replay tallies what the kernel splits**: its successful page breaks are the folios that were
split for it, each mapped at the address that the module gave for the key; and every call of the
syscall has given back what it took. -/
def TalliesSplits (srv : Server) (kernel : SplitKernel) (trace : PyStr)
    (breakpoints : Option (Dict PyStr ℤ)) : Prop :=
  ∃ pid, srv.getRedisPid = .ok pid ∧
    (kernelSplits srv kernel pid trace (breakpoints.getD Dict.empty)).length =
      (replay (srv.withKernel kernel) trace breakpoints).1.breakSuccess ∧
    ∀ call ∈ breakCalls (srv.withKernel kernel) trace (breakpoints.getD Dict.empty),
      ∀ log ∈ callLogs srv kernel pid call,
        Script.Safe Allowed log ∧ held log = [] ∧ ∀ folio ∈ splits log,
          ∃ vaddr, srv.resolveKeyVaddr call.1 call.2 = .ok vaddr ∧
            Mapped (BitVec.ofInt 32 pid) (pageOf (BitVec.ofInt 64 vaddr)) log folio

/-- **Every replay that returns tallies what the kernel splits.** -/
theorem replay_splits (srv : Server) (kernel : SplitKernel) (trace : PyStr)
    (breakpoints : Option (Dict PyStr ℤ))
    (h : (replay (srv.withKernel kernel) trace breakpoints).2 = none) :
    TalliesSplits srv kernel trace breakpoints := by
  obtain ⟨pid, hpid, hgrown⟩ := grownBy_replay h
  refine ⟨pid, hpid, ?_, fun call _ log hlog ↦ ?_⟩
  · rw [kernelSplits, length_flatMap_callSplits, hgrown.success]
    exact (Nat.zero_add _).symm
  · obtain ⟨vaddr, hresolve, attempt, rfl⟩ := exists_of_mem_callLogs hlog
    have hattempt := attempt_invoke kernel call.1 attempt pid vaddr
    exact ⟨hattempt.safe, hattempt.released, fun folio hfolio ↦
      ⟨vaddr, hresolve, hattempt.mapped folio hfolio⟩⟩

end Run

/-- A kernel that cannot lock the folio at first, and then splits it. -/
def busyAtFirst : SplitKernel := fun _ attempt _ c ↦
  match c with
  | .findGetTaskByVpid _ => some ⟨1⟩
  | .mmAccess _ => .ok ⟨2⟩
  | .vmaLookup _ _ => some ⟨3, false, false, false⟩
  | .followPage _ _ _ => .ok ⟨⟨4⟩⟩
  | .isTransparentHugepage _ => true
  | .canSplitFolio _ => true
  | .folioTrylock _ => decide (attempt ≠ 1)
  | .splitFolio _ => (0 : ℤ)
  | .putTaskStruct _ => ()
  | .mmapReadLock _ => ()
  | .folioUnlock _ => ()
  | .folioPut _ => ()
  | .mmapReadUnlock _ => ()
  | .mmput _ => ()

/-- The second attempt splits the page of the key. -/
theorem replay_splits_oneRead : @TalliesSplits Python.ascii (failingAt []) busyAtFirst oneRead
    (some (Dict.empty.set user1 0)) :=
  @replay_splits Python.ascii (failingAt []) busyAtFirst oneRead (some (Dict.empty.set user1 0))
    (by decide +kernel)

end Replay
