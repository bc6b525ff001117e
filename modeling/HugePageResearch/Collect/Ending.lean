import HugePageResearch.Collect.Session

/-!
# The last chunk

Once the main thread has set `ended` under the lock, the chunk `end` is meant to be the last write
to the run directory. The output thread tests the copy of `ended` that it was started with, so what
stops it is `run_event` alone, and only where it has not passed the test of its loop.

`endIsLast_iff` says from which states the output thread never works again. From the others, the
main thread can finish and release the lock, and the output thread then pops the hooks once more.
-/

namespace Collect

variable {Row : Type*} {hooks : ℕ} {s s' t : State Row}

/-- The next step of the output thread is one of a `pop_data` or the write of a chunk. -/
def OutputWorks (hooks : ℕ) (s : State Row) : Prop :=
  0 < hooks ∧ ∃ p, s.output = .popping p

/-- The output thread never pops a hook or writes a chunk again, and once the main thread is done,
the chunk `end` is the last one. -/
def EndIsLast (hooks : ℕ) (s : State Row) : Prop :=
  ∀ t, Run.Reachable (step hooks) s t →
    ¬ OutputWorks hooks t ∧ (t.main = .done → t.files.keys.getLast? = some .last)

/-- The output thread has nothing to pop, has returned, or finds `run_event` cleared at the next
test of its loop. -/
def Stopped (hooks : ℕ) (s : State Row) : Prop :=
  hooks = 0 ∨ s.output = .exited ∨
    s.runEvent = false ∧ (s.output = .sleeping ∨ s.output = .testing)

/-! ### From a stopped state -/

/-- The output thread stays stopped. -/
theorem Stopped.step {l : Label Row} (hs : Stopped hooks s) (h : step hooks s l = some s') :
    Stopped hooks s' := by
  rcases hs with h0 | hexit | ⟨hrun, hpc⟩
  · exact Or.inl h0
  · refine Or.inr (Or.inl ?_)
    cases step_iff.1 h with
    | output h =>
      -- a thread that has returned takes no step
      have hnone := outputStep_iff.2 h
      rw [outputStep, hexit] at hnone
      cases hnone
    | main h => cases h <;> exact hexit
    | _ => exact hexit
  · cases step_iff.1 h with
    | append k r hpoll hk => exact Or.inr (Or.inr ⟨hrun, hpc⟩)
    | pollEnd hpoll => exact Or.inr (Or.inr ⟨hrun, hpc⟩)
    | signal => exact Or.inr (Or.inr ⟨rfl, hpc⟩)
    | output h =>
      have hstep := outputStep_iff.2 h
      rcases hpc with hpc | hpc
      · rw [outputStep, hpc] at hstep
        obtain rfl := Option.some.inj hstep
        exact Or.inr (Or.inr ⟨hrun, Or.inr rfl⟩)
      · rw [outputStep, hpc, hrun] at hstep
        obtain rfl := Option.some.inj hstep
        exact Or.inr (Or.inl rfl)
    | main h => cases h <;> exact Or.inr (Or.inr ⟨hrun, hpc⟩)

theorem Stopped.not_works (hs : Stopped hooks s) : ¬ OutputWorks hooks s := by
  rintro ⟨hpos, p, hp⟩
  rcases hs with h0 | hexit | ⟨-, hpc | hpc⟩
  · exact absurd h0 (Nat.ne_of_gt hpos)
  · rw [hexit] at hp
    cases hp
  · rw [hpc] at hp
    cases hp
  · rw [hpc] at hp
    cases hp

/-- A stopped output thread writes nothing. -/
theorem Stopped.files (hs : Stopped hooks s) (h : OutputStep hooks s s') : s'.files = s.files := by
  cases h with
  | write p h hp hk =>
    show s.writeChunk hooks p.tables = s.files
    rw [State.writeChunk]
    refine if_pos ?_
    by_contra h0
    exact hs.not_works ⟨Nat.pos_of_ne_zero h0, p, h⟩
  | _ => rfl

/-- Once written, `end` is the last chunk. -/
def LastWritten (s : State Row) : Prop :=
  s.main.after = true → s.files.keys.getLast? = some .last

theorem LastWritten.step {l : Label Row} (hinv : Inv hooks s) (hs : Stopped hooks s)
    (hlast : LastWritten s) (h : step hooks s l = some s') : LastWritten s' := by
  cases step_iff.1 h with
  | append k r hpoll hk => exact hlast
  | pollEnd hpoll => exact hlast
  | signal => exact hlast
  | output h =>
    have hmain : s'.main = s.main := by cases h <;> rfl
    rw [LastWritten, hs.files h, hmain]
    exact hlast
  | main h =>
    cases h with
    | write p hp hb hk =>
      intro _
      have hnew : ChunkName.last ∉ s.files.keys := fun hl ↦ by
        have := hinv.last hl
        rw [hp] at this
        exact absurd this Bool.false_ne_true
      show (s.files.set .last p.tables).keys.getLast? = some .last
      rw [Dict.keys_set, if_neg hnew, List.getLast?_concat]
    | release hp => exact fun _ ↦ hlast (by rw [hp]; rfl)
    | _ => exact fun h' ↦ absurd h' Bool.false_ne_true

theorem endIsLast_of_stopped (hinv : Inv hooks s) (hs : Stopped hooks s) (hlast : LastWritten s) :
    EndIsLast hooks s := by
  rintro t ⟨ls, h⟩
  obtain ⟨-, ht, htlast⟩ := Run.exec_invariant
    (I := fun s : State Row ↦ Inv hooks s ∧ Stopped hooks s ∧ LastWritten s)
    (fun _ _ _ hI h ↦ ⟨hI.1.step h, hI.2.1.step h, hI.2.2.step hI.1 hI.2.1 h⟩)
    ⟨hinv, hs, hlast⟩ h
  exact ⟨ht.not_works, fun hdone ↦ htlast (by rw [hdone]; rfl)⟩

/-! ### From any other state -/

theorem OutputStep.reach (h : OutputStep hooks s s') (h' : Run.Reachable (step hooks) s' t) :
    Run.Reachable (step hooks) s t :=
  .head (step_iff.2 (.output h)) h'

theorem MainStep.reach (h : MainStep hooks s s') (h' : Run.Reachable (step hooks) s' t) :
    Run.Reachable (step hooks) s t :=
  .head (step_iff.2 (.main h)) h'

/-- **The main thread can finish.** The induction is on the hooks that are still to be popped. -/
theorem main_finishes (n : ℕ) {s : State Row} {p : Pop Row} (hp : s.main = .popping p)
    (hb : p.built = false) (hn : hooks - p.hook = n) :
    ∃ t, Run.Reachable (step hooks) s t ∧ t.lock = false ∧ t.output = s.output ∧
      t.runEvent = s.runEvent := by
  induction n generalizing s p with
  | zero =>
    have hk : ¬ p.hook < hooks := by omega
    have hrelease : MainStep hooks
        { s with files := s.files.set .last p.tables, main := .releasing }
        { s with files := s.files.set .last p.tables, lock := false, main := .done } :=
      .release rfl
    exact ⟨_, (MainStep.write p hp hb hk).reach (hrelease.reach (.refl _)), rfl, rfl, rfl⟩
  | succ n ih =>
    have hk : p.hook < hooks := by omega
    have hclear : MainStep hooks { s with main := .popping (p.build s.buffers) }
        { s with buffers := Function.update s.buffers p.hook []
                 main := .popping (p.build s.buffers).cleared } :=
      .clear (p.build s.buffers) rfl rfl
    have hn' : hooks - (p.build s.buffers).cleared.hook = n := by
      show hooks - (p.hook + 1) = n
      omega
    obtain ⟨t, ht, hrest⟩ := ih (s := { s with buffers := Function.update s.buffers p.hook []
                                               main := .popping (p.build s.buffers).cleared })
      rfl rfl hn'
    exact ⟨t, (MainStep.build p hp hb hk).reach (hclear.reach ht), hrest⟩

/-- With the lock free and its loop entered, the output thread gets to work. -/
theorem works_of_acquiring (hpos : 0 < hooks) (hpc : s.output = .acquiring)
    (hlock : s.lock = false) (harg : s.endedArg = false) :
    ∃ t, Run.Reachable (step hooks) s t ∧ OutputWorks hooks t := by
  have hbegin : OutputStep hooks { s with lock := true, output := .locked }
      { s with lock := true, output := .popping .start } := .begin rfl harg
  exact ⟨_, (OutputStep.acquire hpc hlock).reach (hbegin.reach (.refl _)), hpos, .start, rfl⟩

/-- Where nothing stops it, the output thread gets to work. -/
theorem works_of_not_stopped (hinv : Inv hooks s) (hlock : s.lock = false)
    (hs : ¬ Stopped hooks s) : ∃ t, Run.Reachable (step hooks) s t ∧ OutputWorks hooks t := by
  have hpos : 0 < hooks := Nat.pos_of_ne_zero fun h0 ↦ hs (Or.inl h0)
  have hrun : s.output = .sleeping ∨ s.output = .testing → s.runEvent = true := fun hpc ↦
    Bool.ne_false_iff.1 fun hrun ↦ hs (Or.inr (Or.inr ⟨hrun, hpc⟩))
  have htest : ∀ s : State Row, s.lock = false → s.endedArg = false → s.output = .testing →
      s.runEvent = true → ∃ t, Run.Reachable (step hooks) s t ∧ OutputWorks hooks t := by
    intro s hlock harg hpc hrun
    obtain ⟨t, ht, hworks⟩ := works_of_acquiring (s := { s with output := .acquiring })
      hpos rfl hlock harg
    exact ⟨t, (OutputStep.goOn hpc hrun).reach ht, hworks⟩
  rcases hpc : s.output with - | - | - | - | p | - | -
  · obtain ⟨t, ht, hworks⟩ := htest { s with output := .testing } hlock hinv.passed rfl
      (hrun (Or.inl hpc))
    exact ⟨t, (OutputStep.wake hpc).reach ht, hworks⟩
  · exact htest s hlock hinv.passed hpc (hrun (Or.inr hpc))
  · exact works_of_acquiring hpos hpc hlock hinv.passed
  · exact absurd (hinv.lockOutput (by rw [hpc]; rfl)) (by rw [hlock]; simp)
  · exact ⟨s, .refl s, hpos, p, hpc⟩
  · exact absurd (hinv.lockOutput (by rw [hpc]; rfl)) (by rw [hlock]; simp)
  · exact absurd (Or.inr (Or.inl hpc)) hs

/-- **After `ended = True` the chunk `end` is the last one if and only if** at that moment the
output thread had nothing to pop, had returned, or was outside its loop's body with `run_event`
cleared. -/
theorem endIsLast_iff (hs : Run.Reachable (step hooks) .init s) (hpc : s.main = .locked)
    (hset : step hooks s .main = some s') : EndIsLast hooks s' ↔ Stopped hooks s := by
  obtain ⟨ls, hls⟩ := hs
  have hinv := inv_of_exec hls
  have hinv' := hinv.step hset
  have hs' : s' = { s with ended := true, main := .popping .start } := by
    rw [step, mainStep, hpc] at hset
    exact (Option.some.inj hset).symm
  subst hs'
  constructor
  · intro hend
    by_contra hstop
    obtain ⟨t, ht, hlock, hout, hrun⟩ := @main_finishes Row hooks hooks
      { s with ended := true, main := .popping .start } .start rfl rfl (Nat.sub_zero _)
    obtain ⟨ls', hls'⟩ := ht
    have hstop' : ¬ Stopped hooks t := by
      rw [Stopped, hout, hrun]
      exact hstop
    obtain ⟨u, hu, hworks⟩ := works_of_not_stopped
      (Run.exec_invariant (fun _ _ _ hs h ↦ hs.step h) hinv' hls') hlock hstop'
    exact (hend u (Run.Reachable.trans ⟨ls', hls'⟩ hu)).1 hworks
  · intro hstop
    exact endIsLast_of_stopped hinv' hstop fun h ↦ absurd h Bool.false_ne_true

/-- One hook, whose output thread is asleep when the benchmark finishes by itself. -/
def finishRun : List (Label ℕ) := [.pollEnd, .main, .main]

/-- The same, interrupted by a signal before it finishes. -/
def interruptedRun : List (Label ℕ) := .signal :: finishRun

theorem interruptedRun_endIsLast_iff : ∃ s s' : State ℕ,
    Run.exec (step 1) .init interruptedRun = some s ∧ step 1 s .main = some s' ∧
      (EndIsLast 1 s' ↔ Stopped 1 s) :=
  ⟨_, _, rfl, rfl, endIsLast_iff ⟨interruptedRun, rfl⟩ rfl rfl⟩

/-- `run_event` stays set, and the output thread writes chunk `0` after `end`. -/
theorem finishRun_end_not_last : ∃ s s' : State ℕ,
    Run.exec (step 1) .init finishRun = some s ∧ s.main = .locked ∧ step 1 s .main = some s' ∧
      ¬ EndIsLast 1 s' := by
  refine ⟨_, _, rfl, rfl, rfl, fun hend ↦ ?_⟩
  have hwritten := hend _ ⟨List.replicate 4 .main ++ List.replicate 7 .output, rfl⟩
  exact absurd (hwritten.2 rfl) (by decide)

end Collect
