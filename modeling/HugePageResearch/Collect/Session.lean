import HugePageResearch.Library.Run
import HugePageResearch.Python.Dict
import Mathlib.Logic.Function.Basic

/-!
# A collection run

The three threads of `run_collect` in `cli/collect.py` as one step relation: the polling thread
appends rows to the buffers of the hooks; `output_data_thread` wakes up, takes `output_lock`, pops
every hook and writes the tables as chunk `num`; the main thread joins the polling thread, takes the
lock, sets `ended`, pops every hook and writes the chunk `end`.

A `pop_data` takes two steps, as in the hooks: the tables are built from the buffer, then the buffer
is cleared. `ended` is passed to the output thread by value, so that the thread tests its own copy.
What a call of `output_collections_to_file` leaves behind when it raises is not part of this model.

`delivered_iff` says which runs deliver every row exactly once, and `endIsLast_iff` from which
states the chunk `end` is the last one.
-/

namespace Collect

variable {Row : Type*}

/-! ### States -/

/-- `str(num)` or `"end"`. -/
inductive ChunkName where
  /-- A chunk of `output_data_thread`. -/
  | number (num : ℕ)
  /-- The chunk of the main thread. -/
  | last
  deriving DecidableEq

/-- Rows by hook. -/
abbrev Rows (Row : Type*) := ℕ → List Row

/-- The loop over the hooks in `output_collections_to_file`. -/
structure Pop (Row : Type*) where
  /-- The hook whose turn it is. -/
  hook : ℕ
  /-- Its tables are built and its buffer is not yet cleared. -/
  built : Bool
  /-- `collection_tables`. -/
  tables : Rows Row

namespace Pop

/-- Before the first hook. -/
def start : Pop Row := ⟨0, false, fun _ ↦ []⟩

/-- `tables = self.data()`. -/
def build (p : Pop Row) (buffers : Rows Row) : Pop Row :=
  ⟨p.hook, true, Function.update p.tables p.hook (buffers p.hook)⟩

/-- After `self.clear()`. -/
def cleared (p : Pop Row) : Pop Row := ⟨p.hook + 1, false, p.tables⟩

end Pop

/-- Where `output_data_thread` stands. -/
inductive OutputPc (Row : Type*) where
  /-- In `sleep(output_interval)`. -/
  | sleeping
  /-- At `while run_event.is_set()`. -/
  | testing
  /-- At `lock.acquire()`. -/
  | acquiring
  /-- At `if ended`. -/
  | locked
  /-- In `output_collections_to_file`. -/
  | popping (p : Pop Row)
  /-- At `lock.release()`. -/
  | releasing
  /-- Returned. -/
  | exited

/-- Where the main thread stands after it started the others. -/
inductive MainPc (Row : Type*) where
  /-- Waiting for the polling thread. -/
  | waiting
  /-- At `output_lock.acquire()`. -/
  | acquiring
  /-- At `ended = True`. -/
  | locked
  /-- In `output_collections_to_file`. -/
  | popping (p : Pop Row)
  /-- At `output_lock.release()`. -/
  | releasing
  /-- Past it: graphs and the cleaner read the run directory. -/
  | done

/-- A state of the run. -/
structure State (Row : Type*) where
  /-- `run_event`. -/
  runEvent : Bool
  /-- `output_lock` is held. -/
  lock : Bool
  /-- `ended` of `run_collect`. -/
  ended : Bool
  /-- The argument `ended` of `output_data_thread`. -/
  endedArg : Bool
  /-- The polling thread is alive. -/
  polling : Bool
  /-- The buffers of the hooks. -/
  buffers : Rows Row
  /-- The output thread. -/
  output : OutputPc Row
  /-- Its `num`. -/
  num : ℕ
  /-- The main thread. -/
  main : MainPc Row
  /-- The chunks of the run directory, in the order of writing. -/
  files : Dict ChunkName (Rows Row)
  /-- Every row ever appended. -/
  appended : Rows Row

/-- The state in which the threads start: `ended = False` is passed on. -/
def State.init : State Row where
  runEvent := true
  lock := false
  ended := false
  endedArg := false
  polling := true
  buffers _ := []
  output := .sleeping
  num := 0
  main := .waiting
  files := .empty
  appended _ := []

/-! ### Steps -/

/-- One step of one thread. -/
inductive Label (Row : Type*) where
  /-- The poll of a hook appends a row. -/
  | append (hook : ℕ) (row : Row)
  /-- The polling thread ends. -/
  | pollEnd
  /-- `run_event.clear()`, by a signal or at the end of the input. -/
  | signal
  /-- The next step of the output thread. -/
  | output
  /-- The next step of the main thread. -/
  | main

/-- The chunks after `output_data_thread` has written; without hooks there is no table to write. -/
def State.writeChunk (hooks : ℕ) (s : State Row) (tables : Rows Row) :
    Dict ChunkName (Rows Row) :=
  if hooks = 0 then s.files else s.files.set (.number s.num) tables

/-- The next step of `output_data_thread`. -/
def outputStep (hooks : ℕ) (s : State Row) : Option (State Row) :=
  match s.output with
  | .sleeping => some { s with output := .testing }
  | .testing =>
    if s.runEvent then some { s with output := .acquiring } else some { s with output := .exited }
  | .acquiring => if s.lock then none else some { s with lock := true, output := .locked }
  | .locked =>
    if s.endedArg then some { s with lock := false, output := .exited }
    else some { s with output := .popping .start }
  | .popping p =>
    if p.built then
      some { s with buffers := Function.update s.buffers p.hook [], output := .popping p.cleared }
    else if p.hook < hooks then some { s with output := .popping (p.build s.buffers) }
    else some { s with files := s.writeChunk hooks p.tables, output := .releasing }
  | .releasing => some { s with lock := false, num := s.num + 1, output := .sleeping }
  | .exited => none

/-- The next step of the main thread. -/
def mainStep (hooks : ℕ) (s : State Row) : Option (State Row) :=
  match s.main with
  | .waiting => if s.polling then none else some { s with main := .acquiring }
  | .acquiring => if s.lock then none else some { s with lock := true, main := .locked }
  | .locked => some { s with ended := true, main := .popping .start }
  | .popping p =>
    if p.built then
      some { s with buffers := Function.update s.buffers p.hook [], main := .popping p.cleared }
    else if p.hook < hooks then some { s with main := .popping (p.build s.buffers) }
    else some { s with files := s.files.set .last p.tables, main := .releasing }
  | .releasing => some { s with lock := false, main := .done }
  | .done => none

/-- A step of the run of `hooks` hooks. -/
def step (hooks : ℕ) (s : State Row) : Label Row → Option (State Row)
  | .append k r =>
    if s.polling ∧ k < hooks then
      some { s with buffers := Function.update s.buffers k (s.buffers k ++ [r])
                    appended := Function.update s.appended k (s.appended k ++ [r]) }
    else none
  | .pollEnd => if s.polling then some { s with polling := false } else none
  | .signal => some { s with runEvent := false }
  | .output => outputStep hooks s
  | .main => mainStep hooks s

/-! ### What a step can do -/

/-- The steps of `output_data_thread`, statement by statement. -/
inductive OutputStep (hooks : ℕ) (s : State Row) : State Row → Prop where
  | wake (h : s.output = .sleeping) : OutputStep hooks s { s with output := .testing }
  | goOn (h : s.output = .testing) (hrun : s.runEvent = true) :
      OutputStep hooks s { s with output := .acquiring }
  | leave (h : s.output = .testing) (hrun : s.runEvent = false) :
      OutputStep hooks s { s with output := .exited }
  | acquire (h : s.output = .acquiring) (hlock : s.lock = false) :
      OutputStep hooks s { s with lock := true, output := .locked }
  | stop (h : s.output = .locked) (harg : s.endedArg = true) :
      OutputStep hooks s { s with lock := false, output := .exited }
  | begin (h : s.output = .locked) (harg : s.endedArg = false) :
      OutputStep hooks s { s with output := .popping .start }
  | clear (p : Pop Row) (h : s.output = .popping p) (hp : p.built = true) :
      OutputStep hooks s
        { s with buffers := Function.update s.buffers p.hook [], output := .popping p.cleared }
  | build (p : Pop Row) (h : s.output = .popping p) (hp : p.built = false) (hk : p.hook < hooks) :
      OutputStep hooks s { s with output := .popping (p.build s.buffers) }
  | write (p : Pop Row) (h : s.output = .popping p) (hp : p.built = false)
      (hk : ¬ p.hook < hooks) :
      OutputStep hooks s { s with files := s.writeChunk hooks p.tables, output := .releasing }
  | release (h : s.output = .releasing) :
      OutputStep hooks s { s with lock := false, num := s.num + 1, output := .sleeping }

/-- The steps of the main thread, statement by statement. -/
inductive MainStep (hooks : ℕ) (s : State Row) : State Row → Prop where
  | join (h : s.main = .waiting) (hpoll : s.polling = false) :
      MainStep hooks s { s with main := .acquiring }
  | acquire (h : s.main = .acquiring) (hlock : s.lock = false) :
      MainStep hooks s { s with lock := true, main := .locked }
  | setEnded (h : s.main = .locked) :
      MainStep hooks s { s with ended := true, main := .popping .start }
  | clear (p : Pop Row) (h : s.main = .popping p) (hp : p.built = true) :
      MainStep hooks s
        { s with buffers := Function.update s.buffers p.hook [], main := .popping p.cleared }
  | build (p : Pop Row) (h : s.main = .popping p) (hp : p.built = false) (hk : p.hook < hooks) :
      MainStep hooks s { s with main := .popping (p.build s.buffers) }
  | write (p : Pop Row) (h : s.main = .popping p) (hp : p.built = false) (hk : ¬ p.hook < hooks) :
      MainStep hooks s { s with files := s.files.set .last p.tables, main := .releasing }
  | release (h : s.main = .releasing) :
      MainStep hooks s { s with lock := false, main := .done }

/-- The steps of the run, thread by thread. -/
inductive Step (hooks : ℕ) (s : State Row) : Label Row → State Row → Prop where
  | append (k : ℕ) (r : Row) (hpoll : s.polling = true) (hk : k < hooks) :
      Step hooks s (.append k r)
        { s with buffers := Function.update s.buffers k (s.buffers k ++ [r])
                 appended := Function.update s.appended k (s.appended k ++ [r]) }
  | pollEnd (hpoll : s.polling = true) : Step hooks s .pollEnd { s with polling := false }
  | signal : Step hooks s .signal { s with runEvent := false }
  | output {s' : State Row} (h : OutputStep hooks s s') : Step hooks s .output s'
  | main {s' : State Row} (h : MainStep hooks s s') : Step hooks s .main s'

variable {hooks : ℕ} {s s' t : State Row} {l : Label Row}

theorem outputStep_iff : outputStep hooks s = some s' ↔ OutputStep hooks s s' := by
  constructor
  · intro h
    rcases hpc : s.output with - | - | - | - | p | - | -
    all_goals rw [outputStep, hpc] at h
    · exact Option.some.inj h ▸ .wake hpc
    · obtain ⟨hrun, h⟩ | ⟨hrun, h⟩ := ite_eq_iff.1 h
      · exact Option.some.inj h ▸ .goOn hpc hrun
      · exact Option.some.inj h ▸ .leave hpc (Bool.eq_false_iff.2 hrun)
    · obtain ⟨-, h⟩ | ⟨hlock, h⟩ := ite_eq_iff.1 h
      · cases h
      · exact Option.some.inj h ▸ .acquire hpc (Bool.eq_false_iff.2 hlock)
    · obtain ⟨harg, h⟩ | ⟨harg, h⟩ := ite_eq_iff.1 h
      · exact Option.some.inj h ▸ .stop hpc harg
      · exact Option.some.inj h ▸ .begin hpc (Bool.eq_false_iff.2 harg)
    · obtain ⟨hp, h⟩ | ⟨hp, h⟩ := ite_eq_iff.1 h
      · exact Option.some.inj h ▸ .clear p hpc hp
      · obtain ⟨hk, h⟩ | ⟨hk, h⟩ := ite_eq_iff.1 h
        · exact Option.some.inj h ▸ .build p hpc (Bool.eq_false_iff.2 hp) hk
        · exact Option.some.inj h ▸ .write p hpc (Bool.eq_false_iff.2 hp) hk
    · exact Option.some.inj h ▸ .release hpc
    · exact absurd h (by simp)
  · intro h
    cases h <;> simp_all [outputStep]

theorem mainStep_iff : mainStep hooks s = some s' ↔ MainStep hooks s s' := by
  constructor
  · intro h
    rcases hpc : s.main with - | - | - | p | - | -
    all_goals rw [mainStep, hpc] at h
    · obtain ⟨-, h⟩ | ⟨hpoll, h⟩ := ite_eq_iff.1 h
      · cases h
      · exact Option.some.inj h ▸ .join hpc (Bool.eq_false_iff.2 hpoll)
    · obtain ⟨-, h⟩ | ⟨hlock, h⟩ := ite_eq_iff.1 h
      · cases h
      · exact Option.some.inj h ▸ .acquire hpc (Bool.eq_false_iff.2 hlock)
    · exact Option.some.inj h ▸ .setEnded hpc
    · obtain ⟨hp, h⟩ | ⟨hp, h⟩ := ite_eq_iff.1 h
      · exact Option.some.inj h ▸ .clear p hpc hp
      · obtain ⟨hk, h⟩ | ⟨hk, h⟩ := ite_eq_iff.1 h
        · exact Option.some.inj h ▸ .build p hpc (Bool.eq_false_iff.2 hp) hk
        · exact Option.some.inj h ▸ .write p hpc (Bool.eq_false_iff.2 hp) hk
    · exact Option.some.inj h ▸ .release hpc
    · exact absurd h (by simp)
  · intro h
    cases h <;> simp_all [mainStep]

/-- **What a step can do.** -/
theorem step_iff : step hooks s l = some s' ↔ Step hooks s l s' := by
  constructor
  · intro h
    cases l with
    | append k r =>
      rw [step] at h
      split_ifs at h with hk
      exact Option.some.inj h ▸ .append k r hk.1 hk.2
    | pollEnd =>
      rw [step] at h
      split_ifs at h with hpoll
      exact Option.some.inj h ▸ .pollEnd hpoll
    | signal => exact Option.some.inj h ▸ .signal
    | output => exact .output (outputStep_iff.1 h)
    | main => exact .main (mainStep_iff.1 h)
  · intro h
    cases h with
    | append k r hpoll hk => exact if_pos ⟨hpoll, hk⟩
    | pollEnd hpoll => exact if_pos hpoll
    | signal => rfl
    | output h => exact outputStep_iff.2 h
    | main h => exact mainStep_iff.2 h

/-! ### The invariant -/

/-- The pop that is going on. -/
def OutputPc.pop? : OutputPc Row → Option (Pop Row)
  | .popping p => some p
  | _ => none

/-- Between `lock.acquire()` and `lock.release()`. -/
def OutputPc.inside : OutputPc Row → Bool
  | .locked => true
  | .popping _ => true
  | .releasing => true
  | _ => false

/-- The pop that is going on. -/
def MainPc.pop? : MainPc Row → Option (Pop Row)
  | .popping p => some p
  | _ => none

/-- Between `output_lock.acquire()` and `output_lock.release()`. -/
def MainPc.inside : MainPc Row → Bool
  | .locked => true
  | .popping _ => true
  | .releasing => true
  | _ => false

/-- The chunk `end` is written. -/
def MainPc.after : MainPc Row → Bool
  | .releasing => true
  | .done => true
  | _ => false

namespace Pop

/-- The rows of a hook in the tables built so far. -/
def pending (p : Option (Pop Row)) (k : ℕ) : List Row := p.elim [] fun p ↦ p.tables k

/-- The tables of hook `k` are built and its buffer is not yet cleared. -/
def builtAt (p : Option (Pop Row)) (k : ℕ) : Bool := p.elim false fun p ↦ p.built && p.hook == k

@[simp] theorem pending_none (k : ℕ) : pending (none : Option (Pop Row)) k = [] := rfl

@[simp] theorem builtAt_none (k : ℕ) : builtAt (none : Option (Pop Row)) k = false := rfl

/-- The tables hold the hooks before the one whose turn it is, and that one once it is built. -/
structure Ready (hooks : ℕ) (p : Pop Row) : Prop where
  hook_le : p.hook ≤ hooks
  hook_lt : p.built = true → p.hook < hooks
  tables_eq : ∀ k, p.hook < k ∨ p.hook = k ∧ p.built = false → p.tables k = []

variable {hooks : ℕ} {p : Pop Row}

theorem ready_start : (start : Pop Row).Ready hooks :=
  ⟨Nat.zero_le _, fun h ↦ absurd h Bool.false_ne_true, fun _ _ ↦ rfl⟩

theorem Ready.build (hp : p.Ready hooks) (hk : p.hook < hooks) (buffers : Rows Row) :
    (p.build buffers).Ready hooks where
  hook_le := hp.hook_le
  hook_lt _ := hk
  tables_eq k h := by
    rcases h with h | ⟨-, h⟩
    · show Function.update p.tables p.hook (buffers p.hook) k = []
      rw [Function.update_of_ne (Nat.ne_of_gt (show p.hook < k from h))]
      exact hp.tables_eq k (Or.inl h)
    · exact absurd h (by simp [Pop.build])

theorem Ready.cleared (hp : p.Ready hooks) (hb : p.built = true) : p.cleared.Ready hooks where
  hook_le := hp.hook_lt hb
  hook_lt h := absurd h Bool.false_ne_true
  tables_eq k h := by
    refine hp.tables_eq k (Or.inl ?_)
    rcases h with h | ⟨h, -⟩
    · exact Nat.lt_of_succ_lt h
    · exact Nat.lt_of_succ_le (Nat.le_of_eq h)

end Pop

/-- What every reachable state satisfies. -/
structure Inv (hooks : ℕ) (s : State Row) : Prop where
  lockOutput : s.output.inside = true → s.lock = true
  lockMain : s.main.inside = true → s.lock = true
  exclusive : s.output.inside = true → s.main.inside = false
  readyOutput : ∀ p, s.output = .popping p → p.Ready hooks
  readyMain : ∀ p, s.main = .popping p → p.Ready hooks
  /-- The main thread goes on only after the polling thread has ended. -/
  joined : s.main ≠ .waiting → s.polling = false
  /-- The main thread leaves the buffers empty, one after the other. -/
  drained : ∀ p, s.main = .popping p → ∀ k < p.hook, s.buffers k = []
  empty : s.main.after = true → ∀ k < hooks, s.buffers k = [] ∧ Pop.pending s.output.pop? k = []
  /-- The names that the output thread has used. -/
  numbers : ∀ n, .number n ∈ s.files.keys → n < s.num ∨ n = s.num ∧ s.output = .releasing
  last : .last ∈ s.files.keys → s.main.after = true
  /-- The output thread's copy of `ended` keeps the value it was passed. -/
  passed : s.endedArg = false

theorem inv_init : Inv hooks (State.init : State Row) where
  lockOutput h := absurd h Bool.false_ne_true
  lockMain h := absurd h Bool.false_ne_true
  exclusive h := absurd h Bool.false_ne_true
  readyOutput _ h := by cases h
  readyMain _ h := by cases h
  joined h := absurd rfl h
  drained _ h := by cases h
  empty h := absurd h Bool.false_ne_true
  numbers _ h := absurd h List.not_mem_nil
  last h := absurd h List.not_mem_nil
  passed := rfl

/-- The output thread does not have the lock while the main thread does. -/
theorem Inv.output_outside (hs : Inv hooks s) (hm : s.main.inside = true) :
    ¬ s.output.inside = true := fun ho ↦
  Bool.false_ne_true ((hs.exclusive ho).symm.trans hm)

/-- The chunk `end` is not there before the main thread has written it. -/
theorem Inv.last_not_mem (hs : Inv hooks s) (hm : s.main.after = false) :
    .last ∉ s.files.keys := fun hl ↦
  Bool.false_ne_true (hm.symm.trans (hs.last hl))

/-- A buffer that is cleared. -/
theorem update_nil {buffers : Rows Row} {hook k : ℕ} (h : k ≠ hook → buffers k = []) :
    Function.update buffers hook [] k = [] := by
  by_cases hk : k = hook
  · rw [hk, Function.update_self]
  · rw [Function.update_of_ne hk, h hk]

/-- The numbers in use are below the next one, except between a write and the release after it. -/
theorem Inv.number_lt (hs : Inv hooks s) (hrel : s.output ≠ .releasing) {n : ℕ}
    (hn : .number n ∈ s.files.keys) : n < s.num :=
  (hs.numbers n hn).resolve_right fun h ↦ hrel h.2

/-- The output thread moves outside the lock. -/
theorem Inv.outside (hs : Inv hooks s) {pc : OutputPc Row} (hin : pc.inside = false)
    (hrel : s.output ≠ .releasing) : Inv hooks { s with output := pc } where
  lockOutput h := absurd (hin.symm.trans h) Bool.false_ne_true
  lockMain := hs.lockMain
  exclusive h := absurd (hin.symm.trans h) Bool.false_ne_true
  readyOutput p h := by
    rw [show pc = .popping p from h] at hin
    exact absurd hin (by simp [OutputPc.inside])
  readyMain := hs.readyMain
  joined := hs.joined
  drained := hs.drained
  empty h k hk := by
    refine ⟨(hs.empty h k hk).1, ?_⟩
    cases pc with
    | popping p => exact absurd hin (by simp [OutputPc.inside])
    | _ => rfl
  numbers _ hn := Or.inl (hs.number_lt hrel hn)
  last := hs.last
  passed := hs.passed

theorem Inv.outputStep (hs : Inv hooks s) (h : OutputStep hooks s s') : Inv hooks s' := by
  cases h with
  | wake h => exact hs.outside rfl (by rw [h]; exact nofun)
  | goOn h hrun => exact hs.outside rfl (by rw [h]; exact nofun)
  | leave h hrun => exact hs.outside rfl (by rw [h]; exact nofun)
  | acquire h hlock => exact {
      hs with
      lockOutput := fun _ ↦ rfl
      lockMain := fun _ ↦ rfl
      exclusive := fun _ ↦ Bool.eq_false_iff.2 fun hm ↦ by simp [hs.lockMain hm] at hlock
      readyOutput := fun _ h' ↦ by cases h'
      empty := fun h' k hk ↦ ⟨(hs.empty h' k hk).1, rfl⟩
      numbers := fun _ hn ↦ Or.inl (hs.number_lt (by rw [h]; exact nofun) hn) }
  | stop h harg => exact absurd (hs.passed.symm.trans harg) Bool.false_ne_true
  | begin h harg => exact {
      hs with
      lockOutput := fun _ ↦ hs.lockOutput (by rw [h]; rfl)
      exclusive := fun _ ↦ hs.exclusive (by rw [h]; rfl)
      readyOutput := fun _ h' ↦ by cases h'; exact Pop.ready_start
      empty := fun h' k hk ↦ ⟨(hs.empty h' k hk).1, rfl⟩
      numbers := fun _ hn ↦ Or.inl (hs.number_lt (by rw [h]; exact nofun) hn) }
  | clear p h hp => exact {
      hs with
      lockOutput := fun _ ↦ hs.lockOutput (by rw [h]; rfl)
      exclusive := fun _ ↦ hs.exclusive (by rw [h]; rfl)
      readyOutput := fun _ h' ↦ by cases h'; exact (hs.readyOutput p h).cleared hp
      drained := fun q (hq : s.main = .popping q) ↦ by
        have hin : s.output.inside = true := by rw [h]; rfl
        exact absurd hin (hs.output_outside (by rw [hq]; rfl))
      empty := fun h' k hk ↦ by
        refine ⟨update_nil fun _ ↦ (hs.empty h' k hk).1, ?_⟩
        have := (hs.empty h' k hk).2
        rwa [h] at this
      numbers := fun _ hn ↦ Or.inl (hs.number_lt (by rw [h]; exact nofun) hn) }
  | build p h hp hk => exact {
      hs with
      lockOutput := fun _ ↦ hs.lockOutput (by rw [h]; rfl)
      exclusive := fun _ ↦ hs.exclusive (by rw [h]; rfl)
      readyOutput := fun _ h' ↦ by cases h'; exact (hs.readyOutput p h).build hk s.buffers
      empty := fun h' k hk ↦ by
        refine ⟨(hs.empty h' k hk).1, ?_⟩
        show Function.update p.tables p.hook (s.buffers p.hook) k = []
        by_cases hk' : k = p.hook
        · rw [hk', Function.update_self, ← hk', (hs.empty h' k hk).1]
        · have := (hs.empty h' k hk).2
          rw [h] at this
          rwa [Function.update_of_ne hk']
      numbers := fun _ hn ↦ Or.inl (hs.number_lt (by rw [h]; exact nofun) hn) }
  | write p h hp hk => exact {
      hs with
      lockOutput := fun _ ↦ hs.lockOutput (by rw [h]; rfl)
      exclusive := fun _ ↦ hs.exclusive (by rw [h]; rfl)
      readyOutput := fun _ h' ↦ by cases h'
      empty := fun h' k hk ↦ ⟨(hs.empty h' k hk).1, rfl⟩
      numbers := fun n (hn : _ ∈ (s.writeChunk hooks p.tables).keys) ↦ by
        rw [State.writeChunk] at hn
        split_ifs at hn
        · exact Or.inl (hs.number_lt (by rw [h]; exact nofun) hn)
        · rcases (Dict.mem_keys_set _ _ _ _).1 hn with hn | hn
          · exact Or.inl (hs.number_lt (by rw [h]; exact nofun) hn)
          · exact Or.inr ⟨(ChunkName.number.inj hn).symm, rfl⟩
      last := fun (hl : _ ∈ (s.writeChunk hooks p.tables).keys) ↦ by
        rw [State.writeChunk] at hl
        split_ifs at hl
        · exact hs.last hl
        · exact hs.last (((Dict.mem_keys_set _ _ _ _).1 hl).resolve_right ChunkName.noConfusion) }
  | release h => exact {
      hs with
      lockOutput := fun h' ↦ absurd h' Bool.false_ne_true
      lockMain := fun hm ↦ absurd (hs.exclusive (by rw [h]; rfl)) (by rw [hm]; simp)
      exclusive := fun h' ↦ absurd h' Bool.false_ne_true
      readyOutput := fun _ h' ↦ by cases h'
      empty := fun h' k hk ↦ ⟨(hs.empty h' k hk).1, rfl⟩
      numbers := fun n hn ↦ by
        refine Or.inl ?_
        rcases hs.numbers n hn with hlt | ⟨rfl, -⟩
        · exact Nat.lt_succ_of_lt hlt
        · exact Nat.lt_succ_self _ }

theorem Inv.mainStep (hs : Inv hooks s) (h : MainStep hooks s s') : Inv hooks s' := by
  cases h with
  | join h hpoll => exact {
      hs with
      lockMain := fun h' ↦ absurd h' Bool.false_ne_true
      exclusive := fun _ ↦ rfl
      readyMain := fun _ h' ↦ by cases h'
      joined := fun _ ↦ hpoll
      drained := fun _ h' ↦ by cases h'
      empty := fun h' ↦ absurd h' Bool.false_ne_true
      last := fun hl ↦ absurd hl (hs.last_not_mem (by rw [h]; rfl)) }
  | acquire h hlock => exact {
      hs with
      lockOutput := fun _ ↦ rfl
      lockMain := fun _ ↦ rfl
      exclusive := fun ho ↦ absurd (hs.lockOutput ho) (by rw [hlock]; simp)
      readyMain := fun _ h' ↦ by cases h'
      joined := fun _ ↦ hs.joined (by rw [h]; exact nofun)
      drained := fun _ h' ↦ by cases h'
      empty := fun h' ↦ absurd h' Bool.false_ne_true
      last := fun hl ↦ absurd hl (hs.last_not_mem (by rw [h]; rfl)) }
  | setEnded h => exact {
      hs with
      lockMain := fun _ ↦ hs.lockMain (by rw [h]; rfl)
      exclusive := fun ho ↦ absurd ho (hs.output_outside (by rw [h]; rfl))
      readyMain := fun _ h' ↦ by cases h'; exact Pop.ready_start
      joined := fun _ ↦ hs.joined (by rw [h]; exact nofun)
      drained := fun _ h' k hk ↦ by cases h'; exact absurd hk (Nat.not_lt_zero k)
      empty := fun h' ↦ absurd h' Bool.false_ne_true
      last := fun hl ↦ absurd hl (hs.last_not_mem (by rw [h]; rfl)) }
  | clear p h hp => exact {
      hs with
      lockMain := fun _ ↦ hs.lockMain (by rw [h]; rfl)
      exclusive := fun ho ↦ absurd ho (hs.output_outside (by rw [h]; rfl))
      readyMain := fun _ h' ↦ by cases h'; exact (hs.readyMain p h).cleared hp
      joined := fun _ ↦ hs.joined (by rw [h]; exact nofun)
      drained := fun _ h' k hk ↦ by
        cases h'
        exact update_nil fun hk' ↦
          hs.drained p h k (Nat.lt_of_le_of_ne (Nat.le_of_lt_succ hk) hk')
      empty := fun h' ↦ absurd h' Bool.false_ne_true
      last := fun hl ↦ absurd hl (hs.last_not_mem (by rw [h]; rfl)) }
  | build p h hp hk => exact {
      hs with
      lockMain := fun _ ↦ hs.lockMain (by rw [h]; rfl)
      exclusive := fun ho ↦ absurd ho (hs.output_outside (by rw [h]; rfl))
      readyMain := fun _ h' ↦ by cases h'; exact (hs.readyMain p h).build hk s.buffers
      joined := fun _ ↦ hs.joined (by rw [h]; exact nofun)
      drained := fun _ h' ↦ by cases h'; exact hs.drained p h
      empty := fun h' ↦ absurd h' Bool.false_ne_true
      last := fun hl ↦ absurd hl (hs.last_not_mem (by rw [h]; rfl)) }
  | write p h hp hk => exact {
      hs with
      lockMain := fun _ ↦ hs.lockMain (by rw [h]; rfl)
      exclusive := fun ho ↦ absurd ho (hs.output_outside (by rw [h]; rfl))
      readyMain := fun _ h' ↦ by cases h'
      joined := fun _ ↦ hs.joined (by rw [h]; exact nofun)
      drained := fun _ h' ↦ by cases h'
      empty := fun _ k hk' ↦ by
        refine ⟨hs.drained p h k (Nat.lt_of_lt_of_le hk' (Nat.le_of_not_lt hk)), ?_⟩
        -- the main thread holds the lock, so no pop of the output thread is going on
        show Pop.pending s.output.pop? k = []
        rcases ho : s.output with - | - | - | - | q | - | -
        case popping =>
          have hin : s.output.inside = true := by rw [ho]; rfl
          exact absurd hin (hs.output_outside (by rw [h]; rfl))
        all_goals rfl
      numbers := fun n hn ↦
        hs.numbers n (((Dict.mem_keys_set _ _ _ _).1 hn).resolve_right ChunkName.noConfusion)
      last := fun _ ↦ rfl }
  | release h => exact {
      hs with
      lockOutput := fun ho ↦ absurd ho (hs.output_outside (by rw [h]; rfl))
      lockMain := fun h' ↦ absurd h' Bool.false_ne_true
      exclusive := fun _ ↦ rfl
      readyMain := fun _ h' ↦ by cases h'
      joined := fun _ ↦ hs.joined (by rw [h]; exact nofun)
      drained := fun _ h' ↦ by cases h'
      empty := fun _ ↦ hs.empty (by rw [h]; rfl)
      last := fun _ ↦ rfl }

/-- **Every step keeps the invariant.** -/
theorem Inv.step (hs : Inv hooks s) (h : step hooks s l = some s') : Inv hooks s' := by
  cases step_iff.1 h with
  | append k r hpoll hk =>
    -- a row is appended only while the main thread is waiting
    have hmain : s.main = .waiting := by
      by_contra hm
      exact absurd (hs.joined hm) (by rw [hpoll]; simp)
    exact {
      hs with
      drained := fun p h' ↦ by rw [show s.main = .popping p from h'] at hmain; cases hmain
      empty := fun h' ↦ by
        rw [show s.main.after = true ↔ MainPc.after .waiting = true by rw [hmain]] at h'
        exact absurd h' Bool.false_ne_true }
  | pollEnd hpoll => exact { hs with joined := fun _ ↦ rfl }
  | signal => exact { hs with }
  | output h => exact hs.outputStep h
  | main h => exact hs.mainStep h

/-- **Every reachable state satisfies the invariant.** -/
theorem inv_of_exec {ls : List (Label Row)} (h : Run.exec (step hooks) .init ls = some s) :
    Inv hooks s :=
  Run.exec_invariant (fun _ _ _ hs h ↦ hs.step h) inv_init h

end Collect
