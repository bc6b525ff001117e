import HugePageResearch.Collect.Session

/-!
# Which rows reach the run directory

A row is appended to a buffer, goes into the tables of a pop, and from there into a chunk. `kept`
lists what is on this way for one hook: the rows of the chunks, of the tables under construction and
of the buffer. Between the two steps of a pop the rows of the buffer are already in the tables, and
`clear()` drops what came in since; the buffer does not count then.

Every step keeps `kept` in step with the appended rows, with one exception: a row appended between
the two steps of a pop of its hook.
-/

namespace Collect

variable {Row : Type*} {hooks : ℕ} {s s' t : State Row} {l : Label Row} {ls : List (Label Row)}

/-- The rows of a hook in all chunks. -/
def fileRows (s : State Row) (k : ℕ) : List Row := s.files.items.flatMap fun e ↦ e.2 k

/-- A pop of hook `k` is between its two steps. -/
def popGap (s : State Row) (k : ℕ) : Bool :=
  Pop.builtAt s.output.pop? k || Pop.builtAt s.main.pop? k

/-- The rows of a buffer that will be popped: between the two steps of a pop, none. -/
def live (gap : Bool) (buffer : List Row) : List Row := if gap then [] else buffer

/-- The rows of a hook that are in a chunk or on the way to one. -/
def kept (s : State Row) (k : ℕ) : List Row :=
  fileRows s k ++ (Pop.pending s.output.pop? k ++ (Pop.pending s.main.pop? k ++
    live (popGap s k) (s.buffers k)))

/-- The row that a step appends to a hook. -/
def newRows (l : Label Row) (k : ℕ) : List Row :=
  match l with
  | .append k' r => if k' = k then [r] else []
  | _ => []

/-- No row is appended to a hook between the two steps of a pop of it. -/
def NoRace (s : State Row) : Label Row → Prop
  | .append k _ => popGap s k = false
  | _ => True

/-- Every row that was appended is in exactly one chunk. -/
def Delivered (hooks : ℕ) (s : State Row) : Prop :=
  ∀ k < hooks, (fileRows s k).Perm (s.appended k)

/-! ### One step -/

/-- Only a poll appends. -/
theorem appended_step (h : step hooks s l = some s') (k : ℕ) :
    s'.appended k = s.appended k ++ newRows l k := by
  cases step_iff.1 h with
  | append k' r hpoll hk' =>
    show Function.update s.appended k' (s.appended k' ++ [r]) k = _
    by_cases hk : k' = k
    · rw [hk, Function.update_self, newRows, if_pos rfl]
    · rw [Function.update_of_ne (Ne.symm hk), newRows, if_neg hk, List.append_nil]
  | pollEnd hpoll => exact (List.append_nil _).symm
  | signal => exact (List.append_nil _).symm
  | output h => cases h <;> exact (List.append_nil _).symm
  | main h => cases h <;> exact (List.append_nil _).symm

/-- While the output thread pops, the main thread does not. -/
theorem Inv.main_pop (hs : Inv hooks s) {p : Pop Row} (h : s.output = .popping p) :
    s.main.pop? = none := by
  have := hs.exclusive (by rw [h]; rfl)
  rcases hm : s.main with - | - | - | q | - | -
  case popping => exact absurd this (by rw [hm]; simp [MainPc.inside])
  all_goals rfl

/-- While the main thread pops, the output thread does not. -/
theorem Inv.output_pop (hs : Inv hooks s) {p : Pop Row} (h : s.main = .popping p) :
    s.output.pop? = none := by
  rcases ho : s.output with - | - | - | - | q | - | -
  case popping => exact absurd (hs.main_pop ho) (by rw [h]; simp [MainPc.pop?])
  all_goals rfl

theorem builtAt_of_not_built {p : Pop Row} (hp : p.built = false) (k : ℕ) :
    Pop.builtAt (some p) k = false := by
  show (p.built && p.hook == k) = false
  rw [hp, Bool.false_and]

theorem builtAt_build (p : Pop Row) (buffers : Rows Row) (k : ℕ) :
    Pop.builtAt (some (p.build buffers)) k = (p.hook == k) :=
  Bool.true_and _

/-- **Building the tables of a hook** moves its buffer into them. -/
theorem pending_build {p : Pop Row} (hp : p.Ready hooks) (hb : p.built = false)
    (buffers : Rows Row) (k : ℕ) :
    Pop.pending (some (p.build buffers)) k ++
        live (Pop.builtAt (some (p.build buffers)) k) (buffers k) =
      Pop.pending (some p) k ++ live (Pop.builtAt (some p) k) (buffers k) := by
  rw [builtAt_build, builtAt_of_not_built hb]
  show Function.update p.tables p.hook (buffers p.hook) k ++ _ = p.tables k ++ buffers k
  by_cases hk : p.hook = k
  · subst hk
    rw [Function.update_self, hp.tables_eq p.hook (Or.inr ⟨rfl, hb⟩), beq_self_eq_true]
    exact List.append_nil _
  · rw [Function.update_of_ne (Ne.symm hk), beq_false_of_ne hk]
    rfl

/-- **Clearing the buffer** drops nothing that counts. -/
theorem pending_cleared {p : Pop Row} (hb : p.built = true) (buffers : Rows Row) (k : ℕ) :
    Pop.pending (some p.cleared) k ++
        live (Pop.builtAt (some p.cleared) k) (Function.update buffers p.hook [] k) =
      Pop.pending (some p) k ++ live (Pop.builtAt (some p) k) (buffers k) := by
  show p.tables k ++ Function.update buffers p.hook [] k =
    p.tables k ++ live (p.built && p.hook == k) (buffers k)
  rw [hb, Bool.true_and]
  by_cases hk : p.hook = k
  · subst hk
    rw [Function.update_self, beq_self_eq_true]
    rfl
  · rw [Function.update_of_ne (Ne.symm hk), beq_false_of_ne hk]
    rfl

/-- A chunk under a new name adds its rows. -/
theorem fileRows_set {c : ChunkName} (hc : c ∉ s.files.keys) (tables : Rows Row) (k : ℕ) :
    (s.files.set c tables).items.flatMap (fun e ↦ e.2 k) = fileRows s k ++ tables k := by
  rw [Dict.items_set_of_not_mem tables hc, List.flatMap_append, List.flatMap_singleton]
  rfl

/-- **The output thread keeps all rows**: no row leaves the way to a chunk. -/
theorem kept_outputStep (hs : Inv hooks s) (h : OutputStep hooks s s') {k : ℕ} (hk : k < hooks) :
    kept s' k = kept s k := by
  cases h with
  | wake h => simp only [kept, popGap, h]; rfl
  | goOn h hrun => simp only [kept, popGap, h]; rfl
  | leave h hrun => simp only [kept, popGap, h]; rfl
  | acquire h hlock => simp only [kept, popGap, h]; rfl
  | stop h harg => simp only [kept, popGap, h]; rfl
  | begin h harg => simp only [kept, popGap, h]; rfl
  | clear p h hp =>
    simp only [kept, popGap, h, hs.main_pop h, OutputPc.pop?, Pop.pending_none,
      Pop.builtAt_none, Bool.or_false, List.nil_append]
    rw [pending_cleared hp]
    rfl
  | build p h hp hk' =>
    simp only [kept, popGap, h, hs.main_pop h, OutputPc.pop?, Pop.pending_none,
      Pop.builtAt_none, Bool.or_false, List.nil_append]
    rw [pending_build (hs.readyOutput p h) hp]
    rfl
  | write p h hp hk' =>
    have hnew : .number s.num ∉ s.files.keys := fun hn ↦
      Nat.lt_irrefl _ (hs.number_lt (by rw [h]; exact nofun) hn)
    have hne : hooks ≠ 0 := Nat.ne_of_gt (Nat.lt_of_le_of_lt (Nat.zero_le k) hk)
    simp only [kept, popGap, h, hs.main_pop h, OutputPc.pop?, Pop.pending_none,
      Pop.builtAt_none, builtAt_of_not_built hp, Bool.or_false, List.nil_append]
    rw [← List.append_assoc]
    show List.flatMap (fun e ↦ e.2 k) (s.writeChunk hooks p.tables).items ++ _ = _
    rw [State.writeChunk, if_neg hne, fileRows_set hnew]
    rfl
  | release h => simp only [kept, popGap, h]; rfl

/-- **The main thread keeps all rows.** -/
theorem kept_mainStep (hs : Inv hooks s) (h : MainStep hooks s s') (k : ℕ) :
    kept s' k = kept s k := by
  cases h with
  | join h hpoll => simp only [kept, popGap, h]; rfl
  | acquire h hlock => simp only [kept, popGap, h]; rfl
  | setEnded h => simp only [kept, popGap, h]; rfl
  | clear p h hp =>
    simp only [kept, popGap, h, hs.output_pop h, MainPc.pop?, Pop.pending_none,
      Pop.builtAt_none, Bool.false_or, List.nil_append]
    rw [pending_cleared hp]
    rfl
  | build p h hp hk' =>
    simp only [kept, popGap, h, hs.output_pop h, MainPc.pop?, Pop.pending_none,
      Pop.builtAt_none, Bool.false_or, List.nil_append]
    rw [pending_build (hs.readyMain p h) hp]
    rfl
  | write p h hp hk' =>
    have hnew : ChunkName.last ∉ s.files.keys := fun hl ↦ by
      have := hs.last hl
      rw [h] at this
      exact absurd this Bool.false_ne_true
    simp only [kept, popGap, h, hs.output_pop h, MainPc.pop?, Pop.pending_none,
      Pop.builtAt_none, builtAt_of_not_built hp, Bool.or_false, List.nil_append]
    rw [← List.append_assoc]
    show List.flatMap (fun e ↦ e.2 k) (s.files.set .last p.tables).items ++ _ = _
    rw [fileRows_set hnew]
    rfl
  | release h => simp only [kept, popGap, h]; rfl

/-- **One step without a race** keeps every row, and the appended one with them. -/
theorem kept_step (hs : Inv hooks s) (h : step hooks s l = some s') (hrace : NoRace s l) {k : ℕ}
    (hk : k < hooks) : kept s' k = kept s k ++ newRows l k := by
  cases step_iff.1 h with
  | append k' r hpoll hk' =>
    show fileRows s k ++ (Pop.pending s.output.pop? k ++ (Pop.pending s.main.pop? k ++
      live (popGap s k) (Function.update s.buffers k' (s.buffers k' ++ [r]) k))) = _
    by_cases hk' : k' = k
    · subst hk'
      rw [Function.update_self, newRows, if_pos rfl, kept, show popGap s k' = false from hrace]
      simp only [live, Bool.false_eq_true, if_false, List.append_assoc]
    · rw [Function.update_of_ne (Ne.symm hk'), newRows, if_neg hk', List.append_nil]
      rfl
  | pollEnd hpoll => exact (List.append_nil _).symm
  | signal => exact (List.append_nil _).symm
  | output h => exact (kept_outputStep hs h hk).trans (List.append_nil _).symm
  | main h => exact (kept_mainStep hs h k).trans (List.append_nil _).symm

/-- **A row appended in the gap of a pop** is not kept. -/
theorem kept_step_of_race {k : ℕ} {r : Row} (h : step hooks s (.append k r) = some s')
    (hrace : popGap s k = true) : kept s' k = kept s k := by
  cases step_iff.1 h
  show fileRows s k ++ (Pop.pending s.output.pop? k ++ (Pop.pending s.main.pop? k ++
    live (popGap s k) (Function.update s.buffers k (s.buffers k ++ [r]) k))) = _
  rw [kept, hrace]
  rfl

/-! ### Whole runs -/

/-- A step never makes up for a row that was lost. -/
theorem length_kept_step (hs : Inv hooks s) (h : step hooks s l = some s') {k : ℕ}
    (hk : k < hooks) :
    (kept s' k).length + (s.appended k).length ≤ (kept s k).length + (s'.appended k).length := by
  have happ := congrArg List.length (appended_step h k)
  rw [List.length_append] at happ
  have hcases : kept s' k = kept s k ++ newRows l k ∨ kept s' k = kept s k := by
    cases l with
    | append k' r =>
      by_cases hrace : NoRace s (.append k' r)
      · exact Or.inl (kept_step hs h hrace hk)
      · by_cases hk' : k' = k
        · subst hk'
          exact Or.inr (kept_step_of_race h (Bool.ne_false_iff.1 hrace))
        · refine Or.inr ?_
          cases step_iff.1 h
          show fileRows s k ++ (Pop.pending s.output.pop? k ++ (Pop.pending s.main.pop? k ++
            live (popGap s k) (Function.update s.buffers k' (s.buffers k' ++ [r]) k))) = _
          rw [Function.update_of_ne (Ne.symm hk')]
          rfl
    | pollEnd => exact Or.inl (kept_step hs h trivial hk)
    | signal => exact Or.inl (kept_step hs h trivial hk)
    | output => exact Or.inl (kept_step hs h trivial hk)
    | main => exact Or.inl (kept_step hs h trivial hk)
  rcases hcases with hk' | hk'
  · rw [hk', List.length_append]
    omega
  · rw [hk']
    omega

/-- **A run without a race keeps every row**, in the order in which they were appended. -/
theorem kept_eq_appended (h : Run.exec (step hooks) .init ls = some t)
    (hrace : Run.Always (step hooks) NoRace .init ls) {k : ℕ} (hk : k < hooks) :
    kept t k = t.appended k := by
  refine (Run.exec_invariant_of_always
    (I := fun s : State Row ↦ Inv hooks s ∧ kept s k = s.appended k) ?_ ⟨inv_init, rfl⟩ hrace h).2
  rintro s l s' ⟨hs, heq⟩ hl hstep
  refine ⟨hs.step hstep, ?_⟩
  rw [kept_step hs hstep hl hk, appended_step hstep k, heq]

/-- No run keeps more rows than were appended. -/
theorem length_kept_le (h : Run.exec (step hooks) .init ls = some t) {k : ℕ} (hk : k < hooks) :
    (kept t k).length ≤ (t.appended k).length := by
  refine (Run.exec_invariant (I := fun s : State Row ↦
    Inv hooks s ∧ (kept s k).length ≤ (s.appended k).length) ?_ ⟨inv_init, Nat.le_refl _⟩ h).2
  rintro s l s' ⟨hs, hle⟩ hstep
  have := length_kept_step hs hstep hk
  exact ⟨hs.step hstep, by omega⟩

/-- **A lost row stays lost.** -/
theorem length_kept_lt {s : State Row} (hs : Inv hooks s) {k : ℕ} (hk : k < hooks)
    (hlt : (kept s k).length < (s.appended k).length) (h : Run.exec (step hooks) s ls = some t) :
    (kept t k).length < (t.appended k).length := by
  refine (Run.exec_invariant (I := fun s : State Row ↦
    Inv hooks s ∧ (kept s k).length < (s.appended k).length) ?_ ⟨hs, hlt⟩ h).2
  rintro s l s' ⟨hs, hlt⟩ hstep
  have := length_kept_step hs hstep hk
  exact ⟨hs.step hstep, by omega⟩

/-- When the main thread is done, everything kept is in a chunk. -/
theorem kept_eq_fileRows (hs : Inv hooks s) (hdone : s.main = .done) {k : ℕ} (hk : k < hooks) :
    kept s k = fileRows s k := by
  obtain ⟨hbuf, hpend⟩ := hs.empty (by rw [hdone]; rfl) k hk
  rw [kept, hpend, hbuf, hdone]
  have hlive : live (popGap s k) ([] : List Row) = [] := by
    rw [live]
    split_ifs
    · rfl
    · rfl
  show fileRows s k ++ ([] ++ ([] ++ live (popGap s k) [])) = fileRows s k
  rw [hlive]
  exact List.append_nil _

/-- **A finished run has delivered every row exactly once if and only if** no row was appended to a
hook between the two steps of a pop of that hook. -/
theorem delivered_iff (h : Run.exec (step hooks) .init ls = some t) (hdone : t.main = .done) :
    Delivered hooks t ↔ Run.Always (step hooks) NoRace .init ls := by
  have hinv := inv_of_exec h
  constructor
  · intro hdel
    by_contra hrace
    obtain ⟨pre, l, post, s₁, s₂, -, hpre, hl, hstep, hpost, -⟩ :=
      Run.exists_step_of_not_always h hrace
    cases l with
    | append k r =>
      have hk : k < hooks := by
        cases step_iff.1 hstep
        assumption
      have hgap : popGap s₁ k = true := Bool.ne_false_iff.1 hl
      have hlt : (kept s₂ k).length < (s₂.appended k).length := by
        rw [kept_step_of_race hstep hgap, appended_step hstep k, newRows, if_pos rfl,
          List.length_append]
        exact Nat.lt_succ_of_le (length_kept_le hpre hk)
      have hfinal := length_kept_lt ((inv_of_exec hpre).step hstep) hk hlt hpost
      rw [kept_eq_fileRows hinv hdone hk, (hdel k hk).length_eq] at hfinal
      exact absurd hfinal (Nat.lt_irrefl _)
    | pollEnd => exact hl trivial
    | signal => exact hl trivial
    | output => exact hl trivial
    | main => exact hl trivial
  · intro hrace k hk
    rw [← kept_eq_fileRows hinv hdone hk, kept_eq_appended h hrace hk]

/-- One hook; the output thread writes chunk `0` with its row, then the run ends. -/
def calmRun : List (Label ℕ) :=
  [.append 0 7] ++ List.replicate 8 .output ++ [.pollEnd] ++ List.replicate 7 .main

theorem calmRun_delivered_iff : ∃ t, Run.exec (step 1) .init calmRun = some t ∧
    (Delivered 1 t ↔ Run.Always (step 1) NoRace .init calmRun) :=
  ⟨_, rfl, delivered_iff rfl rfl⟩

/-- The same, but a second row comes in between the two steps of the first pop. -/
def racyRun : List (Label ℕ) :=
  [.append 0 7] ++ List.replicate 5 .output ++ [.append 0 8] ++ List.replicate 3 .output ++
    [.pollEnd] ++ List.replicate 7 .main

/-- The second row is in no chunk. -/
theorem racyRun_not_delivered : ∃ t, Run.exec (step 1) .init racyRun = some t ∧
    t.main = .done ∧ ¬ Delivered 1 t :=
  ⟨_, rfl, rfl, fun hdel ↦ absurd (hdel 0 Nat.one_pos).length_eq (by decide)⟩

end Collect
