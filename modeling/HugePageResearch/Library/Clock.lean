import HugePageResearch.Library.Script
import Mathlib.Tactic.Linarith
import Mathlib.Tactic.NormNum
import Mathlib.Tactic.Ring

/-!
# Waiting loops

A loop that waits for the outside asks a clock in every turn, gives up after a time and sleeps
before the next turn. How many turns it takes is up to the outside; but where sleeping takes its
time, it is no more than what fits into the time after which it gives up.

Of the clock nothing else is used: `Ticking` says that it goes on at least by what is slept.
`Waits` is what holds of a loop between two turns: as long as the clock ticks, it has a turn left.
`Waits.looked` and `Waits.slept` lead through a turn, and any other call keeps it (`steady_waits`).
`Ends` is what is proved of a script along its text, and `Ends.run` what it says of the runs.
-/

namespace Script

variable {Cmd : Type} {Ans : Cmd → Type}

/-- What a call does with a clock: it looks at it and is answered, it sleeps, or neither. -/
inductive ClockUse (A : Type) where
  | look (time : A → ℚ)
  | sleep (seconds : ℚ)
  | neither

/-- What a program sees of a clock. -/
structure Clock (Cmd : Type) (Ans : Cmd → Type) where
  use : (c : Cmd) → ClockUse (Ans c)

namespace Clock

variable (C : Clock Cmd Ans)

/-! ### The time -/

/-- The time that an event shows. -/
def shown (e : Event Cmd Ans) : Option ℚ :=
  match C.use e.1 with
  | .look time => some (time e.2)
  | _ => none

/-- How long a call sleeps. -/
def sleeps (c : Cmd) : Option ℚ :=
  match C.use c with
  | .sleep seconds => some seconds
  | _ => none

/-- What the clock shows at least after an event: what it showed last, and what was slept since. -/
def tick (t : Option ℚ) (e : Event Cmd Ans) : Option ℚ :=
  match C.shown e with
  | some now => some now
  | none =>
    match C.sleeps e.1 with
    | some seconds => t.map (· + seconds)
    | none => t

/-- What the clock shows at least; nothing is known before it was asked. -/
def earliest (h : History Cmd Ans) : Option ℚ := h.foldl C.tick none

/-- **Sleeping takes its time**: the clock goes on at least by what is slept. -/
def Ticking (h : History Cmd Ans) : Prop :=
  ∀ pre e post, h = pre ++ e :: post → ∀ now ∈ C.shown e, ∀ t ∈ C.earliest pre, t ≤ now

/-- The clock shows `t` or more. -/
def Shows (t : ℚ) (h : History Cmd Ans) : Prop := C.Ticking h → ∃ now ∈ C.earliest h, t ≤ now

variable {C} {h : History Cmd Ans} {e : Event Cmd Ans} {t now seconds : ℚ}

/-- A look at the clock does not sleep. -/
theorem sleeps_of_shown (he : C.shown e = some now) : C.sleeps e.1 = none := by
  revert he
  rw [shown, sleeps]
  cases C.use e.1 with
  | look time => exact fun _ ↦ rfl
  | sleep seconds => exact fun he ↦ nomatch he
  | neither => exact fun _ ↦ rfl

theorem shown_of_sleeps (hs : C.sleeps e.1 = some seconds) : C.shown e = none := by
  cases he : C.shown e with
  | none => rfl
  | some now => cases hs.symm.trans (sleeps_of_shown he)

theorem earliest_concat : C.earliest (h ++ [e]) = C.tick (C.earliest h) e := by
  rw [earliest, List.foldl_append]
  rfl

theorem tick_of_shown (he : C.shown e = some now) (t : Option ℚ) : C.tick t e = some now := by
  rw [tick, he]

theorem tick_of_sleeps (hs : C.sleeps e.1 = some seconds) (t : Option ℚ) :
    C.tick t e = t.map (· + seconds) := by
  rw [tick, shown_of_sleeps hs, hs]

theorem tick_of_none (he : C.shown e = none) (hs : C.sleeps e.1 = none) (t : Option ℚ) :
    C.tick t e = t := by
  rw [tick, he, hs]

theorem ticking_nil : C.Ticking [] := Lists.forall_splits_nil

theorem ticking_concat : C.Ticking (h ++ [e]) ↔
    C.Ticking h ∧ ∀ now ∈ C.shown e, ∀ t ∈ C.earliest h, t ≤ now :=
  Lists.forall_splits_concat

theorem ticking_of_concat (ht : C.Ticking (h ++ [e])) : C.Ticking h := (ticking_concat.1 ht).1

theorem Shows.le_now (hs : C.Shows t h) (he : C.shown e = some now) (ht : C.Ticking (h ++ [e])) :
    t ≤ now := by
  obtain ⟨hticking, hlast⟩ := ticking_concat.1 ht
  obtain ⟨now', hnow', hle⟩ := hs hticking
  exact hle.trans (hlast now he now' hnow')

theorem shows_of_shown (he : C.shown e = some now) : C.Shows now (h ++ [e]) := fun _ ↦
  ⟨now, by rw [earliest_concat]; exact tick_of_shown he _, le_refl now⟩

theorem Shows.slept (hs : C.Shows t h) (hsleeps : C.sleeps e.1 = some seconds) :
    C.Shows (t + seconds) (h ++ [e]) := by
  intro ht
  obtain ⟨now, hnow, hle⟩ := hs (ticking_of_concat ht)
  refine ⟨now + seconds, ?_, add_le_add_left hle seconds⟩
  rw [earliest_concat, tick_of_sleeps hsleeps, Option.mem_def.1 hnow]
  rfl

/-- **What the clock shows stays**, as long as nothing sleeps. -/
theorem Shows.concat (hs : C.Shows t h) (hsleeps : C.sleeps e.1 = none) :
    C.Shows t (h ++ [e]) := by
  intro ht
  cases he : C.shown e with
  | some now =>
    refine ⟨now, ?_, hs.le_now he ht⟩
    rw [earliest_concat]
    exact tick_of_shown he _
  | none =>
    obtain ⟨now, hnow, hle⟩ := hs (ticking_of_concat ht)
    refine ⟨now, ?_, hle⟩
    rw [earliest_concat, tick_of_none he hsleeps]
    exact hnow

/-! ### The turns -/

variable (C) in
/-- Calls other than sleeping keep `P`. -/
def Steady (P : History Cmd Ans → Prop) : Prop :=
  ∀ h (c : Cmd) (a : Ans c), C.sleeps c = none → P h → P (h ++ [⟨c, a⟩])

theorem steady_true : C.Steady fun _ ↦ True := fun _ _ _ _ _ ↦ trivial

variable (C) in
/-- **A loop with `turns` turns left**, after `k` of them: the clock shows `t`, and as long as it
ticks, more than `m` turns would have had to be made for none to be left. -/
structure Waits (m : ℕ) (t : ℚ) (turns k : ℕ) (h : History Cmd Ans) : Prop where
  shows_time : C.Shows t h
  left : C.Ticking h → 0 < turns ∧ m < turns + k

variable {m turns k : ℕ} {start pause : ℚ}

theorem steady_waits : C.Steady (C.Waits m t turns k) := fun _ _ _ hc hw ↦
  ⟨hw.shows_time.concat hc, fun ht ↦ hw.left (ticking_of_concat ht)⟩

/-- **A loop begins** when the clock was just looked at. -/
theorem waits_of_shown (he : C.shown e = some start) (hturns : m < turns) :
    C.Waits m (start + pause * (0 : ℕ)) turns 0 (h ++ [e]) := by
  rw [Nat.cast_zero, mul_zero, add_zero]
  exact ⟨shows_of_shown he, fun _ ↦ ⟨by omega, hturns⟩⟩

/-- **A look at the clock**: a loop that does not give up has a turn left after this one. -/
theorem Waits.looked (hw : C.Waits m (start + pause * k) (turns + 1) k h) (hpause : 0 < pause)
    (he : C.shown e = some now) (hnow : now < start + pause * m) :
    C.Waits m (start + pause * k) turns (k + 1) (h ++ [e]) := by
  refine ⟨hw.shows_time.concat (sleeps_of_shown he), fun ht ↦ ?_⟩
  have hle : start + pause * k ≤ now := hw.shows_time.le_now he ht
  have hlt : pause * (k : ℚ) < pause * m := by linarith
  have hk : k < m := by exact_mod_cast lt_of_mul_lt_mul_left hlt hpause.le
  have hleft := (hw.left (ticking_of_concat ht)).2
  exact ⟨by omega, by omega⟩

/-- **The pause after a turn.** -/
theorem Waits.slept (hw : C.Waits m (start + pause * k) turns (k + 1) h)
    (hsleeps : C.sleeps e.1 = some pause) :
    C.Waits m (start + pause * (k + 1 : ℕ)) turns (k + 1) (h ++ [e]) := by
  have heq : start + pause * ((k + 1 : ℕ) : ℚ) = start + pause * k + pause := by
    push_cast
    ring
  rw [heq]
  exact ⟨hw.shows_time.slept hsleeps, fun ht ↦ hw.left (ticking_of_concat ht)⟩

/-! ### Scripts that end -/

section Ends

variable {ε α β : Type} {waiting : ε} {P : History Cmd Ans → Prop}

variable (C) in
/-- The script does not raise `waiting`, which says that a loop had no turn left, where the clock
ticks, and `P` holds where it returns. -/
abbrev Ends (waiting : ε) (P : History Cmd Ans → Prop) (s : Script Cmd Ans ε α)
    (h : History Cmd Ans) : Prop :=
  s.Meets (fun _ _ ↦ True) (fun _ ↦ P) (fun e h ↦ e = waiting → ¬ C.Ticking h) h

/-- A check ends. -/
theorem ends_require {ok : Bool} {e : ε} (he : e ≠ waiting) :
    C.Ends waiting (fun _ ↦ True) (require ok e) h := by
  refine meets_require.2 ?_
  split_ifs
  exact fun heq ↦ absurd heq he

/-- A loop ends, where its turns do. -/
theorem ends_forEach {γ : Type} {body : γ → β → Script Cmd Ans ε β} {xs : List γ} {b : β}
    (hbody : ∀ x b h, C.Ends waiting (fun _ ↦ True) (body x b) h) :
    C.Ends waiting (fun _ ↦ True) (forEach body xs b) h :=
  meets_forEach (I := fun _ _ _ ↦ True) (fun _ x _ _ b h' _ ↦ hbody x b h') trivial

/-- **A script that ends** does not raise `waiting` in a run in which the clock ticks. -/
theorem Ends.run {s : Script Cmd Ans ε α} (hs : C.Ends waiting P s []) (env : Env Cmd Ans)
    (ht : C.Ticking (s.run env []).1) : (s.run env []).2 ≠ .error waiting := fun hwaiting ↦
  (Meets.run hs safe_nil env).2.2 _ hwaiting rfl ht

end Ends

/-! ### An ideal clock -/

variable (C) in
/-- What was slept. -/
def slept (h : History Cmd Ans) : ℚ := (h.map fun e ↦ (C.sleeps e.1).getD 0).sum

theorem slept_concat : C.slept (h ++ [e]) = C.slept h + (C.sleeps e.1).getD 0 := by
  rw [slept, slept, List.map_append, List.sum_append, List.map_singleton, List.sum_singleton]

theorem ticking_run_of_le {ε α : Type} {s : Script Cmd Ans ε α} {env : Env Cmd Ans}
    (henv : ∀ h c now, C.shown ⟨c, env h c⟩ = some now → now = C.slept h) (ht : C.Ticking h)
    (hle : ∀ t ∈ C.earliest h, t ≤ C.slept h) : C.Ticking (s.run env h).1 := by
  induction s generalizing h with
  | ret a => exact ht
  | raise e => exact ht
  | call c next ih =>
    refine ih _ (ticking_concat.2 ⟨ht, fun now hnow t hmem ↦ ?_⟩) fun t hmem ↦ ?_
    · rw [henv h c now hnow]
      exact hle t hmem
    · rw [earliest_concat] at hmem
      rw [slept_concat]
      cases hc : C.sleeps c with
      | some seconds =>
        rw [tick_of_sleeps hc] at hmem
        obtain ⟨t', ht', rfl⟩ := Option.map_eq_some_iff.1 hmem
        exact add_le_add_left (hle t' ht') seconds
      | none =>
        rw [Option.getD_none, add_zero]
        cases hshown : C.shown ⟨c, env h c⟩ with
        | some now =>
          rw [tick_of_shown hshown] at hmem
          obtain rfl := Option.mem_some_iff.1 hmem
          exact (henv h c now hshown).le
        | none =>
          rw [tick_of_none hshown hc] at hmem
          exact hle t hmem

/-- **A clock that shows what was slept** ticks in every run. -/
theorem ticking_run {ε α : Type} {s : Script Cmd Ans ε α} {env : Env Cmd Ans}
    (henv : ∀ h c now, C.shown ⟨c, env h c⟩ = some now → now = C.slept h) :
    C.Ticking (s.run env []).1 :=
  ticking_run_of_le henv ticking_nil fun t hmem ↦ (Option.not_mem_none t hmem).elim

end Clock

end Script
