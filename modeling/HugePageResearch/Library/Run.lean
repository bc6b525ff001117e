import Mathlib.Data.Nat.Notation
import Mathlib.Data.Option.Basic

/-!
# Runs of labelled transition systems

A system is a partial function from a state and a label to the next state; a label that is not
enabled has no next state. A run is a list of labels that are enabled one after the other.

Two induction rules carry the invariants of the systems built on this: `exec_invariant` for what
every step keeps, and `exec_invariant_of_always` for what is kept by the steps that meet a condition
on the label and the state before it.
-/

namespace Run

variable {σ ι : Type*}

/-- The state after a run, if every label of it is enabled. -/
def exec (step : σ → ι → Option σ) : σ → List ι → Option σ
  | s, [] => some s
  | s, l :: ls => (step s l).bind fun s' ↦ exec step s' ls

/-- Every step of a run meets a condition on the state before it and its label. -/
def Always (step : σ → ι → Option σ) (P : σ → ι → Prop) : σ → List ι → Prop
  | _, [] => True
  | s, l :: ls => P s l ∧ ∀ s', step s l = some s' → Always step P s' ls

/-- A state that some run from `s` ends in. -/
def Reachable (step : σ → ι → Option σ) (s t : σ) : Prop :=
  ∃ ls, exec step s ls = some t

/-- A condition along a given run can be tried. -/
instance decidableAlways (step : σ → ι → Option σ) (P : σ → ι → Prop)
    [∀ s l, Decidable (P s l)] : ∀ s ls, Decidable (Always step P s ls)
  | _, [] => inferInstanceAs (Decidable True)
  | s, l :: ls =>
    have : Decidable (∀ s', step s l = some s' → Always step P s' ls) :=
      match step s l with
      | none => isTrue nofun
      | some s' =>
        have := decidableAlways step P s' ls
        decidable_of_iff (Always step P s' ls)
          ⟨fun h _ hs ↦ Option.some.inj hs ▸ h, fun h ↦ h s' rfl⟩
    inferInstanceAs (Decidable (_ ∧ _))

variable {step : σ → ι → Option σ} {s t u : σ} {l : ι} {ls ls' : List ι}

/-- **A run that starts with a label** takes its step first. -/
theorem exec_cons : exec step s (l :: ls) = some t ↔
    ∃ s', step s l = some s' ∧ exec step s' ls = some t :=
  Option.bind_eq_some_iff

/-- **Runs compose.** -/
theorem exec_append (h : exec step s ls = some t) (h' : exec step t ls' = some u) :
    exec step s (ls ++ ls') = some u := by
  induction ls generalizing s with
  | nil =>
    obtain rfl := Option.some.inj h
    exact h'
  | cons l ls ih =>
    obtain ⟨s', hl, hls⟩ := exec_cons.1 h
    exact exec_cons.2 ⟨s', hl, ih hls⟩

/-- A run in two parts has a state between them. -/
theorem exists_of_exec_append (h : exec step s (ls ++ ls') = some u) :
    ∃ t, exec step s ls = some t ∧ exec step t ls' = some u := by
  induction ls generalizing s with
  | nil => exact ⟨s, rfl, h⟩
  | cons l ls ih =>
    obtain ⟨s', hl, hls⟩ := exec_cons.1 h
    obtain ⟨t, ht, hu⟩ := ih hls
    exact ⟨t, exec_cons.2 ⟨s', hl, ht⟩, hu⟩

/-- Where every label is enabled, every run goes through. -/
theorem exists_exec (htotal : ∀ s l, ∃ s', step s l = some s') (s : σ) (ls : List ι) :
    ∃ t, exec step s ls = some t := by
  induction ls generalizing s with
  | nil => exact ⟨s, rfl⟩
  | cons l ls ih =>
    obtain ⟨s', hl⟩ := htotal s l
    obtain ⟨t, ht⟩ := ih s'
    exact ⟨t, exec_cons.2 ⟨s', hl, ht⟩⟩

/-- A step in front of a run. -/
theorem Reachable.head (h : step s l = some t) (h' : Reachable step t u) : Reachable step s u := by
  obtain ⟨ls, hls⟩ := h'
  exact ⟨l :: ls, exec_cons.2 ⟨t, h, hls⟩⟩

theorem Reachable.refl (s : σ) : Reachable step s s := ⟨[], rfl⟩

theorem Reachable.trans (h : Reachable step s t) (h' : Reachable step t u) :
    Reachable step s u := by
  obtain ⟨ls, hls⟩ := h
  obtain ⟨ls', hls'⟩ := h'
  exact ⟨ls ++ ls', exec_append hls hls'⟩

/-- **The invariant rule.** What every step keeps holds at the end of every run. -/
theorem exec_invariant {I : σ → Prop} (hstep : ∀ s l s', I s → step s l = some s' → I s')
    (hs : I s) (h : exec step s ls = some t) : I t := by
  induction ls generalizing s with
  | nil =>
    obtain rfl := Option.some.inj h
    exact hs
  | cons l ls ih =>
    obtain ⟨s', hl, hls⟩ := exec_cons.1 h
    exact ih (hstep s l s' hs hl) hls

/-- **The invariant rule with positions.** What every step keeps, from its position in the run to
the next, holds at the end of the run. -/
theorem exec_invariant_at {I : ℕ → σ → Prop}
    (hstep : ∀ n l s s', ls[n]? = some l → I n s → step s l = some s' → I (n + 1) s')
    (hs : I 0 s) (h : exec step s ls = some t) : I ls.length t := by
  induction ls generalizing s I with
  | nil =>
    obtain rfl := Option.some.inj h
    exact hs
  | cons l ls ih =>
    obtain ⟨s', hl, hls⟩ := exec_cons.1 h
    exact ih (I := fun n ↦ I (n + 1)) (fun n ↦ hstep (n + 1)) (hstep 0 l s s' rfl hs hl) hls

/-- **The conditional invariant rule.** What the steps that meet a condition keep holds at the end
of every run whose steps all meet it. -/
theorem exec_invariant_of_always {P : σ → ι → Prop} {I : σ → Prop}
    (hstep : ∀ s l s', I s → P s l → step s l = some s' → I s') (hs : I s)
    (hP : Always step P s ls) (h : exec step s ls = some t) : I t := by
  induction ls generalizing s with
  | nil =>
    obtain rfl := Option.some.inj h
    exact hs
  | cons l ls ih =>
    obtain ⟨s', hl, hls⟩ := exec_cons.1 h
    exact ih (hstep s l s' hs hP.1 hl) (hP.2 s' hl) hls

/-- A condition on the labels alone. -/
theorem always_of_forall {P : ι → Prop} (h : ∀ l ∈ ls, P l) : Always step (fun _ ↦ P) s ls := by
  induction ls generalizing s with
  | nil => trivial
  | cons l ls ih =>
    obtain ⟨hl, hls⟩ := List.forall_mem_cons.1 h
    exact ⟨hl, fun _ _ ↦ ih hls⟩

/-- A condition along a run is one along each part of it. -/
theorem Always.left {P : σ → ι → Prop} (h : Always step P s (ls ++ ls')) :
    Always step P s ls := by
  induction ls generalizing s with
  | nil => trivial
  | cons l ls ih => exact ⟨h.1, fun s' hl ↦ ih (h.2 s' hl)⟩

/-- A condition along a run carries over to what it implies where an invariant holds. -/
theorem always_of_always {I : σ → Prop} {P Q : σ → ι → Prop}
    (hstep : ∀ s l s', I s → step s l = some s' → I s') (hs : I s)
    (h : ∀ s l, I s → P s l → Q s l) (hP : Always step P s ls) : Always step Q s ls := by
  induction ls generalizing s with
  | nil => trivial
  | cons l ls ih => exact ⟨h s l hs hP.1, fun s' hl ↦ ih (hstep s l s' hs hl) (hP.2 s' hl)⟩

/-- The same where the invariant is kept by the steps that meet a further condition. -/
theorem always_of_always₂ {I : σ → Prop} {C P Q : σ → ι → Prop}
    (hstep : ∀ s l s', I s → C s l → step s l = some s' → I s') (hs : I s)
    (h : ∀ s l, I s → C s l → P s l → Q s l) (hC : Always step C s ls)
    (hP : Always step P s ls) : Always step Q s ls := by
  induction ls generalizing s with
  | nil => trivial
  | cons l ls ih =>
    exact ⟨h s l hs hC.1 hP.1, fun s' hl ↦ ih (hstep s l s' hs hC.1 hl) (hC.2 s' hl) (hP.2 s' hl)⟩

/-- A condition along a run holds at each of its steps. -/
theorem Always.at_step {P : σ → ι → Prop} (h : Always step P s (ls ++ l :: ls'))
    (ht : exec step s ls = some t) : P t l := by
  induction ls generalizing s with
  | nil =>
    obtain rfl := Option.some.inj ht
    exact h.1
  | cons l ls ih =>
    obtain ⟨s', hl, hls⟩ := exec_cons.1 ht
    exact ih (h.2 s' hl) hls

/-- Two conditions that agree where an invariant holds agree along its runs. -/
theorem always_congr {I : σ → Prop} {P Q : σ → ι → Prop}
    (hstep : ∀ s l s', I s → step s l = some s' → I s') (hs : I s)
    (h : ∀ s l, I s → (P s l ↔ Q s l)) : Always step P s ls ↔ Always step Q s ls := by
  induction ls generalizing s with
  | nil => exact Iff.rfl
  | cons l ls ih =>
    exact and_congr (h s l hs) (forall₂_congr fun s' hl ↦ ih (hstep s l s' hs hl))

/-- Two conditions that agree on the steps that are enabled agree along every run that goes
through. -/
theorem always_congr_of_exec {P Q : σ → ι → Prop}
    (h : ∀ s l s', step s l = some s' → (P s l ↔ Q s l)) (hexec : exec step s ls = some t) :
    Always step P s ls ↔ Always step Q s ls := by
  induction ls generalizing s with
  | nil => exact Iff.rfl
  | cons l ls ih =>
    obtain ⟨s', hl, hls⟩ := exec_cons.1 hexec
    refine and_congr (h s l s' hl) (forall₂_congr fun s'' hl' ↦ ih ?_)
    obtain rfl := Option.some.inj (hl.symm.trans hl')
    exact hls

/-- **A condition fails somewhere in a run** exactly at one of its steps, and there is a first
one. -/
theorem exists_step_of_not_always {P : σ → ι → Prop} (h : exec step s ls = some t)
    (hP : ¬ Always step P s ls) : ∃ pre l post s₁ s₂, ls = pre ++ l :: post ∧
      exec step s pre = some s₁ ∧ ¬ P s₁ l ∧ step s₁ l = some s₂ ∧ exec step s₂ post = some t ∧
      Always step P s pre := by
  induction ls generalizing s with
  | nil => exact absurd trivial hP
  | cons l ls ih =>
    obtain ⟨s', hl, hls⟩ := exec_cons.1 h
    by_cases hl' : P s l
    · have hrest : ¬ Always step P s' ls := fun hrest ↦ hP ⟨hl', fun s'' hs'' ↦ by
        obtain rfl := Option.some.inj (hl.symm.trans hs'')
        exact hrest⟩
      obtain ⟨pre, l', post, s₁, s₂, rfl, hpre, hn, hl₁, hpost, hfirst⟩ := ih hls hrest
      refine ⟨l :: pre, l', post, s₁, s₂, rfl, exec_cons.2 ⟨s', hl, hpre⟩, hn, hl₁, hpost, hl',
        fun s'' hs'' ↦ ?_⟩
      obtain rfl := Option.some.inj (hl.symm.trans hs'')
      exact hfirst
    · exact ⟨[], l, ls, s, s', rfl, rfl, hl', hl, hls, trivial⟩

/-- **The rule for what a condition is exactly needed for.** An invariant that the steps meeting a
condition keep implies a property, and a step that does not meet it breaks the property: then the
property holds in every state of a run exactly where all its steps meet the condition. -/
theorem forall_prefix_iff_always {I G : σ → Prop} {P : σ → ι → Prop}
    (hstep : ∀ s l s', I s → P s l → step s l = some s' → I s') (hgood : ∀ s, I s → G s)
    (hbad : ∀ s l s', I s → ¬ P s l → step s l = some s' → ¬ G s') (hs : I s)
    (h : exec step s ls = some t) :
    (∀ pre u, pre <+: ls → exec step s pre = some u → G u) ↔ Always step P s ls := by
  constructor
  · intro hall
    by_contra hnot
    obtain ⟨pre, l, post, s₁, s₂, rfl, hpre, hP, hl, -, hfirst⟩ := exists_step_of_not_always h hnot
    refine hbad s₁ l s₂ (exec_invariant_of_always hstep hs hfirst hpre) hP hl
      (hall (pre ++ [l]) s₂ ⟨post, by simp⟩ ?_)
    exact exec_append hpre (exec_cons.2 ⟨s₂, hl, rfl⟩)
  · rintro hP pre u ⟨post, rfl⟩ hpre
    exact hgood u (exec_invariant_of_always hstep hs hP.left hpre)

/-! ### Simulations -/

section Map

variable {σ' ι' : Type*} {step' : σ' → ι' → Option σ'} {f : σ → σ'} {g : ι → ι'}

/-- **The simulation rule.** A map of states and labels that every step goes along with takes runs
to runs. -/
theorem exec_map (hstep : ∀ s l s', step s l = some s' → step' (f s) (g l) = some (f s'))
    (h : exec step s ls = some t) : exec step' (f s) (ls.map g) = some (f t) := by
  induction ls generalizing s with
  | nil =>
    obtain rfl := Option.some.inj h
    rfl
  | cons l ls ih =>
    obtain ⟨s', hl, hls⟩ := exec_cons.1 h
    exact exec_cons.2 ⟨f s', hstep s l s' hl, ih hls⟩

/-- A condition along the image of a run is one along the run. -/
theorem always_map {Q : σ' → ι' → Prop}
    (hstep : ∀ s l s', step s l = some s' → step' (f s) (g l) = some (f s'))
    (h : exec step s ls = some t) :
    Always step' Q (f s) (ls.map g) ↔ Always step (fun s l ↦ Q (f s) (g l)) s ls := by
  induction ls generalizing s with
  | nil => exact Iff.rfl
  | cons l ls ih =>
    obtain ⟨s', hl, hls⟩ := exec_cons.1 h
    refine and_congr Iff.rfl ⟨fun hrest s'' hs'' ↦ ?_, fun hrest s'' hs'' ↦ ?_⟩
    · obtain rfl := Option.some.inj (hl.symm.trans hs'')
      exact (ih hls).1 (hrest _ (hstep s l _ hl))
    · obtain rfl := Option.some.inj ((hstep s l s' hl).symm.trans hs'')
      exact (ih hls).2 (hrest s' hl)

end Map

end Run
