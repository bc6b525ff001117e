import HugePageResearch.Library.Script

/-!
# Scripts and the world outside

The calls of a script change a world that also moves by itself. The script sees the answers only, so
that what it can know after a history is what holds in every world that the history can lead to:
`Certain`. A call carries it on (`Certain.answered`), if the world cannot undo it by itself
(`Stable`). With `Certain` in the place of the condition on a call, `Meets` is about the worlds that
the calls are made in.
-/

namespace Script

variable {Cmd : Type} {Ans : Cmd → Type} {W : Type}

/-- A world: where it begins, how it moves by itself, and how a call with its answer changes it. -/
structure Outside (Cmd : Type) (Ans : Cmd → Type) (W : Type) where
  /-- The worlds that a program may begin in. -/
  Starts : W → Prop
  /-- A step of the world by itself. -/
  Moves : W → W → Prop
  /-- A call that is answered. -/
  Answers : W → Event Cmd Ans → W → Prop

namespace Outside

variable {O : Outside Cmd Ans W}

/-- The worlds that a history can lead to, whatever the world does between the calls. -/
inductive Reaches (O : Outside Cmd Ans W) : History Cmd Ans → W → Prop where
  /-- The program begins. -/
  | start {w : W} (hw : O.Starts w) : O.Reaches [] w
  /-- The world moves by itself. -/
  | move {h : History Cmd Ans} {w w' : W} (hw : O.Reaches h w) (hm : O.Moves w w') : O.Reaches h w'
  /-- A call is answered. -/
  | answer {h : History Cmd Ans} {w w' : W} {e : Event Cmd Ans} (hw : O.Reaches h w)
      (he : O.Answers w e w') : O.Reaches (h ++ [e]) w'

/-- **What is certain after a history**: it holds in every world that the history can lead to. -/
def Certain (O : Outside Cmd Ans W) (P : W → Prop) (h : History Cmd Ans) : Prop :=
  ∀ w, O.Reaches h w → P w

/-- The world does not undo `P` by itself. -/
def Stable (O : Outside Cmd Ans W) (P : W → Prop) : Prop := ∀ w w', P w → O.Moves w w' → P w'

variable {P P' : W → Prop} {h : History Cmd Ans} {e : Event Cmd Ans}

theorem Certain.mono (hc : O.Certain P h) (hP : ∀ w, P w → P' w) : O.Certain P' h := fun w hw ↦
  hP w (hc w hw)

theorem Certain.and (hc : O.Certain P h) (hc' : O.Certain P' h) :
    O.Certain (fun w ↦ P w ∧ P' w) h := fun w hw ↦ ⟨hc w hw, hc' w hw⟩

theorem certain_nil (hstart : ∀ w, O.Starts w → P w) (hP : O.Stable P) : O.Certain P [] := by
  intro w hw
  generalize hh : ([] : History Cmd Ans) = h at hw
  induction hw with
  | start hw => exact hstart _ hw
  | move hw hm ih => exact hP _ _ (ih hh) hm
  | answer hw he =>
    exact absurd hh.symm (List.append_ne_nil_of_right_ne_nil _ (List.cons_ne_nil _ _))

/-- **A call carries certainty on**: what follows from what was certain and from the answer is
certain, if the world does not undo it. -/
theorem Certain.answered (hc : O.Certain P h) (he : ∀ w w', P w → O.Answers w e w' → P' w')
    (hP' : O.Stable P') : O.Certain P' (h ++ [e]) := by
  intro w hw
  generalize hh : h ++ [e] = h' at hw
  induction hw with
  | start hw => exact absurd hh (List.append_ne_nil_of_right_ne_nil _ (List.cons_ne_nil _ _))
  | move hw hm ih => exact hP' _ _ (ih hh) hm
  | answer hw hans =>
    obtain ⟨rfl, hlast⟩ := List.append_inj' hh rfl
    rw [← (List.cons.inj hlast).1] at hans
    exact he _ _ (hc _ hw) hans

/-! ### A world that answers by rule -/

/-- **A world that answers by rule** is one that the history of a run can lead to. -/
theorem reaches_run {ε α : Type} {s : Script Cmd Ans ε α} {answer : W → (c : Cmd) → Ans c}
    {after : W → Event Cmd Ans → W}
    (hrule : ∀ h w c, O.Reaches h w →
      O.Reaches (h ++ [⟨c, answer w c⟩]) (after w ⟨c, answer w c⟩)) {w₀ : W}
    (h : History Cmd Ans) (hw : O.Reaches h (h.foldl after w₀)) :
    O.Reaches (s.run (fun h c ↦ answer (h.foldl after w₀) c) h).1
      ((s.run (fun h c ↦ answer (h.foldl after w₀) c) h).1.foldl after w₀) := by
  induction s generalizing h with
  | ret a => exact hw
  | raise e => exact hw
  | call c next ih =>
    refine ih _ _ ?_
    rw [List.foldl_append]
    exact hrule h _ c hw

end Outside

end Script
