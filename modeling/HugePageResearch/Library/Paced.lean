import Mathlib.Data.List.Chain
import Mathlib.Order.Basic

/-!
# Times that keep a distance

A process that notes the time of its last event and lets the next one happen only a gap later:
`Paced gap a ts b` when it does so from the noted time `a` on, at the times `ts`, and then has noted
`b`. What it does in a row is paced again (`Paced.append`), and consecutive events are a gap apart
(`Paced.isChain`).
-/

variable {α : Type*} [Sub α] [LE α] {gap a b c : α} {ts ts' : List α}

/-- Events at the given times, each a gap after the time noted before it. -/
def Paced (gap : α) : α → List α → α → Prop
  | a, [], b => b = a
  | a, t :: ts, b => gap ≤ t - a ∧ Paced gap t ts b

namespace Paced

theorem nil : Paced gap a [] a := rfl

theorem single (h : gap ≤ b - a) : Paced gap a [b] b := ⟨h, rfl⟩

theorem append (h : Paced gap a ts b) (h' : Paced gap b ts' c) : Paced gap a (ts ++ ts') c := by
  induction ts generalizing a with
  | nil =>
    obtain rfl : b = a := h
    exact h'
  | cons t ts ih => exact ⟨h.1, ih h.2⟩

/-- **Consecutive events are a gap apart.** -/
theorem isChain (h : Paced gap a ts b) : ts.IsChain fun x y ↦ gap ≤ y - x := by
  induction ts generalizing a with
  | nil => exact .nil
  | cons t ts ih =>
    have ht := ih h.2
    cases ts with
    | nil => exact .singleton t
    | cons t' ts => exact .cons_cons h.2.1 ht

end Paced
