import Mathlib.Algebra.BigOperators.Group.List.Basic
import Mathlib.Algebra.Order.Ring.Nat
import Mathlib.Order.Basic

/-!
# The latest event before

A trace has positions, and a property of positions has, below each bound, a last one
(`LastBelow P n i`). Two positions that are last before one another bound a span: spans between
consecutive positions of a property do not overlap (`LastBelow.le_of_lt`), and none starts two of
them (`LastBelow.right_unique`). The whole units of time that such spans take are together at most
those that passed (`sum_div_le_of_pairwise`).

A cell that is written at some positions and cleared at others `Recalls` what the latest of them
wrote, if it holds anything; it `Remembers`, if it holds that whenever the latest of them wrote. A
write that can fail keeps the first and not the second.
-/

/-- What holds of the event at a position. -/
theorem exists_at_iff {ε : Type*} {es : List ε} {e : ε} {n : ℕ} {P : ε → Prop}
    (h : es[n]? = some e) : (∃ e ∈ es[n]?, P e) ↔ P e := by
  rw [h]
  exact ⟨fun ⟨_, he, hP⟩ ↦ Option.some.inj he ▸ hP, fun hP ↦ ⟨e, rfl, hP⟩⟩

/-- **The last position below `n` with a property.** -/
structure LastBelow (P : ℕ → Prop) (n i : ℕ) : Prop where
  lt : i < n
  holds : P i
  last : ∀ k, i < k → k < n → ¬ P k

namespace LastBelow

variable {P Q : ℕ → Prop} {m n i j : ℕ}

/-- The position that the bound passes. -/
theorem self (h : P n) : LastBelow P (n + 1) n :=
  ⟨Nat.lt_succ_self n, h, fun _ hk hkn ↦ absurd (Nat.le_of_lt_succ hkn) (Nat.not_le.2 hk)⟩

/-- The bound passes a position without the property. -/
theorem succ (h : LastBelow P n i) (hn : ¬ P n) : LastBelow P (n + 1) i where
  lt := Nat.lt_succ_of_lt h.lt
  holds := h.holds
  last k hk hkn hP := by
    obtain hlt | rfl := Nat.lt_succ_iff_lt_or_eq.1 hkn
    · exact h.last k hk hlt hP
    · exact hn hP

/-- What the bound passed. -/
theorem of_succ (h : LastBelow P (n + 1) i) : (P n ∧ i = n) ∨ (¬ P n ∧ LastBelow P n i) := by
  obtain hlt | rfl := Nat.lt_succ_iff_lt_or_eq.1 h.lt
  · have hn : ¬ P n := h.last n hlt (Nat.lt_succ_self n)
    exact .inr ⟨hn, hlt, h.holds, fun k hk hkn ↦ h.last k hk (Nat.lt_succ_of_lt hkn)⟩
  · exact .inl ⟨h.holds, rfl⟩

/-- There is only one. -/
theorem unique (h : LastBelow P n i) (h' : LastBelow P n j) : i = j := by
  by_contra hne
  obtain hlt | hlt := Nat.lt_or_gt_of_ne hne
  · exact h.last j hlt h'.lt h'.holds
  · exact h'.last i hlt h.lt h.holds

/-- A narrower property that the position has. -/
theorem of_imp (h : LastBelow P n i) (hi : Q i) (hQ : ∀ k, Q k → P k) : LastBelow Q n i :=
  ⟨h.lt, hi, fun k hk hkn hq ↦ h.last k hk hkn (hQ k hq)⟩

/-- **Spans do not overlap**: the later of two starts where the earlier one stops, or after. -/
theorem le_of_lt (hn : P n) (h' : LastBelow P m j) (hlt : n < m) : n ≤ j :=
  Nat.le_of_not_lt fun hjn ↦ h'.last n hjn hlt hn

/-- **A position starts one span at most.** -/
theorem right_unique (h : LastBelow P n i) (h' : LastBelow P m i) (hn : P n) (hm : P m) :
    n = m := by
  by_contra hne
  obtain hlt | hlt := Nat.lt_or_gt_of_ne hne
  · exact absurd (h'.le_of_lt hn hlt) (Nat.not_le.2 h.lt)
  · exact absurd (h.le_of_lt hm hlt) (Nat.not_le.2 h'.lt)

end LastBelow

/-- **What spans that do not overlap take together** is at most what passed, in whole units. -/
theorem sum_div_le_of_pairwise {spans : List (ℕ × ℕ)} {a b : ℕ} (d : ℕ)
    (hspans : spans.Pairwise fun x y ↦ x.2 ≤ y.1)
    (hle : ∀ x ∈ spans, a ≤ x.1 ∧ x.1 ≤ x.2 ∧ x.2 ≤ b) :
    (spans.map fun x ↦ (x.2 - x.1) / d).sum ≤ (b - a) / d := by
  induction spans generalizing a with
  | nil => exact Nat.zero_le _
  | cons x spans ih =>
    obtain ⟨hx, hspans⟩ := List.pairwise_cons.1 hspans
    obtain ⟨⟨hax, hxx, hxb⟩, hle⟩ := List.forall_mem_cons.1 hle
    have hrest := ih hspans fun y hy ↦ ⟨hx y hy, (hle y hy).2⟩
    calc ((x :: spans).map fun x ↦ (x.2 - x.1) / d).sum
        = (x.2 - x.1) / d + (spans.map fun x ↦ (x.2 - x.1) / d).sum := by
          rw [List.map_cons, List.sum_cons]
      _ ≤ (x.2 - x.1) / d + (b - x.2) / d := Nat.add_le_add_left hrest _
      _ ≤ (x.2 - x.1 + (b - x.2)) / d := Nat.div_add_div_le_add_div
      _ ≤ (b - a) / d := Nat.div_le_div_right (by omega)

/-! ### Cells -/

section Cell

variable {α : Type*} {P O : ℕ → Prop} {val : ℕ → α} {n : ℕ} {c : Option α}

/-- What the cell holds is what the latest position that touches it wrote. -/
def Recalls (P O : ℕ → Prop) (val : ℕ → α) (n : ℕ) (c : Option α) : Prop :=
  ∀ t, c = some t → ∃ i, LastBelow P n i ∧ O i ∧ val i = t

/-- Where the latest position that touches the cell wrote, the cell holds what it wrote. -/
def Remembers (P O : ℕ → Prop) (val : ℕ → α) (n : ℕ) (c : Option α) : Prop :=
  ∀ i, LastBelow P n i → O i → c = some (val i)

theorem recalls_none : Recalls P O val n none := nofun

theorem remembers_zero : Remembers P O val 0 c := fun i hi ↦ absurd hi.lt (Nat.not_lt_zero i)

/-- Nothing touches the cell. -/
theorem Recalls.keep (h : Recalls P O val n c) (hn : ¬ P n) : Recalls P O val (n + 1) c := by
  intro t ht
  obtain ⟨i, hi, hO, hval⟩ := h t ht
  exact ⟨i, hi.succ hn, hO, hval⟩

/-- The cell is written. -/
theorem recalls_put {t : α} (hP : P n) (hO : O n) (ht : val n = t) :
    Recalls P O val (n + 1) (some t) := by
  rintro _ ⟨⟩
  exact ⟨n, .self hP, hO, ht⟩

theorem Remembers.keep (h : Remembers P O val n c) (hn : ¬ P n) :
    Remembers P O val (n + 1) c := by
  intro i hi hO
  obtain ⟨hP, -⟩ | ⟨-, hi⟩ := hi.of_succ
  · exact absurd hP hn
  · exact h i hi hO

theorem remembers_put {t : α} (hP : P n) (ht : val n = t) :
    Remembers P O val (n + 1) (some t) := by
  intro i hi _
  obtain rfl := hi.unique (.self hP)
  rw [ht]

/-- The cell is cleared. -/
theorem remembers_clear (hP : P n) (hO : ¬ O n) : Remembers P O val (n + 1) c := by
  intro i hi hOi
  obtain rfl := hi.unique (.self hP)
  exact absurd hOi hO

end Cell
