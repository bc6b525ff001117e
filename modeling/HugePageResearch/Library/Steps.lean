import Mathlib.Data.List.TakeWhile
import Mathlib.Data.List.Pairwise
import Mathlib.Order.Lattice

/-!
# The latest of a sorted list

A list that is sorted by a time is a step function: at each time it has the last of the elements
that are not later (`lastAt`). That element is a latest one of them (`lastAt_eq_some`), whatever the
order of elements of one time is, and at a later time it is the same one or one that is strictly
later (`lastAt_mono`).
-/

namespace Steps

variable {α κ : Type*} [LinearOrder κ]

/-- **The last element at or before a time.** -/
def lastAt (time : α → κ) (l : List α) (t : κ) : Option α :=
  (l.takeWhile fun a ↦ time a ≤ t).getLast?

variable {time : α → κ} {l : List α} {t t' : κ} {a b : α}

/-- The elements at or before a time come first. -/
theorem mem_takeWhile_iff (hl : l.Pairwise fun a b ↦ time a ≤ time b) :
    a ∈ l.takeWhile (fun a ↦ time a ≤ t) ↔ a ∈ l ∧ time a ≤ t := by
  refine ⟨fun h ↦ ⟨(List.takeWhile_sublist _).subset h, by
    simpa using List.mem_takeWhile_imp h⟩, ?_⟩
  rintro ⟨ha, hle⟩
  induction l with
  | nil => exact ha
  | cons b l ih =>
    obtain ⟨hb, hl⟩ := List.pairwise_cons.1 hl
    have hble : time b ≤ t := by
      rcases List.mem_cons.1 ha with rfl | ha
      · exact hle
      · exact (hb a ha).trans hle
    rw [List.takeWhile_cons_of_pos (by simpa using hble)]
    rcases List.mem_cons.1 ha with rfl | ha
    · exact List.mem_cons_self
    · exact List.mem_cons_of_mem _ (ih hl ha)

/-- There is none where every element is later. -/
theorem lastAt_eq_none (hl : l.Pairwise fun a b ↦ time a ≤ time b) :
    lastAt time l t = none ↔ ∀ a ∈ l, t < time a := by
  rw [lastAt, List.getLast?_eq_none_iff, List.eq_nil_iff_forall_not_mem]
  refine forall_congr' fun a ↦ ?_
  rw [mem_takeWhile_iff hl, not_and, not_le]

/-- The last of a sorted list is a latest one. -/
theorem le_of_getLast? (hl : l.Pairwise fun a b ↦ time a ≤ time b) (h : l.getLast? = some a)
    (hb : b ∈ l) : time b ≤ time a := by
  obtain ⟨init, rfl⟩ := List.getLast?_eq_some_iff.1 h
  rcases List.mem_append.1 hb with hb | hb
  · exact (List.pairwise_append.1 hl).2.2 b hb a (List.mem_singleton_self a)
  · rw [List.mem_singleton.1 hb]

/-- The first of a sorted list is an earliest one. -/
theorem le_of_head? (hl : l.Pairwise fun a b ↦ time a ≤ time b) (h : l.head? = some a)
    (hb : b ∈ l) : time a ≤ time b := by
  obtain ⟨rest, rfl⟩ := List.head?_eq_some_iff.1 h
  rcases List.mem_cons.1 hb with rfl | hb
  · exact le_rfl
  · exact (List.pairwise_cons.1 hl).1 b hb

/-- **It is a latest one** of those that are not later. -/
theorem lastAt_eq_some (hl : l.Pairwise fun a b ↦ time a ≤ time b)
    (h : lastAt time l t = some a) :
    a ∈ l ∧ time a ≤ t ∧ ∀ b ∈ l, time b ≤ t → time b ≤ time a := by
  obtain ⟨ha, hle⟩ := (mem_takeWhile_iff hl).1 (List.mem_of_getLast? h)
  have hsorted := hl.sublist (List.takeWhile_sublist fun a ↦ decide (time a ≤ t))
  exact ⟨ha, hle, fun b hb hbt ↦ le_of_getLast? hsorted h ((mem_takeWhile_iff hl).2 ⟨hb, hbt⟩)⟩

/-- **Later**, it is the same or a strictly later one. -/
theorem lastAt_mono (hl : l.Pairwise fun a b ↦ time a ≤ time b) (hle : t ≤ t')
    (h : lastAt time l t = some a) :
    ∃ b, lastAt time l t' = some b ∧ (b = a ∨ time a < time b) := by
  obtain ⟨ha, hat, -⟩ := lastAt_eq_some hl h
  cases h' : lastAt time l t' with
  | none =>
    have hlt : t' < time a := (lastAt_eq_none hl).1 h' a ha
    exact absurd (hat.trans hle) (not_le.2 hlt)
  | some b =>
    obtain ⟨-, -, hmax⟩ := lastAt_eq_some hl h'
    refine ⟨b, rfl, ?_⟩
    by_cases hbt : time b ≤ t
    · -- nothing was passed between the two times
      have hsame : (l.takeWhile fun a ↦ time a ≤ t') = l.takeWhile fun a ↦ time a ≤ t := by
        have hall : ∀ c ∈ l.takeWhile (fun a ↦ time a ≤ t'), decide (time c ≤ t) = true := by
          intro c hc
          obtain ⟨hcl, hct⟩ := (mem_takeWhile_iff hl).1 hc
          exact decide_eq_true ((hmax c hcl hct).trans hbt)
        have hboth : (fun a ↦ decide (decide (time a ≤ t) = true ∧ decide (time a ≤ t') = true)) =
            fun a ↦ decide (time a ≤ t) := by
          funext c
          simpa using fun hct : time c ≤ t ↦ hct.trans hle
        rw [← List.takeWhile_eq_self_iff.2 hall, List.takeWhile_takeWhile, hboth]
      rw [lastAt, hsame] at h'
      exact .inl (Option.some.inj (h'.symm.trans h))
    · exact .inr (hat.trans_lt (not_le.1 hbt))

end Steps
