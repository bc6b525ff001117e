import Mathlib.Algebra.Order.BigOperators.Group.List
import Mathlib.Algebra.Order.Field.Basic
import Mathlib.Order.Interval.Set.Defs
import Mathlib.Order.Lattice

/-!
# Choosing a key by weight

A list of keys with weights is walked with the running sum of the weights, up to the first key at
which the sum reaches a number. For a number drawn from `[0, 1)` and scaled by the total, every key
should be reached from a share of the draws that is its share of the weight.

## The result

`isIntervalOf_draws`: where the keys are distinct and no weight is negative, the draws that reach a
key form an interval, whose end points differ by the weight of the key over the total weight. Every
draw reaches one key (`existsUnique_mem_draws`), and a positive draw one of positive weight
(`weight_pos_of_mem_draws`).

The comparison is not strict, so that the upper end point belongs to the interval of a key and the
lower one to that of a key before it. The draw 0 reaches the first key, whatever its weight.
-/

namespace Weighted

variable {α K : Type*}

/-- **An interval with the end points** `lo` and `hi`, each of which may belong to it or not. -/
structure IsIntervalOf [Preorder K] (lo hi : K) (s : Set K) : Prop where
  le : lo ≤ hi
  ioo_subset : Set.Ioo lo hi ⊆ s
  subset_icc : s ⊆ Set.Icc lo hi

variable [Field K] [LinearOrder K]

/-! ### The walk -/

section Walk

/-- The first key at which the running sum reaches `pick`. -/
def reach (pick : K) : K → List (α × K) → Option α
  | _, [] => none
  | run, (a, w) :: l => if pick ≤ run + w then some a else reach pick (run + w) l

variable [DecidableEq α]

/-- The weight of a key, which is 0 for a key that is not in the list. -/
def weight (a : α) : List (α × K) → K
  | [] => 0
  | (b, w) :: l => if b = a then w else weight a l

/-- The sum of the weights before a key. -/
def before (a : α) : List (α × K) → K
  | [] => 0
  | (b, w) :: l => if b = a then 0 else w + before a l

omit [LinearOrder K] in
/-- The weights after some keys are dropped and the others' weights are changed. -/
theorem weight_map_filter {p : α → Bool} {f : K → K} (hf : f 0 = 0) (a : α) (l : List (α × K)) :
    weight a ((l.filter fun e ↦ p e.1).map fun e ↦ (e.1, f e.2)) =
      if p a then f (weight a l) else 0 := by
  induction l with
  | nil =>
    show (0 : K) = if p a then f 0 else 0
    rw [hf, ite_self]
  | cons e l ih =>
    obtain ⟨b, w⟩ := e
    by_cases hp : p b
    · have hcons : ((b, w) :: l).filter (fun e ↦ p e.1) = (b, w) :: l.filter fun e ↦ p e.1 :=
        List.filter_cons_of_pos hp
      rw [hcons, List.map_cons, weight, weight]
      split_ifs with heq hpa hpa
      · rfl
      · exact absurd (heq ▸ hp) hpa
      · rw [ih, if_pos hpa]
      · rw [ih, if_neg hpa]
    · have hcons : ((b, w) :: l).filter (fun e ↦ p e.1) = l.filter fun e ↦ p e.1 :=
        List.filter_cons_of_neg hp
      rw [hcons, ih, weight]
      split_ifs with hpa heq
      · exact absurd (heq ▸ hpa) hp
      · rfl
      · rfl

variable {pick run : K} {a : α} {l : List (α × K)}

omit [DecidableEq α] in
theorem mem_of_reach (h : reach pick run l = some a) : a ∈ l.map Prod.fst := by
  induction l generalizing run with
  | nil => exact absurd h (Option.some_ne_none a).symm
  | cons e l ih =>
    rw [reach] at h
    split_ifs at h
    · exact List.mem_cons.2 (Or.inl (Option.some.inj h).symm)
    · exact List.mem_cons_of_mem _ (ih h)

omit [DecidableEq α] in
/-- **What the walk finds at the first key**: it is the one, or it is another and passed. -/
theorem reach_cons_cases {b : α} {w : K} (hnodup : (((b, w) :: l).map Prod.fst).Nodup)
    (h : reach pick run ((b, w) :: l) = some a) :
    b = a ∧ pick ≤ run + w ∨ b ≠ a ∧ run + w < pick ∧ reach pick (run + w) l = some a := by
  rw [reach] at h
  split_ifs at h with hle
  · exact Or.inl ⟨Option.some.inj h, hle⟩
  · have hnot := (List.nodup_cons.1 hnodup).1
    exact Or.inr ⟨fun heq ↦ hnot (heq ▸ mem_of_reach h), not_le.1 hle, h⟩

/-- **The sum before a key that is reached is below the number**, which the sum with it is not. -/
theorem before_lt_and_le_of_reach (hnodup : (l.map Prod.fst).Nodup) (hrun : run < pick)
    (h : reach pick run l = some a) :
    run + before a l < pick ∧ pick ≤ run + before a l + weight a l := by
  induction l generalizing run with
  | nil => exact absurd h (Option.some_ne_none a).symm
  | cons e l ih =>
    rw [before, weight]
    rcases reach_cons_cases hnodup h with ⟨heq, hle⟩ | ⟨hne, hlt, htail⟩
    · rw [if_pos heq, if_pos heq, add_zero]
      exact ⟨hrun, hle⟩
    · rw [if_neg hne, if_neg hne, ← add_assoc]
      exact ih (List.nodup_cons.1 hnodup).2 hlt htail

/-- The same for a number that the sum may already be at. -/
theorem before_le_and_le_of_reach (hnodup : (l.map Prod.fst).Nodup) (hrun : run ≤ pick)
    (h : reach pick run l = some a) :
    run + before a l ≤ pick ∧ pick ≤ run + before a l + weight a l := by
  rcases l with - | ⟨e, l⟩
  · exact absurd h (Option.some_ne_none a).symm
  · rw [before, weight]
    rcases reach_cons_cases hnodup h with ⟨heq, hle⟩ | ⟨hne, hlt, htail⟩
    · rw [if_pos heq, if_pos heq, add_zero]
      exact ⟨hrun, hle⟩
    · rw [if_neg hne, if_neg hne, ← add_assoc]
      have ⟨hbefore, hle⟩ := before_lt_and_le_of_reach (List.nodup_cons.1 hnodup).2 hlt htail
      exact ⟨hbefore.le, hle⟩

variable [IsStrictOrderedRing K]

theorem before_nonneg (hl : ∀ e ∈ l, 0 ≤ e.2) : 0 ≤ before a l := by
  induction l with
  | nil => exact le_rfl
  | cons e l ih =>
    obtain ⟨he, hl⟩ := List.forall_mem_cons.1 hl
    rw [before]
    split_ifs
    · exact le_rfl
    · exact add_nonneg he (ih hl)

omit [IsStrictOrderedRing K] in
theorem weight_nonneg (hl : ∀ e ∈ l, 0 ≤ e.2) : 0 ≤ weight a l := by
  induction l with
  | nil => exact le_rfl
  | cons e l ih =>
    obtain ⟨he, hl⟩ := List.forall_mem_cons.1 hl
    rw [weight]
    split_ifs
    · exact he
    · exact ih hl

/-- The sum with a key is not above the total. -/
theorem before_add_weight_le (hl : ∀ e ∈ l, 0 ≤ e.2) :
    before a l + weight a l ≤ (l.map Prod.snd).sum := by
  induction l with
  | nil => exact (add_zero (0 : K)).le
  | cons e l ih =>
    obtain ⟨-, hl⟩ := List.forall_mem_cons.1 hl
    rw [before, weight, List.map_cons, List.sum_cons]
    split_ifs
    · rw [zero_add]
      refine le_add_of_nonneg_right (List.sum_nonneg fun w hw ↦ ?_)
      obtain ⟨e', he', rfl⟩ := List.mem_map.1 hw
      exact hl e' he'
    · rw [add_assoc]
      exact add_le_add_right (ih hl) _

/-- **A key is reached** by a number above the sum before it and not above the sum with it. -/
theorem reach_eq_some (hl : ∀ e ∈ l, 0 ≤ e.2) (hlt : run + before a l < pick)
    (hle : pick ≤ run + before a l + weight a l) : reach pick run l = some a := by
  induction l generalizing run with
  | nil =>
    rw [before, weight, add_zero, add_zero] at *
    exact absurd hle hlt.not_ge
  | cons e l ih =>
    obtain ⟨b, w⟩ := e
    obtain ⟨-, hl⟩ := List.forall_mem_cons.1 hl
    rw [before] at hlt hle
    rw [weight] at hle
    rw [reach]
    split_ifs at hlt hle with heq
    · rw [add_zero] at hle
      rw [if_pos hle, heq]
    · rw [← add_assoc] at hlt hle
      have hpast : run + w < pick := (le_add_of_nonneg_right (before_nonneg hl)).trans_lt hlt
      rw [if_neg hpast.not_ge]
      exact ih hl hlt hle

omit [DecidableEq α] [IsStrictOrderedRing K] in
/-- **The total is reached.** -/
theorem exists_reach (hl : l ≠ []) (hle : pick ≤ run + (l.map Prod.snd).sum) :
    ∃ a, reach pick run l = some a := by
  induction l generalizing run with
  | nil => exact absurd rfl hl
  | cons e l ih =>
    obtain ⟨b, w⟩ := e
    rw [reach]
    split_ifs with hw
    · exact ⟨b, rfl⟩
    · rw [List.map_cons, List.sum_cons, ← add_assoc] at hle
      refine ih (fun hnil ↦ hw ?_) hle
      rwa [hnil, List.map_nil, List.sum_nil, add_zero] at hle

end Walk

/-! ### Draws -/

section Draws

/-- The total weight. -/
def total (l : List (α × K)) : K := (l.map Prod.snd).sum

/-- The draws that reach a key. -/
def draws (l : List (α × K)) (a : α) : Set K :=
  {u | u ∈ Set.Ico 0 1 ∧ reach (u * total l) 0 l = some a}

variable {l : List (α × K)} {a : α} {u : K}

variable [IsStrictOrderedRing K]

/-- **Every draw reaches a key**, and only one. -/
theorem existsUnique_mem_draws (hpos : 0 < total l) (hu : u ∈ Set.Ico 0 1) :
    ∃! a, u ∈ draws l a := by
  have hl : l ≠ [] := fun hnil ↦ hpos.ne (by rw [hnil]; rfl)
  have hle : u * total l ≤ 0 + total l := by
    rw [zero_add]
    exact mul_le_of_le_one_left hpos.le hu.2.le
  obtain ⟨a, ha⟩ := exists_reach hl hle
  exact ⟨a, ⟨hu, ha⟩, fun b hb ↦ Option.some.inj (hb.2.symm.trans ha)⟩

variable [DecidableEq α] (hnodup : (l.map Prod.fst).Nodup) (hpos : 0 < total l)

include hnodup hpos

/-- **A positive draw reaches a key of positive weight.** -/
theorem weight_pos_of_mem_draws (h : u ∈ draws l a) (hu : 0 < u) : 0 < weight a l := by
  have ⟨hlt, hle⟩ := before_lt_and_le_of_reach hnodup (mul_pos hu hpos) h.2
  exact pos_of_lt_add_right (hlt.trans_le hle)

/-- **The draws that reach a key form an interval**, whose end points differ by the share of its
weight. -/
theorem isIntervalOf_draws (hl : ∀ e ∈ l, 0 ≤ e.2) :
    IsIntervalOf (before a l / total l) (before a l / total l + weight a l / total l)
      (draws l a) where
  le := le_add_of_nonneg_right (div_nonneg (weight_nonneg hl) hpos.le)
  ioo_subset u hu := by
    have hlt := (div_lt_iff₀ hpos).1 hu.1
    have hlt' := hu.2
    rw [← add_div, lt_div_iff₀ hpos] at hlt'
    have hzero : 0 ≤ before a l / total l := div_nonneg (before_nonneg hl) hpos.le
    refine ⟨⟨hzero.trans hu.1.le, ?_⟩, reach_eq_some hl ?_ ?_⟩
    · exact (mul_lt_iff_lt_one_left hpos).1 (hlt'.trans_le (before_add_weight_le hl))
    · rwa [zero_add]
    · rw [zero_add]
      exact hlt'.le
  subset_icc u hu := by
    have ⟨hbefore, hge⟩ := before_le_and_le_of_reach hnodup (mul_nonneg hu.1.1 hpos.le) hu.2
    rw [zero_add] at hbefore hge
    refine ⟨(div_le_iff₀ hpos).2 hbefore, ?_⟩
    rw [← add_div]
    exact (le_div_iff₀ hpos).2 hge

end Draws

end Weighted
