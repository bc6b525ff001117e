import Mathlib.Data.List.Nodup
import Mathlib.Data.List.Infix

/-!
# The first distinct elements

`firstDistinct n l`: the first `n` of the distinct elements of a list, in the order in which they
first occur. It is what a loop has collected that appends an element if it has not been seen and if
there is room (`firstDistinct_concat`), whether or not the loop ends when there is no more room
(`firstDistinct_append_of_full`). What comes first stays first (`firstDistinct_append_left`).
-/

namespace FirstDistinct

variable {α : Type*} [DecidableEq α] {n : ℕ} {l l' : List α} {a : α}

/-- The first `n` distinct elements. -/
def firstDistinct (n : ℕ) (l : List α) : List α := l.eraseDups.take n

@[simp] theorem firstDistinct_nil : firstDistinct n ([] : List α) = [] := List.take_nil

theorem length_firstDistinct_le : (firstDistinct n l).length ≤ n := List.length_take_le n _

theorem mem_of_mem_firstDistinct (h : a ∈ firstDistinct n l) : a ∈ l :=
  List.mem_eraseDups.1 (List.mem_of_mem_take h)

/-- One more element. -/
theorem eraseDups_concat (l : List α) (a : α) :
    (l ++ [a]).eraseDups = if a ∈ l then l.eraseDups else l.eraseDups ++ [a] := by
  rw [List.eraseDups_append, List.removeAll]
  split_ifs with ha
  · rw [List.filter_cons_of_neg (by simpa using ha), List.filter_nil, List.eraseDups_nil,
      List.append_nil]
  · rw [List.filter_cons_of_pos (by simpa using ha), List.filter_nil]
    rfl

theorem nodup_eraseDups (l : List α) : l.eraseDups.Nodup := by
  induction l using List.reverseRecOn with
  | nil => exact List.nodup_nil
  | append_singleton l a ih =>
    rw [eraseDups_concat]
    split_ifs with ha
    · exact ih
    · refine List.nodup_append.2 ⟨ih, List.nodup_singleton a, fun b hb c hc heq ↦ ?_⟩
      rw [List.mem_singleton.1 hc] at heq
      exact ha (heq ▸ List.mem_eraseDups.1 hb)

theorem nodup_firstDistinct : (firstDistinct n l).Nodup :=
  (nodup_eraseDups l).sublist (List.take_sublist n _)

/-- With room left, nothing has been left out. -/
theorem firstDistinct_of_room (h : (firstDistinct n l).length < n) :
    firstDistinct n l = l.eraseDups := by
  rw [firstDistinct, List.length_take] at h
  exact List.take_of_length_le (by omega)

/-- **One more element** is appended if it is new and there is room. -/
theorem firstDistinct_concat (n : ℕ) (l : List α) (a : α) :
    firstDistinct n (l ++ [a]) =
      if a ∉ firstDistinct n l ∧ (firstDistinct n l).length < n then firstDistinct n l ++ [a]
      else firstDistinct n l := by
  rcases lt_or_ge (firstDistinct n l).length n with hroom | hfull
  · have hall := firstDistinct_of_room hroom
    rw [hall] at hroom ⊢
    rw [firstDistinct, eraseDups_concat]
    split_ifs with ha hadd hadd
    · exact absurd (List.mem_eraseDups.2 ha) hadd.1
    · exact List.take_of_length_le hroom.le
    · refine List.take_of_length_le ?_
      rw [List.length_append]
      exact hroom
    · exact absurd ⟨fun h ↦ ha (List.mem_eraseDups.1 h), hroom⟩ hadd
  · rw [if_neg fun h ↦ h.2.not_ge hfull, firstDistinct, eraseDups_concat]
    have hlength : n ≤ l.eraseDups.length := by
      rw [firstDistinct, List.length_take] at hfull
      omega
    split_ifs
    · rfl
    · exact List.take_append_of_le_length hlength

/-- **What comes first stays first.** -/
theorem firstDistinct_append_left (n : ℕ) (l l' : List α) :
    firstDistinct n l <+: firstDistinct n (l ++ l') := by
  rw [firstDistinct, firstDistinct, List.eraseDups_append]
  exact (List.prefix_append _ _).take n

/-- **Without room** nothing more is collected. -/
theorem firstDistinct_append_of_full (h : n ≤ (firstDistinct n l).length) (l' : List α) :
    firstDistinct n (l ++ l') = firstDistinct n l :=
  ((firstDistinct_append_left n l l').eq_of_length_le (length_firstDistinct_le.trans h)).symm

end FirstDistinct
