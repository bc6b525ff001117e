import Mathlib.Data.List.Nodup
import Mathlib.Data.List.Sort

/-!
# Sorting by an integer

`SortBy key` is a sort that need not be stable: a permutation of the list, in the order of a key.
What does not depend on the order of equal keys is stated of any of them (`SortBy.head_le`,
`sort_eq_of_perm`), and `exists_sortBy` gives one that puts either of two entries first where their
keys allow it.
-/

namespace Sorts

variable {α : Type*} {a b : α} {l : List α}

/-- A sort by an integer. -/
structure SortBy (key : α → ℤ) where
  sort : List α → List α
  perm : ∀ l, (sort l).Perm l
  sorted : ∀ l, (sort l).Pairwise fun a b ↦ key a ≤ key b

/-- A stable one. -/
def SortBy.ofInsertionSort (key : α → ℤ) : SortBy key where
  sort := List.insertionSort fun a b ↦ key a ≤ key b
  perm l := List.perm_insertionSort _ l
  sorted l :=
    have : Std.Total fun a b : α ↦ key a ≤ key b := ⟨fun a b ↦ Int.le_total (key a) (key b)⟩
    have : IsTrans α fun a b ↦ key a ≤ key b := ⟨fun _ _ _ ↦ Int.le_trans⟩
    List.pairwise_insertionSort _ l

/-- The first of a sorted list is one of the least. -/
theorem SortBy.head_le {key : α → ℤ} (s : SortBy key) {l xs : List α} {x : α}
    (h : s.sort l = x :: xs) : x ∈ l ∧ ∀ y ∈ l, key x ≤ key y := by
  have hsorted := s.sorted l
  rw [h, List.pairwise_cons] at hsorted
  have hmem : ∀ y, y ∈ x :: xs ↔ y ∈ l := fun y ↦ by rw [← h, (s.perm l).mem_iff]
  refine ⟨(hmem x).1 List.mem_cons_self, fun y hy ↦ ?_⟩
  rcases List.mem_cons.1 ((hmem y).2 hy) with rfl | hy
  · exact Int.le_refl _
  · exact hsorted.1 y hy

/-- A sort of entries whose keys are all different is the sorted list of them. -/
theorem sort_eq_of_perm {key : α → ℤ} (S : SortBy key) {l l' : List α}
    (hperm : l.Perm l') (hsorted : l'.Pairwise fun a b ↦ key a < key b) : S.sort l = l' := by
  have hsorted' : l'.Pairwise fun a b ↦ key a ≤ key b := hsorted.imp fun h ↦ Int.le_of_lt h
  refine List.Perm.eq_of_pairwise (fun a b ha hb hab hba ↦ ?_) (S.sorted l) hsorted'
    ((S.perm l).trans hperm)
  have ha : a ∈ l' := hperm.mem_iff.1 ((S.perm l).mem_iff.1 ha)
  have hinj := List.inj_on_of_nodup_map (f := key)
    (List.pairwise_map.2 (hsorted.imp fun h ↦ Int.ne_of_lt h))
  exact hinj ha hb (Int.le_antisymm hab hba)

/-! ### Either order -/

/-- Two entries do not come in both orders, where none is repeated. -/
theorem not_sublist_swap (hnd : l.Nodup) (h : List.Sublist [a, b] l)
    (h' : List.Sublist [b, a] l) : False := by
  induction l with
  | nil => exact nomatch h
  | cons x l ih =>
    obtain ⟨hx, hnd⟩ := List.nodup_cons.1 hnd
    cases h with
    | cons _ hab => cases h' with
      | cons _ hba => exact ih hnd hab hba
      | cons_cons _ ha => exact hx (hab.subset (List.mem_cons_of_mem a List.mem_cons_self))
    | cons_cons _ hb => cases h' with
      | cons _ hba => exact hx (hba.subset (List.mem_cons_of_mem b List.mem_cons_self))
      | cons_cons _ ha => exact hx (ha.subset List.mem_cons_self)

/-- What is inserted comes before what it is not greater than. -/
theorem sublist_orderedInsert {r : α → α → Prop} [DecidableRel r] (hb : b ∈ l) (hab : r a b) :
    List.Sublist [a, b] (List.orderedInsert r a l) := by
  induction l with
  | nil => exact nomatch hb
  | cons x l ih =>
    rw [List.orderedInsert]
    split_ifs with hx
    · exact (List.singleton_sublist.2 hb).cons_cons a
    · obtain rfl | hb := List.mem_cons.1 hb
      · exact absurd hab hx
      · exact (ih hb).cons x

/-- **A sort may put either of two entries first** where their keys allow it. -/
theorem exists_sortBy (key : α → ℤ) (ha : a ∈ l) (hb : b ∈ l) (hne : a ≠ b)
    (hab : key a ≤ key b) : ∃ S : SortBy key, List.Sublist [a, b] (S.sort l) := by
  classical
  obtain ⟨l', hl'⟩ : ∃ l', l.Perm (a :: l') := ⟨_, List.perm_cons_erase ha⟩
  have hb' : b ∈ l' := (List.mem_cons.1 (hl'.mem_iff.1 hb)).resolve_left hne.symm
  let S := SortBy.ofInsertionSort key
  refine ⟨⟨fun xs ↦ if xs = l then S.sort (a :: l') else S.sort xs, fun xs ↦ ?_, fun xs ↦ ?_⟩, ?_⟩
  · split_ifs with hxs
    · exact (S.perm _).trans (hxs ▸ hl'.symm)
    · exact S.perm xs
  · split_ifs
    · exact S.sorted _
    · exact S.sorted xs
  · show List.Sublist [a, b] (if l = l then _ else _)
    rw [if_pos rfl]
    have hmem : b ∈ S.sort l' := (S.perm l').mem_iff.2 hb'
    exact sublist_orderedInsert hmem hab

end Sorts
