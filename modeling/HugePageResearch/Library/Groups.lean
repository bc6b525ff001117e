import Mathlib.Algebra.BigOperators.Group.List.Basic
import Mathlib.Algebra.BigOperators.Group.Finset.Basic
import Mathlib.Data.List.Nodup

/-!
# Grouping by a key

`GroupedBy key rows groups`: one group for each key that the rows have, in any order, with the rows
of the key in their own order. A sum over the groups is a sum over the keys (`GroupedBy.sum_map`),
and what the group of a key yields can be read back by the key (`GroupedBy.ofKey_flatMap`).
-/

namespace Groups

variable {α κ : Type*} [DecidableEq κ]

/-- The rows of a key. -/
def ofKey (key : α → κ) (rows : List α) (k : κ) : List α := rows.filter fun a ↦ key a = k

/-- **One group for each key**, in any order. -/
structure GroupedBy (key : α → κ) (rows : List α) (groups : List (κ × List α)) : Prop where
  nodup : (groups.map Prod.fst).Nodup
  keys : ∀ k, k ∈ groups.map Prod.fst ↔ k ∈ rows.map key
  rows : ∀ e ∈ groups, e.2 = ofKey key rows e.1

variable {key : α → κ} {rows : List α} {groups : List (κ × List α)} {a : α} {k : κ}

theorem mem_ofKey : a ∈ ofKey key rows k ↔ a ∈ rows ∧ key a = k := by
  rw [ofKey, List.mem_filter, decide_eq_true_eq]

/-- The groups, in the order of the first rows of each key. -/
def grouped (key : α → κ) (rows : List α) : List (κ × List α) :=
  (rows.map key).dedup.map fun k ↦ (k, ofKey key rows k)

theorem groupedBy_grouped (key : α → κ) (rows : List α) :
    GroupedBy key rows (grouped key rows) := by
  have hkeys : (grouped key rows).map Prod.fst = (rows.map key).dedup := by
    rw [grouped, List.map_map]
    exact List.map_id _
  refine ⟨hkeys ▸ List.nodup_dedup _, fun k ↦ by rw [hkeys, List.mem_dedup], fun e he ↦ ?_⟩
  obtain ⟨k, -, rfl⟩ := List.mem_map.1 he
  rfl

namespace GroupedBy

/-- What the groups are. -/
theorem mem_iff (h : GroupedBy key rows groups) {e : κ × List α} :
    e ∈ groups ↔ e.1 ∈ rows.map key ∧ e.2 = ofKey key rows e.1 := by
  constructor
  · exact fun he ↦ ⟨(h.keys _).1 (List.mem_map_of_mem he), h.rows e he⟩
  · rintro ⟨hkey, hrows⟩
    obtain ⟨e', he', hfst⟩ := List.mem_map.1 ((h.keys _).2 hkey)
    have heq : e' = e := Prod.ext hfst (by rw [h.rows e' he', hfst, hrows])
    exact heq ▸ he'

/-- **A sum over the groups** is a sum over the keys. -/
theorem sum_map {M : Type*} [AddCommMonoid M] (h : GroupedBy key rows groups)
    (f : κ → List α → M) :
    (groups.map fun e ↦ f e.1 e.2).sum =
      ∑ k ∈ (rows.map key).toFinset, f k (ofKey key rows k) := by
  have hvalues : (groups.map fun e ↦ f e.1 e.2) =
      (groups.map Prod.fst).map fun k ↦ f k (ofKey key rows k) := by
    rw [List.map_map]
    exact List.map_congr_left fun e he ↦ by rw [Function.comp_apply, h.rows e he]
  have hkeys : (groups.map Prod.fst).toFinset = (rows.map key).toFinset :=
    Finset.ext fun k ↦ by rw [List.mem_toFinset, List.mem_toFinset, h.keys]
  rw [hvalues, ← List.sum_toFinset _ h.nodup, hkeys]

/-- **The rows that a group yields** are those of its key, where each group yields rows of its
key. -/
theorem ofKey_flatMap {β : Type*} (h : GroupedBy key rows groups) {key' : β → κ}
    {f : List α → List β} (hnil : f [] = [])
    (hf : ∀ k, ∀ b ∈ f (ofKey key rows k), key' b = k) (k : κ) :
    ofKey key' (groups.flatMap fun e ↦ f e.2) k = f (ofKey key rows k) := by
  have hgroup : ∀ e ∈ groups, ofKey key' (f e.2) k = if e.1 = k then f e.2 else [] := by
    intro e he
    have hkey : ∀ b ∈ f e.2, key' b = e.1 := fun b hb ↦ hf e.1 b (h.rows e he ▸ hb)
    split_ifs with heq
    · exact List.filter_eq_self.2 fun b hb ↦ decide_eq_true ((hkey b hb).trans heq)
    · exact List.filter_eq_nil_iff.2 fun b hb hkb ↦
        heq ((hkey b hb).symm.trans (of_decide_eq_true hkb))
  have hflat : ofKey key' (groups.flatMap fun e ↦ f e.2) k =
      groups.flatMap fun e ↦ if e.1 = k then f e.2 else [] := by
    rw [ofKey, List.filter_flatMap]
    exact List.flatMap_congr hgroup
  rw [hflat]
  by_cases hk : k ∈ groups.map Prod.fst
  · obtain ⟨e, he, rfl⟩ := List.mem_map.1 hk
    obtain ⟨pre, post, rfl⟩ := List.append_of_mem he
    have hother : ∀ e' ∈ pre ++ post, (if e'.1 = e.1 then f e'.2 else []) = [] := by
      intro e' he'
      refine if_neg fun heq ↦ ?_
      have hnd := (List.perm_middle.map Prod.fst).nodup_iff.1 h.nodup
      rw [List.map_cons, List.nodup_cons] at hnd
      exact hnd.1 (List.mem_map.2 ⟨e', he', heq⟩)
    rw [List.flatMap_append, List.flatMap_cons, if_pos rfl, ← h.rows e he,
      List.flatMap_eq_nil_iff.2 fun e' he' ↦ hother e' (List.mem_append_left _ he'),
      List.flatMap_eq_nil_iff.2 fun e' he' ↦ hother e' (List.mem_append_right _ he'),
      List.nil_append, List.append_nil]
  · have hempty : ofKey key rows k = [] := List.filter_eq_nil_iff.2 fun a ha hka ↦
      hk ((h.keys k).2 (List.mem_map.2 ⟨a, ha, of_decide_eq_true hka⟩))
    rw [hempty, hnil, List.flatMap_eq_nil_iff]
    exact fun e he ↦ if_neg fun heq ↦ hk (List.mem_map.2 ⟨e, he, heq⟩)

end GroupedBy

end Groups
