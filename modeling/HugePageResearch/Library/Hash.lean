import HugePageResearch.Python.Dict
import Mathlib.Logic.Basic

/-!
# Hashes of a bounded size

A hash holds at most so many keys. An operation that needs one more fails and leaves the hash as it
is. `update` replaces the value of a present key; `insert` and `lookupOrTryInit` keep it.

What a later lookup of the key finds is either what was written, or nothing: where a write fails,
the key was absent and stays so (`get?_update_self`).
-/

namespace Hash

variable {α β : Type*} [DecidableEq α]

/-- Room for a key, or the key itself. -/
def Fits (size : ℕ) (d : Dict α β) (k : α) : Prop := k ∈ d.keys ∨ d.items.length < size

instance (size : ℕ) (d : Dict α β) (k : α) : Decidable (Fits size d k) :=
  inferInstanceAs (Decidable (_ ∨ _))

/-- `update`. -/
def update (size : ℕ) (d : Dict α β) (k : α) (v : β) : Dict α β :=
  if Fits size d k then d.set k v else d

/-- `insert`. -/
def insert (size : ℕ) (d : Dict α β) (k : α) (v : β) : Dict α β :=
  if k ∈ d.keys then d else update size d k v

/-- `lookup_or_try_init`: the entry, if there is one or room for one, and the hash. -/
def lookupOrTryInit (size : ℕ) (d : Dict α β) (k : α) (v : β) : Option β × Dict α β :=
  ((insert size d k v).get? k, insert size d k v)

variable {size : ℕ} {d : Dict α β} {k k' : α} {v : β}

/-- Other keys are not touched. -/
theorem get?_update_of_ne (h : k ≠ k') : (update size d k v).get? k' = d.get? k' := by
  rw [update]
  split_ifs
  · exact (Dict.get?_set d k k' v).trans (if_neg h)
  · rfl

theorem get?_update_of_fits (h : Fits size d k) : (update size d k v).get? k = some v := by
  rw [update, if_pos h]
  exact (Dict.get?_set d k k v).trans (if_pos rfl)

/-- A write that fails leaves the key absent. -/
theorem get?_update_of_not_fits (h : ¬ Fits size d k) : (update size d k v).get? k = none := by
  rw [update, if_neg h]
  exact Dict.get?_eq_none fun hk ↦ h (.inl hk)

/-- **After an update** the key holds what was written, or nothing. -/
theorem get?_update_self :
    (update size d k v).get? k = some v ∨ (update size d k v).get? k = none := by
  by_cases h : Fits size d k
  · exact .inl (get?_update_of_fits h)
  · exact .inr (get?_update_of_not_fits h)

theorem not_mem_keys_of_get? (h : d.get? k = none) : k ∉ d.keys := fun hk ↦ by
  obtain ⟨w, hw⟩ := Dict.exists_get?_of_mem_keys hk
  exact nomatch h.symm.trans hw

/-- A present key keeps its value. -/
theorem insert_of_get? {w : β} (h : d.get? k = some w) : insert size d k v = d := by
  refine if_pos ?_
  by_contra hk
  rw [Dict.get?_eq_none hk] at h
  exact nomatch h

/-- **An entry that an insertion made** is what was inserted. -/
theorem eq_of_get?_insert {w : β} (h : d.get? k = none)
    (hw : (insert size d k v).get? k = some w) : w = v := by
  have hupdate : insert size d k v = update size d k v := if_neg (not_mem_keys_of_get? h)
  rw [hupdate] at hw
  obtain hsome | hgone := @get?_update_self _ _ _ size d k v
  · exact Option.some.inj (hw.symm.trans hsome)
  · exact nomatch hw.symm.trans hgone

/-- Looking up a present key finds it and leaves the hash. -/
theorem lookupOrTryInit_of_get? {w : β} (h : d.get? k = some w) :
    lookupOrTryInit size d k v = (some w, d) := by
  rw [lookupOrTryInit, insert_of_get? h, h]

/-- An absent key that fits is put in. -/
theorem lookupOrTryInit_of_fits (h : d.get? k = none) (hfits : Fits size d k) :
    lookupOrTryInit size d k v = (some v, d.set k v) := by
  have hinsert : insert size d k v = d.set k v :=
    (if_neg (not_mem_keys_of_get? h)).trans (if_pos hfits)
  rw [lookupOrTryInit, hinsert, Dict.get?_set, if_pos rfl]

/-- A key that does not fit is not found, and the hash stays. -/
theorem lookupOrTryInit_of_not_fits (h : ¬ Fits size d k) :
    lookupOrTryInit size d k v = (none, d) := by
  have hk : k ∉ d.keys := fun hk ↦ h (.inl hk)
  have hinsert : insert size d k v = d := (if_neg hk).trans (if_neg h)
  rw [lookupOrTryInit, hinsert, Dict.get?_eq_none hk]

theorem get?_insert_of_ne (h : k ≠ k') : (insert size d k v).get? k' = d.get? k' := by
  rw [insert]
  split_ifs
  · rfl
  · exact get?_update_of_ne h

end Hash
