import Mathlib.Algebra.GroupWithZero.Nat
import Mathlib.Data.List.Nodup
import Mathlib.Data.List.Perm.Subperm

/-!
# Dictionaries

Python's `dict`: entries in order of first insertion, no key twice. `d[k] = v` replaces the value of
a present key in its place and appends a new one. The keys' distinctness is a field, so every
dictionary that can be built has it.

A dictionary whose values are lists of rows also stands for a set of files. `rows_set` and
`rows_erase` say what writing or removing one file does to the rows that the files hold together.
-/

variable {α β : Type*}

/-- Insertion-ordered entries with distinct keys. -/
structure Dict (α β : Type*) where
  /-- `d.items()`. -/
  items : List (α × β)
  /-- No key occurs twice. -/
  nodupKeys : (items.map Prod.fst).Nodup

namespace Dict

/-- `{}`. -/
def empty : Dict α β := ⟨[], List.nodup_nil⟩

/-- `d.keys()`. -/
def keys (d : Dict α β) : List α := d.items.map Prod.fst

/-- `d.values()`. -/
def values (d : Dict α β) : List β := d.items.map Prod.snd

variable [DecidableEq α]

/-- The value of the first entry of a key. -/
def getItem (k : α) : List (α × β) → Option β
  | [] => none
  | e :: es => if e.1 = k then some e.2 else getItem k es

/-- Replace the entry of a key, or append one. -/
def setItem (k : α) (v : β) : List (α × β) → List (α × β)
  | [] => [(k, v)]
  | e :: es => if e.1 = k then (k, v) :: es else e :: setItem k v es

theorem map_fst_setItem (k : α) (v : β) (es : List (α × β)) :
    (setItem k v es).map Prod.fst =
      if k ∈ es.map Prod.fst then es.map Prod.fst else es.map Prod.fst ++ [k] := by
  induction es with
  | nil => rfl
  | cons e es ih =>
    by_cases he : e.1 = k
    · simp [setItem, he]
    · rw [setItem, if_neg he, List.map_cons, ih, List.map_cons]
      by_cases hk : k ∈ es.map Prod.fst
      · rw [if_pos hk, if_pos (List.mem_cons_of_mem _ hk)]
      · rw [if_neg hk, if_neg (List.not_mem_cons_of_ne_of_not_mem (fun h ↦ he h.symm) hk),
          List.cons_append]

/-- `d.get(k)`. -/
def get? (d : Dict α β) (k : α) : Option β := getItem k d.items

/-- `d[k] = v`. -/
def set (d : Dict α β) (k : α) (v : β) : Dict α β where
  items := setItem k v d.items
  nodupKeys := by
    rw [map_fst_setItem]
    split_ifs with hk
    · exact d.nodupKeys
    · rw [← List.concat_eq_append]
      exact d.nodupKeys.concat hk

/-- `del d[k]`, with no effect on an absent key. -/
def erase (d : Dict α β) (k : α) : Dict α β where
  items := d.items.filter fun e ↦ e.1 ≠ k
  nodupKeys := d.nodupKeys.sublist (List.filter_sublist.map Prod.fst)

/-! ### Lookup -/

theorem getItem_eq_none {k : α} {es : List (α × β)} (hk : k ∉ es.map Prod.fst) :
    getItem k es = none := by
  induction es with
  | nil => rfl
  | cons e es ih =>
    obtain ⟨he, hes⟩ := List.ne_and_not_mem_of_not_mem_cons hk
    rw [getItem, if_neg fun h ↦ he h.symm, ih hes]

theorem getItem_eq_some {k : α} {v : β} {es : List (α × β)} (hnd : (es.map Prod.fst).Nodup) :
    getItem k es = some v ↔ (k, v) ∈ es := by
  induction es with
  | nil => simp [getItem]
  | cons e es ih =>
    obtain ⟨hnot, hnd⟩ := List.nodup_cons.1 hnd
    rw [getItem, List.mem_cons]
    by_cases he : e.1 = k
    · rw [if_pos he]
      constructor
      · intro h
        exact Or.inl (Prod.ext he.symm (Option.some.inj h).symm)
      · rintro (rfl | h)
        · rfl
        · exact absurd (he ▸ List.mem_map_of_mem (f := Prod.fst) h) hnot
    · rw [if_neg he, ih hnd]
      exact ⟨Or.inr, fun h ↦ h.resolve_left fun hkv ↦ he (congrArg Prod.fst hkv).symm⟩

/-- **Lookup finds exactly the entries.** -/
theorem get?_eq_some {d : Dict α β} {k : α} {v : β} : d.get? k = some v ↔ (k, v) ∈ d.items :=
  getItem_eq_some d.nodupKeys

theorem get?_eq_none {d : Dict α β} {k : α} (hk : k ∉ d.keys) : d.get? k = none :=
  getItem_eq_none hk

theorem exists_get?_of_mem_keys {d : Dict α β} {k : α} (hk : k ∈ d.keys) :
    ∃ v, d.get? k = some v := by
  obtain ⟨⟨k', v⟩, he, rfl⟩ := List.mem_map.1 hk
  exact ⟨v, get?_eq_some.2 he⟩

@[simp] theorem get?_empty (k : α) : (empty : Dict α β).get? k = none := rfl

theorem getItem_setItem (k k' : α) (v : β) (es : List (α × β)) :
    getItem k' (setItem k v es) = if k = k' then some v else getItem k' es := by
  induction es with
  | nil => rfl
  | cons e es ih =>
    by_cases he : e.1 = k
    · by_cases hk : k = k'
      · simp [setItem, getItem, he, hk]
      · simp [setItem, getItem, he, hk]
    · by_cases hk : e.1 = k'
      · have hne : k ≠ k' := fun h ↦ he (hk.trans h.symm)
        simp [setItem, getItem, hk, hne, hne.symm]
      · rw [setItem, if_neg he, getItem, if_neg hk, ih, getItem, if_neg hk]

/-- **Lookup after an assignment.** -/
theorem get?_set (d : Dict α β) (k k' : α) (v : β) :
    (d.set k v).get? k' = if k = k' then some v else d.get? k' :=
  getItem_setItem k k' v d.items

/-- **Lookup after a removal.** -/
theorem get?_erase (d : Dict α β) (k k' : α) :
    (d.erase k).get? k' = if k = k' then none else d.get? k' := by
  refine Option.ext fun v ↦ ?_
  rw [get?_eq_some, erase, List.mem_filter]
  split_ifs with hk
  · simp [hk]
  · rw [get?_eq_some]
    exact and_iff_left (decide_eq_true fun h : k' = k ↦ hk h.symm)

theorem getItem_setItem_of_ne {k k' : α} {v : β} {es : List (α × β)} (hne : k ≠ k') :
    getItem k' (setItem k v es) = getItem k' es := by
  rw [getItem_setItem, if_neg hne]

theorem getItem_ne_none {k : α} {es : List (α × β)} (h : k ∈ es.map Prod.fst) :
    getItem k es ≠ none := by
  induction es with
  | nil => exact absurd h List.not_mem_nil
  | cons e es ih =>
    rw [getItem]
    split_ifs with hk
    · exact Option.some_ne_none _
    · exact ih ((List.mem_cons.1 h).resolve_left fun heq ↦ hk heq.symm)

/-- **Storing what is there changes nothing.** -/
theorem setItem_of_getItem {k : α} {v : β} {es : List (α × β)} (h : getItem k es = some v) :
    setItem k v es = es := by
  induction es with
  | nil => exact absurd h (Option.some_ne_none v).symm
  | cons e es ih =>
    rw [getItem] at h
    rw [setItem]
    split_ifs at h with hk
    · obtain rfl := Option.some.inj h
      rw [if_pos hk, ← hk]
    · rw [if_neg hk, ih h]

/-- Entries that come from others by storing a value under a key that they have. -/
theorem eq_iff_of_getItem {k : α} {v w : β} {es es' : List (α × β)}
    (hes : getItem k es = some v) (hes' : getItem k es' = some w) :
    es' = es ↔ w = v ∧ es' = setItem k w es := by
  constructor
  · rintro rfl
    obtain rfl := Option.some.inj (hes'.symm.trans hes)
    exact ⟨rfl, (setItem_of_getItem hes).symm⟩
  · rintro ⟨rfl, h⟩
    rwa [setItem_of_getItem hes] at h

theorem setItem_eq_iff {k : α} {v w : β} {es : List (α × β)} (hes : getItem k es = some v) :
    setItem k w es = es ↔ w = v := by
  rw [eq_iff_of_getItem hes (by rw [getItem_setItem, if_pos rfl])]
  exact and_iff_left rfl

theorem keys_set (d : Dict α β) (k : α) (v : β) :
    (d.set k v).keys = if k ∈ d.keys then d.keys else d.keys ++ [k] :=
  map_fst_setItem k v d.items

theorem mem_keys_set (d : Dict α β) (k k' : α) (v : β) :
    k' ∈ (d.set k v).keys ↔ k' ∈ d.keys ∨ k = k' := by
  rw [keys_set]
  split_ifs with hk
  · exact ⟨Or.inl, fun h ↦ h.elim id fun h ↦ h ▸ hk⟩
  · rw [List.mem_append, List.mem_singleton, eq_comm (a := k')]

/-- **The keys after a loop of assignments** are those before it and those assigned. -/
theorem mem_keys_foldl_set {γ : Type*} (key : γ → α) (val : Dict α β → γ → β) (xs : List γ)
    (d : Dict α β) (k : α) : k ∈ (xs.foldl (fun d x ↦ d.set (key x) (val d x)) d).keys ↔
      k ∈ d.keys ∨ ∃ x ∈ xs, key x = k := by
  induction xs generalizing d with
  | nil => simp
  | cons x xs ih => rw [List.foldl_cons, ih, mem_keys_set, List.exists_mem_cons_iff, or_assoc]

/-- **Setting one entry after the other**, the last one of a key stays. -/
theorem get?_foldl_set (es : List (α × β)) (d : Dict α β) (k : α) :
    (es.foldl (fun d e ↦ d.set e.1 e.2) d).get? k =
      ((es.filter fun e ↦ e.1 = k).getLast?.map Prod.snd).or (d.get? k) := by
  induction es generalizing d with
  | nil => rfl
  | cons e es ih =>
    rw [List.foldl_cons, ih, get?_set]
    by_cases he : e.1 = k
    · rw [if_pos he, List.filter_cons_of_pos (by simpa using he), List.getLast?_cons]
      cases (es.filter fun e ↦ e.1 = k).getLast? with
      | none => rfl
      | some e' => rfl
    · rw [if_neg he, List.filter_cons_of_neg (by simpa using he)]

theorem setItem_of_not_mem {k : α} (v : β) {es : List (α × β)} (hk : k ∉ es.map Prod.fst) :
    setItem k v es = es ++ [(k, v)] := by
  induction es with
  | nil => rfl
  | cons e es ih =>
    obtain ⟨he, hes⟩ := List.ne_and_not_mem_of_not_mem_cons hk
    rw [setItem, if_neg fun h ↦ he h.symm, ih hes, List.cons_append]

/-- **A new key comes last.** -/
theorem items_set_of_not_mem {d : Dict α β} {k : α} (v : β) (hk : k ∉ d.keys) :
    (d.set k v).items = d.items ++ [(k, v)] :=
  setItem_of_not_mem v hk

/-! ### Counters -/

section Counter

/-- `c[k]` of a `Counter`: an absent key counts 0. -/
def count (c : Dict α ℕ) (k : α) : ℕ := (c.get? k).getD 0

/-- `c[k] += 1`. -/
def incr (c : Dict α ℕ) (k : α) : Dict α ℕ := c.set k (c.count k + 1)

@[simp] theorem count_empty (k : α) : (empty : Dict α ℕ).count k = 0 := rfl

theorem count_incr (c : Dict α ℕ) (k k' : α) :
    (c.incr k).count k' = c.count k' + if k = k' then 1 else 0 := by
  rw [count, incr, get?_set]
  split_ifs with hk
  · rw [hk, Option.getD_some]
  · rw [count, Nat.add_zero]

/-- **Counting a list** adds its multiplicities. -/
theorem count_foldl_incr (ks : List α) (c : Dict α ℕ) (k : α) :
    (ks.foldl incr c).count k = c.count k + ks.countP (· = k) := by
  induction ks generalizing c with
  | nil => rfl
  | cons k' ks ih =>
    rw [List.foldl_cons, ih, count_incr, List.countP_cons]
    simp only [decide_eq_true_eq]
    omega

/-- The keys counted are those that were there and those that occur. -/
theorem mem_keys_foldl_incr (ks : List α) (c : Dict α ℕ) (k : α) :
    k ∈ (ks.foldl incr c).keys ↔ k ∈ c.keys ∨ k ∈ ks := by
  have hset := mem_keys_foldl_set id (fun (d : Dict α ℕ) k' ↦ d.count k' + 1) ks c k
  simp only [id, exists_eq_right] at hset
  exact hset

theorem sum_map_snd_setItem (k : α) (v : ℕ) (es : List (α × ℕ)) :
    ((setItem k v es).map Prod.snd).sum + (getItem k es).getD 0 = (es.map Prod.snd).sum + v := by
  induction es with
  | nil => simp [setItem, getItem]
  | cons e es ih =>
    rw [setItem, getItem]
    split_ifs
    · simp only [List.map_cons, List.sum_cons, Option.getD_some]
      omega
    · simp only [List.map_cons, List.sum_cons]
      omega

/-- **Counting one more** makes the sum of the counts one larger. -/
theorem sum_values_incr (c : Dict α ℕ) (k : α) : (c.incr k).values.sum = c.values.sum + 1 := by
  have hsum := sum_map_snd_setItem k (c.count k + 1) c.items
  have hcount : (getItem k c.items).getD 0 = c.count k := rfl
  rw [hcount] at hsum
  show ((setItem k (c.count k + 1) c.items).map Prod.snd).sum = (c.items.map Prod.snd).sum + 1
  omega

end Counter

/-! ### `dict(zip(keys, values))` -/

section Zip

/-- `dict(zip(ks, vs))`. -/
def ofZip (ks : List α) (vs : List β) : Dict α β :=
  (ks.zip vs).foldl (fun d e ↦ d.set e.1 e.2) empty

theorem items_foldl_set {es : List (α × β)} {d : Dict α β}
    (hnd : (d.keys ++ es.map Prod.fst).Nodup) :
    (es.foldl (fun d e ↦ d.set e.1 e.2) d).items = d.items ++ es := by
  induction es generalizing d with
  | nil => exact (List.append_nil _).symm
  | cons e es ih =>
    have hnot : e.1 ∉ d.keys := fun h ↦
      (List.nodup_append.1 hnd).2.2 e.1 h e.1 (by simp) rfl
    have hkeys : (d.set e.1 e.2).keys = d.keys ++ [e.1] := by rw [keys_set, if_neg hnot]
    rw [List.foldl_cons, ih (by rw [hkeys, List.append_assoc]; exact hnd),
      items_set_of_not_mem e.2 hnot, List.append_assoc]
    rfl

/-- A dictionary that is filled with distinct keys. -/
theorem items_foldl_set_empty {es : List (α × β)} (hnd : (es.map Prod.fst).Nodup) :
    (es.foldl (fun d e ↦ d.set e.1 e.2) empty).items = es :=
  items_foldl_set (d := empty) hnd

theorem get?_foldl_set_empty {es : List (α × β)} (hnd : (es.map Prod.fst).Nodup) (k : α) :
    (es.foldl (fun d e ↦ d.set e.1 e.2) empty).get? k = getItem k es := by
  rw [get?, items_foldl_set_empty hnd]

omit [DecidableEq α] in
theorem nodup_map_fst_zip {ks : List α} (hnd : ks.Nodup) (vs : List β) :
    ((ks.zip vs).map Prod.fst).Nodup := by
  induction ks generalizing vs with
  | nil => exact List.nodup_nil
  | cons k ks ih =>
    obtain ⟨hk, hnd⟩ := List.nodup_cons.1 hnd
    rcases vs with - | ⟨v, vs⟩
    · exact List.nodup_nil
    · refine List.nodup_cons.2 ⟨fun h ↦ ?_, ih hnd vs⟩
      obtain ⟨e, he, rfl⟩ := List.mem_map.1 h
      exact hk (List.of_mem_zip he).1

/-- The entries of a zipped dictionary are the pairs, where no key repeats. -/
theorem items_ofZip {ks : List α} (hnd : ks.Nodup) (vs : List β) :
    (ofZip ks vs).items = ks.zip vs := by
  refine items_foldl_set ?_
  rw [show (empty : Dict α β).keys = [] from rfl, List.nil_append]
  exact nodup_map_fst_zip hnd vs

/-- **Lookup in a zipped dictionary**: the value that stands opposite the key. -/
theorem get?_ofZip {ks : List α} (hnd : ks.Nodup) (vs : List β) {k : α} {v : β} :
    (ofZip ks vs).get? k = some v ↔ (k, v) ∈ ks.zip vs := by
  rw [get?_eq_some, items_ofZip hnd]

end Zip

/-! ### The rows of a set of files -/

section Rows

variable {γ : Type*}

/-- All rows that the values hold. -/
def rows (d : Dict α (List γ)) : List γ := d.values.flatten

/-- The rows under a key. -/
def rowsAt (d : Dict α (List γ)) (k : α) : List γ := (d.get? k).getD []

omit [DecidableEq α] in
@[simp] theorem rows_empty : (empty : Dict α (List γ)).rows = [] := rfl

theorem rowsAt_set (d : Dict α (List γ)) (k k' : α) (v : List γ) :
    (d.set k v).rowsAt k' = if k = k' then v else d.rowsAt k' := by
  rw [rowsAt, get?_set]
  split_ifs
  · rfl
  · rfl

theorem flatten_setItem (k : α) (v : List γ) (es : List (α × List γ)) :
    (((setItem k v es).map Prod.snd).flatten ++ (getItem k es).getD []).Perm
      ((es.map Prod.snd).flatten ++ v) := by
  induction es with
  | nil => simp [setItem, getItem]
  | cons e es ih =>
    by_cases he : e.1 = k
    · simp only [setItem, getItem, he, if_true, List.map_cons, List.flatten_cons,
        Option.getD_some]
      exact (List.perm_append_comm.trans (List.perm_append_comm.append_left _)).trans
        (by rw [List.append_assoc])
    · simp only [setItem, getItem, he, if_false, List.map_cons, List.flatten_cons,
        List.append_assoc]
      exact ih.append_left e.2

/-- **Writing a file** adds its rows and drops those that the name held before. -/
theorem rows_set (d : Dict α (List γ)) (k : α) (v : List γ) :
    ((d.set k v).rows ++ d.rowsAt k).Perm (d.rows ++ v) :=
  flatten_setItem k v d.items

theorem flatten_filter (k : α) (es : List (α × List γ)) (hnd : (es.map Prod.fst).Nodup) :
    (((es.filter fun e ↦ e.1 ≠ k).map Prod.snd).flatten ++ (getItem k es).getD []).Perm
      (es.map Prod.snd).flatten := by
  induction es with
  | nil => exact List.Perm.refl _
  | cons e es ih =>
    obtain ⟨hnot, hnd⟩ := List.nodup_cons.1 hnd
    by_cases he : e.1 = k
    · have hfree : ∀ e' ∈ es, decide (e'.1 ≠ k) = true := fun e' he' ↦
        decide_eq_true fun h ↦ hnot (he.trans h.symm ▸ List.mem_map_of_mem (f := Prod.fst) he')
      rw [List.filter_cons_of_neg (by simp [he]), List.filter_eq_self.2 hfree, getItem, if_pos he]
      exact List.perm_append_comm
    · rw [List.filter_cons_of_pos (by simp [he]), getItem, if_neg he, List.map_cons,
        List.map_cons, List.flatten_cons, List.flatten_cons, List.append_assoc]
      exact (ih hnd).append_left e.2

/-- **Removing a file** drops its rows. -/
theorem rows_erase (d : Dict α (List γ)) (k : α) :
    ((d.erase k).rows ++ d.rowsAt k).Perm d.rows :=
  flatten_filter k d.items d.nodupKeys

end Rows

end Dict
