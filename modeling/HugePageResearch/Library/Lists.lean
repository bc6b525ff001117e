import Mathlib.Algebra.BigOperators.Group.List.Basic
import Mathlib.Algebra.GroupWithZero.Nat
import Mathlib.Algebra.Order.Group.Nat
import Mathlib.Data.List.Flatten
import Mathlib.Data.List.Forall2
import Mathlib.Data.List.Nodup
import Mathlib.Data.List.Pairwise

/-!
# Lists and results

What is needed of lists everywhere and is not special to any program: lists without repetition,
the first entry that fails, concatenations that agree, and steps that return.
-/

namespace Lists

variable {α β : Type*}

/-! ### Steps that return -/

/-- Two steps that return: the first does, and the second does on its value. -/
theorem exists_of_bind_eq_ok {ε : Type*} {x : Except ε α} {f : α → Except ε β} {b : β}
    (h : x.bind f = .ok b) : ∃ a, x = .ok a ∧ f a = .ok b := by
  rcases x with e | a
  · cases h
  · exact ⟨a, rfl, h⟩

/-- A step that returns, and a function of its value. -/
theorem exists_of_map_eq_ok {ε : Type*} {x : Except ε α} {f : α → β} {b : β}
    (h : x.map f = .ok b) : ∃ a, x = .ok a ∧ f a = b := by
  rcases x with e | a
  · cases h
  · exact ⟨a, rfl, Except.ok.inj h⟩

/-- Where each step returns what it should, all do, in order. -/
theorem exists_mapM_forall₂ {ε α β : Type} {g : α → Except ε β} {R : α → β → Prop}
    {l : List α} (h : ∀ a ∈ l, ∃ b, g a = .ok b ∧ R a b) :
    ∃ bs, l.mapM g = .ok bs ∧ l.Forall₂ R bs := by
  induction l with
  | nil => exact ⟨[], rfl, .nil⟩
  | cons a l ih =>
    obtain ⟨⟨b, hb, hR⟩, hl⟩ := List.forall_mem_cons.1 h
    obtain ⟨bs, hbs, hRs⟩ := ih hl
    refine ⟨b :: bs, ?_, .cons hR hRs⟩
    rw [List.mapM_cons, hb, hbs]
    rfl

/-- Steps that all return, one for each entry. -/
theorem mapM_eq_pure_map {m : Type → Type*} [Monad m] [LawfulMonad m] {α β : Type} {g : α → m β}
    {h : α → β} {l : List α} (hl : ∀ a ∈ l, g a = pure (h a)) : l.mapM g = pure (l.map h) := by
  induction l with
  | nil => rfl
  | cons a l ih =>
    obtain ⟨ha, hl⟩ := List.forall_mem_cons.1 hl
    rw [List.mapM_cons, ha, ih hl]
    simp

/-! ### Lists without repetition -/

/-- A list without repetition counts each of its entries once. -/
theorem countP_of_nodup [DecidableEq α] {ks : List α} (hnd : ks.Nodup) (k : α) :
    ks.countP (· = k) = if k ∈ ks then 1 else 0 := by
  have hcount : ks.countP (· = k) = ks.count k := List.countP_congr fun x _ ↦ by simp
  rw [hcount, hnd.count]

/-- **Occurrences of distinct keys add up to the length** where there are no others. -/
theorem sum_countP [DecidableEq α] {keys xs : List α} (hnd : keys.Nodup)
    (hmem : ∀ x ∈ xs, x ∈ keys) :
    (keys.map fun p ↦ xs.countP (· = p)).sum = xs.length := by
  induction keys generalizing xs with
  | nil =>
    rcases xs with - | ⟨x, xs⟩
    · rfl
    · exact absurd (hmem x List.mem_cons_self) List.not_mem_nil
  | cons k ks ih =>
    obtain ⟨hk, hnd⟩ := List.nodup_cons.1 hnd
    have hrest : (ks.map fun p ↦ (xs.filter (· ≠ k)).countP (· = p)).sum =
        (xs.filter (· ≠ k)).length := ih hnd fun x hx ↦ by
      obtain ⟨hx, hne⟩ := List.mem_filter.1 hx
      exact (List.mem_cons.1 (hmem x hx)).resolve_left (of_decide_eq_true hne)
    have hsame : (ks.map fun p ↦ (xs.filter (· ≠ k)).countP (· = p)) =
        ks.map fun p ↦ xs.countP (· = p) := List.map_congr_left fun p hp ↦ by
      rw [List.countP_filter]
      refine List.countP_congr fun x _ ↦ ?_
      rcases eq_or_ne x p with rfl | hne
      · have hxk : x ≠ k := fun h ↦ hk (h ▸ hp)
        simp [hxk]
      · simp [hne]
    rw [List.map_cons, List.sum_cons, ← hsame, hrest, ← List.countP_eq_length_filter,
      List.length_eq_countP_add_countP (· = k)]
    simp

/-- Where a function tells the entries of a list apart, each entry is alone with its value. -/
theorem filter_eq_singleton [DecidableEq β] {f : α → β} {xs : List α} (hnd : (xs.map f).Nodup)
    {x : α} (hx : x ∈ xs) : xs.filter (fun y ↦ f y = f x) = [x] := by
  induction xs with
  | nil => exact absurd hx List.not_mem_nil
  | cons y ys ih =>
    obtain ⟨hy, hnd⟩ := List.nodup_cons.1 hnd
    rcases List.mem_cons.1 hx with rfl | hx
    · have hnone : ∀ z ∈ ys, ¬ decide (f z = f x) = true := fun z hz h ↦
        hy (of_decide_eq_true h ▸ List.mem_map_of_mem hz)
      rw [List.filter_cons_of_pos (by simp), List.filter_eq_nil_iff.2 hnone]
    · have hne : f y ≠ f x := fun h ↦ hy (h ▸ List.mem_map_of_mem hx)
      rw [List.filter_cons_of_neg (by simpa using hne), ih hnd hx]

/-! ### First and next entries -/

/-- A list has one first element without a property. -/
theorem eq_of_first_failing {P : α → Prop} {l r l' r' : List α} {a a' : α}
    (h : l ++ a :: r = l' ++ a' :: r') (hl : ∀ x ∈ l, P x) (ha : ¬ P a) (hl' : ∀ x ∈ l', P x)
    (ha' : ¬ P a') : l = l' := by
  rcases List.append_eq_append_iff.1 h with ⟨m, rfl, hm⟩ | ⟨m, rfl, hm⟩
  · rcases m with - | ⟨b, m⟩
    · exact (List.append_nil l).symm
    · exact absurd (hl' b (by simp)) ((List.cons.inj hm).1 ▸ ha)
  · rcases m with - | ⟨b, m⟩
    · exact List.append_nil l'
    · exact absurd (hl b (by simp)) ((List.cons.inj hm).1 ▸ ha')

/-- The next of the runs. -/
theorem eq_of_range'_eq_append {n : ℕ} {done rest : List ℕ} {run : ℕ}
    (h : List.range' 1 n = done ++ run :: rest) : run = done.length + 1 := by
  have hget : (List.range' 1 n)[done.length]? = some run := by
    rw [h, List.getElem?_append_right (le_refl _), Nat.sub_self]
    rfl
  obtain ⟨hlt, hrun⟩ := List.getElem?_eq_some_iff.1 hget
  rw [List.getElem_range'] at hrun
  omega

/-- Entries that keep their index keep its order. -/
theorem sublist_map_filterMap {g : α × ℕ → Option (ℕ × β)}
    (hg : ∀ e e', g e = some e' → e'.1 = e.2) (es : List (α × ℕ)) :
    ((es.filterMap g).map Prod.fst).Sublist (es.map Prod.snd) := by
  induction es with
  | nil => exact .slnil
  | cons e es ih =>
    rcases he : g e with - | e'
    · rw [List.filterMap_cons_none he]
      exact ih.cons _
    · rw [List.filterMap_cons_some he, List.map_cons, List.map_cons, hg e e' he]
      exact ih.cons_cons _

/-- What is appended at most once. -/
theorem eq_append_singleton_iff {l l' : List α} {o : Option α} {x : α}
    (h : l' = l ++ o.toList) : l' = l ++ [x] ↔ o = some x := by
  rw [h, List.append_right_inj, Option.toList_eq_singleton_iff]

/-! ### Entries with those before them -/

section Splits

variable {P : List α → α → Prop} {l : List α} {a : α}

theorem forall_splits_nil : ∀ pre b post, ([] : List α) = pre ++ b :: post → P pre b := by
  intro pre b post h
  exact absurd h.symm (List.append_ne_nil_of_right_ne_nil _ (List.cons_ne_nil _ _))

/-- **Of each entry and those before it**, where one is appended. -/
theorem forall_splits_concat : (∀ pre b post, l ++ [a] = pre ++ b :: post → P pre b) ↔
    (∀ pre b post, l = pre ++ b :: post → P pre b) ∧ P l a := by
  constructor
  · intro h
    refine ⟨fun pre b post heq ↦ h pre b (post ++ [a]) ?_, h l a [] rfl⟩
    rw [heq, List.append_assoc, List.cons_append]
  · rintro ⟨h, ha⟩ pre b post heq
    -- the entry is the one that is appended, or it stands before
    rcases List.eq_nil_or_concat post with rfl | ⟨post, b', rfl⟩
    · obtain ⟨rfl, hlast⟩ := List.append_inj' heq rfl
      rw [← (List.cons.inj hlast).1]
      exact ha
    · rw [List.concat_eq_append, ← List.cons_append, ← List.append_assoc] at heq
      exact h pre b post (List.append_inj' heq rfl).1

end Splits

/-! ### Related lists -/

/-- An element of one of two related lists has one of the other. -/
theorem exists_of_mem_of_forall₂ {R : α → β → Prop} {as : List α} {bs : List β}
    (h : as.Forall₂ R bs) {a : α} (ha : a ∈ as) : ∃ b ∈ bs, R a b := by
  induction h with
  | nil => exact absurd ha List.not_mem_nil
  | @cons a' b as bs hab _ ih =>
    rcases List.mem_cons.1 ha with rfl | ha
    · exact ⟨b, List.mem_cons_self, hab⟩
    · obtain ⟨b', hb', hab'⟩ := ih ha
      exact ⟨b', List.mem_cons_of_mem b hb', hab'⟩

/-- A list is related to its image entry by entry. -/
theorem forall₂_map_self {R : α → β → Prop} {f : α → β} (h : ∀ a, R a (f a)) (l : List α) :
    l.Forall₂ R (l.map f) := by
  rw [List.forall₂_map_right_iff]
  exact List.forall₂_same.2 fun a _ ↦ h a

/-! ### Concatenations -/

theorem flatten_map_nil (l : List α) : (l.map fun _ ↦ ([] : List β)).flatten = [] :=
  List.flatten_eq_nil_iff.2 fun _ hl ↦ (List.mem_map.1 hl).elim fun _ h ↦ h.2.symm

theorem length_flatMap_eq_zero (f : α → List β) (l : List α) :
    (l.flatMap f).length = 0 ↔ ∀ a ∈ l, f a = [] := by
  rw [List.length_eq_zero_iff, List.flatMap_eq_nil_iff]

/-- Elements that contribute nothing play no role. -/
theorem flatMap_filter_not_isEmpty (f : α → List β) (l : List α) :
    (l.filter fun a ↦ !(f a).isEmpty).flatMap f = l.flatMap f := by
  induction l with
  | nil => rfl
  | cons a l ih =>
    cases ha : f a with
    | nil =>
      rw [List.flatMap_cons, ha, List.nil_append, List.filter_cons_of_neg (by simp [ha]), ih]
    | cons b bs =>
      rw [List.filter_cons_of_pos (by simp [ha]), List.flatMap_cons, List.flatMap_cons, ih]

theorem mem_filter_not_isEmpty {f : α → List β} {l : List α} {a : α}
    (ha : a ∈ l.filter fun a ↦ !(f a).isEmpty) : a ∈ l ∧ f a ≠ [] := by
  obtain ⟨hal, hne⟩ := List.mem_filter.1 ha
  refine ⟨hal, fun h ↦ ?_⟩
  rw [h] at hne
  cases hne

/-- **Concatenation of a sorted list.** Two arrangements of the same elements are concatenated to
the same list where both are sorted, not counting the elements that contribute nothing. -/
theorem flatMap_eq_of_perm {f : α → List β} {r : α → α → Prop} {l l' : List α}
    (hp : l.Perm l')
    (hanti : ∀ a ∈ l, ∀ b ∈ l, f a ≠ [] → f b ≠ [] → r a b → r b a → a = b)
    (hl : l.Pairwise fun a b ↦ f a ≠ [] → f b ≠ [] → r a b)
    (hl' : l'.Pairwise fun a b ↦ f a ≠ [] → f b ≠ [] → r a b) : l.flatMap f = l'.flatMap f := by
  have hsorted : ∀ {m : List α}, (m.Pairwise fun a b ↦ f a ≠ [] → f b ≠ [] → r a b) →
      (m.filter fun a ↦ !(f a).isEmpty).Pairwise r := by
    intro m hm
    exact (hm.filter _).imp_of_mem fun ha hb h ↦
      h (mem_filter_not_isEmpty ha).2 (mem_filter_not_isEmpty hb).2
  rw [← flatMap_filter_not_isEmpty f l, ← flatMap_filter_not_isEmpty f l']
  refine congrArg (List.flatMap f) (List.Perm.eq_of_pairwise ?_ (hsorted hl) (hsorted hl')
    (hp.filter _))
  intro a b ha hb hab hba
  obtain ⟨ha, hfa⟩ := mem_filter_not_isEmpty ha
  obtain ⟨hb, hfb⟩ := mem_filter_not_isEmpty hb
  exact hanti a ha b (hp.mem_iff.2 hb) hfa hfb hab hba

/-- A sublist with as many elements of every kind is the whole list. -/
theorem eq_of_sublist_of_length_filter {ι : Type*} {p : ι → α → Bool} {is : List ι}
    {l l' : List α} (h : l.Sublist l') (hcover : ∀ a ∈ l', ∃ i ∈ is, p i a = true)
    (hlen : ∀ i ∈ is, (l'.filter (p i)).length ≤ (l.filter (p i)).length) : l = l' := by
  induction h with
  | slnil => rfl
  | cons a hsub _ =>
    -- the element that was left out is missing from its kind
    obtain ⟨i, hi, hp⟩ := hcover a List.mem_cons_self
    have hle := hlen i hi
    rw [List.filter_cons_of_pos hp, List.length_cons] at hle
    exact absurd ((hsub.filter (p i)).length_le) (by omega)
  | cons_cons a _ ih =>
    rw [ih (fun b hb ↦ hcover b (List.mem_cons_of_mem a hb)) fun i hi ↦ ?_]
    have hle := hlen i hi
    cases hp : p i a with
    | false => rwa [List.filter_cons_of_neg (by simp [hp]), List.filter_cons_of_neg (by simp [hp])]
        at hle
    | true =>
      rw [List.filter_cons_of_pos hp, List.filter_cons_of_pos hp] at hle
      exact Nat.le_of_succ_le_succ hle

/-- One of several lists is all of them exactly if the others are empty. -/
theorem perm_flatMap_iff {l : List α} (hnd : l.Nodup) {p : α} (hp : p ∈ l)
    (f : α → List β) : (f p).Perm (l.flatMap f) ↔ ∀ e ∈ l, e ≠ p → f e = [] := by
  obtain ⟨s, t, rfl⟩ := List.append_of_mem hp
  have hmem : ∀ e, e ≠ p → (e ∈ s ++ p :: t ↔ e ∈ s ∨ e ∈ t) := fun e he ↦ by
    rw [List.mem_append, List.mem_cons, or_iff_right he]
  rw [List.flatMap_append, List.flatMap_cons]
  constructor
  · intro h e he hne
    have hlen := h.length_eq
    rw [List.length_append, List.length_append] at hlen
    rcases (hmem e hne).1 he with hs | ht
    · exact List.flatMap_eq_nil_iff.1 (List.length_eq_zero_iff.1 (by omega : _ = 0)) e hs
    · exact List.flatMap_eq_nil_iff.1 (List.length_eq_zero_iff.1 (by omega : _ = 0)) e ht
  · intro h
    have hnot : p ∉ s ∧ p ∉ t := by
      rw [List.nodup_middle, List.nodup_cons, List.mem_append, not_or] at hnd
      exact hnd.1
    have hs : s.flatMap f = [] := List.flatMap_eq_nil_iff.2 fun e he ↦
      have hne : e ≠ p := fun h ↦ hnot.1 (h ▸ he)
      h e ((hmem e hne).2 (Or.inl he)) hne
    have ht : t.flatMap f = [] := List.flatMap_eq_nil_iff.2 fun e he ↦
      have hne : e ≠ p := fun h ↦ hnot.2 (h ▸ he)
      h e ((hmem e hne).2 (Or.inr he)) hne
    rw [hs, ht, List.nil_append, List.append_nil]

/-- A list, by its indices. -/
theorem flatMap_range_getD (l : List α) (d : α) (f : α → List β) :
    ((List.range l.length).flatMap fun i ↦ f (l.getD i d)) = l.flatMap f := by
  have hmap : (List.range l.length).map (fun i ↦ l.getD i d) = l := by
    refine List.ext_getElem (by rw [List.length_map, List.length_range]) fun i hi hi' ↦ ?_
    rw [List.getElem_map, List.getElem_range, List.getD_eq_getElem?_getD,
      List.getElem?_eq_getElem hi', Option.getD_some]
  rw [← List.flatMap_map, hmap]

end Lists
