import Mathlib.Data.List.Sort
import Mathlib.Order.Lattice

/-!
# The first of the least

What a stable sort puts first (`firstLeast_of_insertionSort`): the least element by the key, and of
several the one that came first. Another order of the list keeps its key and can change the element,
which it can only where another element has the same key (`FirstLeast.eq_of_perm`,
`firstLeast_cons`).
-/

variable {α β κ : Type*} [LinearOrder κ]

/-- **The first of the least elements** of a list, by a key. -/
def FirstLeast (f : α → κ) (l : List α) (x : α) : Prop :=
  ∃ pre post, l = pre ++ x :: post ∧ (∀ y ∈ pre, f x < f y) ∧ ∀ y ∈ post, f x ≤ f y

/-- The first of the least elements, unless there is none. -/
def firstLeast (f : α → κ) : List α → Option α
  | [] => none
  | x :: l =>
    match firstLeast f l with
    | none => some x
    | some y => if f y < f x then some y else some x

variable {f : α → κ} {l l' : List α} {x y : α}

/-- It is first where it is least. -/
theorem firstLeast_cons (h : ∀ y ∈ l, f x ≤ f y) : FirstLeast f (x :: l) x :=
  ⟨[], l, rfl, fun _ hy ↦ absurd hy List.not_mem_nil, h⟩

namespace FirstLeast

theorem mem (h : FirstLeast f l x) : x ∈ l := by
  obtain ⟨pre, post, rfl, -⟩ := h
  exact List.mem_append_right _ List.mem_cons_self

/-- It is least. -/
theorem le (h : FirstLeast f l x) (hy : y ∈ l) : f x ≤ f y := by
  obtain ⟨pre, post, rfl, hpre, hpost⟩ := h
  rcases List.mem_append.1 hy with hy | hy
  · exact (hpre y hy).le
  · rcases List.mem_cons.1 hy with rfl | hy
    · exact le_rfl
    · exact hpost y hy

/-- An element after one that is greater. -/
theorem cons (h : FirstLeast f l x) (hy : f x < f y) : FirstLeast f (y :: l) x := by
  obtain ⟨pre, post, rfl, hpre, hpost⟩ := h
  exact ⟨y :: pre, post, rfl, List.forall_mem_cons.2 ⟨hy, hpre⟩, hpost⟩

/-- In a list with an order, the others of its key come after it in that order. -/
theorem lt_or_le {r : α → α → Prop} (h : FirstLeast f l x) (hl : l.Pairwise r)
    (hrefl : r x x) (hy : y ∈ l) : f x < f y ∨ f x ≤ f y ∧ r x y := by
  obtain ⟨pre, post, rfl, hpre, hpost⟩ := h
  rcases List.mem_append.1 hy with hy | hy
  · exact .inl (hpre y hy)
  · rcases List.mem_cons.1 hy with rfl | hy
    · exact .inr ⟨le_rfl, hrefl⟩
    · exact .inr ⟨hpost y hy, List.rel_of_pairwise_cons (List.pairwise_append.1 hl).2.1 hy⟩

/-- **It comes before the others of its key.** -/
theorem lt_or_mem {pre post : List α} (h : FirstLeast f (pre ++ y :: post) x) (hne : x ≠ y) :
    f x < f y ∨ f x = f y ∧ x ∈ pre := by
  have hle : f x ≤ f y := h.le (List.mem_append_right _ List.mem_cons_self)
  refine hle.lt_or_eq.imp id fun heq ↦ ⟨heq, ?_⟩
  obtain ⟨pre', post', hsplit, hpre, -⟩ := h
  rcases List.append_eq_append_iff.1 hsplit with ⟨mid, rfl, hmid⟩ | ⟨mid, rfl, hmid⟩
  · -- `y` would be before `x`
    cases mid with
    | nil => exact absurd (List.cons.inj hmid).1.symm hne
    | cons z mid =>
      obtain rfl := (List.cons.inj hmid).1
      exact absurd heq (hpre y (List.mem_append_right _ List.mem_cons_self)).ne
  · cases mid with
    | nil => exact absurd (List.cons.inj hmid).1 hne
    | cons z mid =>
      obtain rfl := (List.cons.inj hmid).1
      exact List.mem_append_right _ List.mem_cons_self

/-- Its key does not depend on the order. -/
theorem key_eq (h : FirstLeast f l x) (h' : FirstLeast f l' y) (hperm : l.Perm l') : f x = f y :=
  (h.le (hperm.mem_iff.2 h'.mem)).antisymm (h'.le (hperm.mem_iff.1 h.mem))

/-- **It does not depend on the order** where no other element has its key. -/
theorem eq_of_perm (h : FirstLeast f l x) (h' : FirstLeast f l' y) (hperm : l.Perm l')
    (honly : ∀ z ∈ l, f z = f x → z = x) : x = y :=
  (honly y (hperm.mem_iff.2 h'.mem) (h.key_eq h' hperm).symm).symm

/-- The first of the images is that of the first. -/
theorem of_map {g : β → α} {l : List β} (h : FirstLeast f (l.map g) x) :
    ∃ b, FirstLeast (fun b ↦ f (g b)) l b ∧ g b = x := by
  obtain ⟨pre, post, hsplit, hpre, hpost⟩ := h
  obtain ⟨pre', rest, rfl, rfl, hrest⟩ := List.map_eq_append_iff.1 hsplit
  obtain ⟨b, post', rfl, rfl, rfl⟩ := List.map_eq_cons_iff.1 hrest
  refine ⟨b, ⟨pre', post', rfl, fun y hy ↦ ?_, fun y hy ↦ ?_⟩, rfl⟩
  · exact hpre (g y) (List.mem_map_of_mem hy)
  · exact hpost (g y) (List.mem_map_of_mem hy)

end FirstLeast

/-- **There is a first of the least**, unless the list is empty. -/
theorem exists_firstLeast (hne : l ≠ []) : ∃ x, firstLeast f l = some x ∧ FirstLeast f l x := by
  induction l with
  | nil => exact absurd rfl hne
  | cons x l ih =>
    rw [firstLeast]
    rcases eq_or_ne l [] with rfl | hl
    · exact ⟨x, rfl, firstLeast_cons fun _ hy ↦ absurd hy List.not_mem_nil⟩
    · obtain ⟨y, hy, hleast⟩ := ih hl
      rw [hy]
      dsimp only
      split_ifs with hlt
      · exact ⟨y, rfl, hleast.cons hlt⟩
      · exact ⟨x, rfl, firstLeast_cons fun z hz ↦ (not_lt.1 hlt).trans (hleast.le hz)⟩

/-- **The head of a stable sort** is the first of the least. -/
theorem firstLeast_of_insertionSort {r : α → α → Prop} [DecidableRel r]
    (hr : ∀ a b, r a b ↔ f a ≤ f b) {rest : List α} (h : l.insertionSort r = x :: rest) :
    FirstLeast f l x := by
  induction l generalizing x rest with
  | nil => exact absurd h.symm (List.cons_ne_nil _ _)
  | cons a l ih =>
    rw [List.insertionSort_cons] at h
    cases hsort : l.insertionSort r with
    | nil =>
      obtain rfl : l = [] := (hsort ▸ List.perm_insertionSort r l).nil_eq.symm
      obtain rfl := (List.cons.inj h).1
      exact firstLeast_cons fun y hy ↦ absurd hy List.not_mem_nil
    | cons b tail =>
      have hb : FirstLeast f l b := ih hsort
      rw [hsort, List.orderedInsert_cons] at h
      split_ifs at h with hab
      · obtain rfl := (List.cons.inj h).1
        exact firstLeast_cons fun y hy ↦ ((hr a b).1 hab).trans (hb.le hy)
      · obtain rfl := (List.cons.inj h).1
        exact hb.cons (not_le.1 fun hle ↦ hab ((hr a b).2 hle))

/-- A filter keeps what comes before an element. -/
theorem exists_filter_eq_append {p : α → Bool} {pre post : List α}
    (h : l.filter p = pre ++ x :: post) :
    ∃ pre' post', l = pre' ++ x :: post' ∧ pre'.filter p = pre := by
  obtain ⟨l₁, l₂, rfl, rfl, hrest⟩ := List.filter_eq_append_iff.1 h
  obtain ⟨m₁, m₂, rfl, hnone, -⟩ := List.filter_eq_cons_iff.1 hrest
  refine ⟨l₁ ++ m₁, m₂, (List.append_assoc _ _ _).symm, ?_⟩
  rw [List.filter_append, List.filter_eq_nil_iff.2 hnone, List.append_nil]
