import Mathlib.Data.List.Flatten
import Mathlib.Data.List.Forall2
import Mathlib.Data.List.Nodup

/-!
# One entry of each key

`OneOfEach key rows picks`: the picks hold exactly one of the rows of each key that the rows have,
in any order. This is what remains of a table after the duplicates of a key are removed and nothing
is promised about which of them is kept.

## The result

`picksOfChunks_iff`: where a table is cut into chunks and one of each key is picked from each chunk,
what can be picked in all is what can be picked from the table at once, exactly where every row of
the table is in a chunk and no two chunks share a key.
-/

namespace Distinct

variable {α κ : Type*}

/-- **One of each key.** -/
structure OneOfEach (key : α → κ) (rows picks : List α) : Prop where
  nodup : (picks.map key).Nodup
  subset : picks ⊆ rows
  covers : ∀ r ∈ rows, key r ∈ picks.map key

variable {key : α → κ} {rows rows' picks picks' : List α} {r : α}

/-- The order of the picks is free. -/
theorem OneOfEach.perm (h : OneOfEach key rows picks) (hp : picks.Perm picks') :
    OneOfEach key rows picks' where
  nodup := (hp.map key).nodup_iff.1 h.nodup
  subset _ ha := h.subset (hp.mem_iff.2 ha)
  covers r hr := (hp.map key).mem_iff.1 (h.covers r hr)

/-- Only what the rows are counts, not how often or where. -/
theorem OneOfEach.congr (h : OneOfEach key rows picks) (hrows : ∀ r, r ∈ rows ↔ r ∈ rows') :
    OneOfEach key rows' picks where
  nodup := h.nodup
  subset _ ha := (hrows _).1 (h.subset ha)
  covers r hr := h.covers r ((hrows r).2 hr)

/-- **Where no key repeats there is nothing to pick**: the picks are the rows. -/
theorem OneOfEach.perm_of_nodup (h : OneOfEach key rows picks) (hnd : (rows'.map key).Nodup)
    (hrows : ∀ r, r ∈ rows ↔ r ∈ rows') : picks.Perm rows' := by
  refine (List.perm_ext_iff_of_nodup (h.nodup.of_map key) (hnd.of_map key)).2 fun r ↦ ?_
  constructor
  · exact fun hr ↦ (hrows r).1 (h.subset hr)
  · intro hr
    obtain ⟨a, ha, hkey⟩ := List.mem_map.1 (h.covers r ((hrows r).2 hr))
    have har : a = r := List.inj_on_of_nodup_map hnd ((hrows a).1 (h.subset ha)) hr hkey
    exact har ▸ ha

/-- The picks of some of the keys. -/
theorem OneOfEach.filter (h : OneOfEach key rows picks) (p : κ → Bool) :
    OneOfEach key (rows.filter fun r ↦ p (key r)) (picks.filter fun r ↦ p (key r)) where
  nodup := h.nodup.sublist (List.filter_sublist.map key)
  subset a ha := by
    obtain ⟨ha, hp⟩ := List.mem_filter.1 ha
    exact List.mem_filter.2 ⟨h.subset ha, hp⟩
  covers r hr := by
    obtain ⟨hr, hp⟩ := List.mem_filter.1 hr
    obtain ⟨a, ha, har⟩ := List.mem_map.1 (h.covers r hr)
    rw [← har] at hp ⊢
    exact List.mem_map_of_mem (List.mem_filter.2 ⟨ha, hp⟩)

theorem oneOfEach_nil : OneOfEach key [] picks ↔ picks = [] := by
  refine ⟨fun h ↦ List.subset_nil.1 h.subset, ?_⟩
  rintro rfl
  exact ⟨List.nodup_nil, List.nil_subset _, fun _ hr ↦ absurd hr List.not_mem_nil⟩

/-- There is always a way to pick. -/
theorem exists_oneOfEach (key : α → κ) (rows : List α) : ∃ picks, OneOfEach key rows picks := by
  induction rows with
  | nil => exact ⟨[], oneOfEach_nil.2 rfl⟩
  | cons a rows ih =>
    obtain ⟨picks, h⟩ := ih
    by_cases ha : key a ∈ picks.map key
    · exact ⟨picks, h.nodup, fun x hx ↦ List.mem_cons_of_mem a (h.subset hx),
        List.forall_mem_cons.2 ⟨ha, h.covers⟩⟩
    · refine ⟨a :: picks, List.nodup_cons.2 ⟨ha, h.nodup⟩, List.cons_subset_cons a h.subset,
        List.forall_mem_cons.2 ⟨List.mem_cons_self, fun r hr ↦ ?_⟩⟩
      exact List.mem_cons_of_mem _ (h.covers r hr)

/-- **Every row can be picked.** -/
theorem exists_oneOfEach_mem (key : α → κ) (hr : r ∈ rows) :
    ∃ picks, OneOfEach key rows picks ∧ r ∈ picks := by
  classical
  obtain ⟨picks, h⟩ := exists_oneOfEach key rows
  -- the pick of its key makes room for it
  refine ⟨r :: picks.filter fun a ↦ key a ≠ key r, ⟨?_, ?_, fun a ha ↦ ?_⟩, List.mem_cons_self⟩
  · refine List.nodup_cons.2 ⟨fun hmem ↦ ?_, h.nodup.sublist (List.filter_sublist.map key)⟩
    obtain ⟨a, ha, hkey⟩ := List.mem_map.1 hmem
    exact of_decide_eq_true (List.mem_filter.1 ha).2 hkey
  · exact List.cons_subset.2 ⟨hr, fun a ha ↦ h.subset (List.mem_of_mem_filter ha)⟩
  · by_cases hkey : key a = key r
    · exact List.mem_cons.2 (.inl hkey)
    · obtain ⟨b, hb, hba⟩ := List.mem_map.1 (h.covers a ha)
      exact List.mem_cons_of_mem _ (List.mem_map.2
        ⟨b, List.mem_filter.2 ⟨hb, decide_eq_true (hba.trans_ne hkey)⟩, hba⟩)

/-- Two lists of rows have no key in common. -/
def Apart (key : α → κ) (xs ys : List α) : Prop := ∀ x ∈ xs, ∀ y ∈ ys, key x ≠ key y

instance [DecidableEq κ] (key : α → κ) (xs ys : List α) : Decidable (Apart key xs ys) :=
  inferInstanceAs (Decidable (∀ x ∈ xs, _))

/-- The picks of rows without a common key have none either. -/
theorem OneOfEach.apart_iff {xs ys ps qs : List α} (hp : OneOfEach key xs ps)
    (hq : OneOfEach key ys qs) : Apart key xs ys ↔ (ps.map key).Disjoint (qs.map key) := by
  constructor
  · intro h k hk hk'
    obtain ⟨x, hx, rfl⟩ := List.mem_map.1 hk
    obtain ⟨y, hy, hxy⟩ := List.mem_map.1 hk'
    exact h x (hp.subset hx) y (hq.subset hy) hxy.symm
  · intro h x hx y hy hxy
    exact h (hp.covers x hx) (hxy ▸ hq.covers y hy)

/-! ### Chunks -/

/-- What is picked when one of each key is picked from each chunk. -/
def PicksOfChunks (key : α → κ) (chunks : List (List α)) (picks : List α) : Prop :=
  ∃ pss, List.Forall₂ (OneOfEach key) chunks pss ∧ pss.flatten.Perm picks

variable {chunks pss : List (List α)}

theorem exists_forall₂_oneOfEach (key : α → κ) (chunks : List (List α)) :
    ∃ pss, List.Forall₂ (OneOfEach key) chunks pss := by
  induction chunks with
  | nil => exact ⟨[], .nil⟩
  | cons xs chunks ih =>
    obtain ⟨ps, hps⟩ := exists_oneOfEach key xs
    obtain ⟨pss, h⟩ := ih
    exact ⟨ps :: pss, .cons hps h⟩

theorem mem_flatten_of_forall₂ (h : List.Forall₂ (OneOfEach key) chunks pss)
    (hr : r ∈ pss.flatten) : r ∈ chunks.flatten := by
  induction h with
  | nil => exact hr
  | cons hps _ ih =>
    rw [List.flatten_cons, List.mem_append] at hr ⊢
    exact hr.imp (fun hr ↦ hps.subset hr) ih

/-- **The picks of the chunks have no key twice** where the chunks have none in common. -/
theorem nodup_flatten_iff (h : List.Forall₂ (OneOfEach key) chunks pss) :
    (pss.flatten.map key).Nodup ↔ chunks.Pairwise (Apart key) := by
  induction h with
  | nil => exact iff_of_true List.nodup_nil .nil
  | @cons xs ps chunks pss hps h ih =>
    rw [List.flatten_cons, List.map_append, List.nodup_append', List.pairwise_cons, ih]
    have hdisjoint : (ps.map key).Disjoint (pss.flatten.map key) ↔
        ∀ ys ∈ chunks, Apart key xs ys := by
      clear ih
      induction h with
      | nil => exact iff_of_true (List.disjoint_nil_right _) (List.forall_mem_nil _)
      | cons hqs _ ih =>
        rw [List.flatten_cons, List.map_append, List.disjoint_append_right, ih,
          List.forall_mem_cons, hps.apart_iff hqs]
    rw [hdisjoint]
    constructor
    · exact fun ⟨_, hrest, hapart⟩ ↦ ⟨hapart, hrest⟩
    · exact fun ⟨hapart, hrest⟩ ↦ ⟨hps.nodup, hrest, hapart⟩

theorem covers_flatten (h : List.Forall₂ (OneOfEach key) chunks pss) (hr : r ∈ chunks.flatten) :
    key r ∈ pss.flatten.map key := by
  induction h with
  | nil => cases hr
  | cons hps _ ih =>
    rw [List.flatten_cons, List.map_append, List.mem_append]
    rw [List.flatten_cons, List.mem_append] at hr
    exact hr.imp (hps.covers r) ih

/-- One of each key of a table that is cut into chunks without a common key comes from picking one
of each key in each of them. -/
theorem picksOfChunks_of_oneOfEach (hapart : chunks.Pairwise (Apart key))
    (h : OneOfEach key chunks.flatten picks) : PicksOfChunks key chunks picks := by
  classical
  induction chunks generalizing picks with
  | nil =>
    obtain rfl := oneOfEach_nil.1 h
    exact ⟨[], .nil, .nil⟩
  | cons xs chunks ih =>
    obtain ⟨hx, hrest⟩ := List.pairwise_cons.1 hapart
    -- the keys of the first chunk are not those of the others
    let p : κ → Bool := fun k ↦ k ∈ xs.map key
    have hxs : ∀ r ∈ xs, p (key r) = true := fun r hr ↦ decide_eq_true (List.mem_map_of_mem hr)
    have hflat : ∀ r ∈ chunks.flatten, p (key r) = false := fun r hr ↦ by
      refine decide_eq_false fun hkey ↦ ?_
      obtain ⟨ys, hys, hr⟩ := List.mem_flatten.1 hr
      obtain ⟨a, ha, har⟩ := List.mem_map.1 hkey
      exact hx ys hys a ha r hr har
    rw [List.flatten_cons] at h
    have hps := h.filter p
    have hqs := h.filter fun k ↦ !p k
    rw [List.filter_append, List.filter_eq_self.2 hxs,
      List.filter_eq_nil_iff.2 fun r hr ↦ by simp [hflat r hr], List.append_nil] at hps
    rw [List.filter_append, List.filter_eq_nil_iff.2 fun r hr ↦ by simp [hxs r hr],
      List.filter_eq_self.2 fun r hr ↦ by simp [hflat r hr], List.nil_append] at hqs
    obtain ⟨pss, hpss, hperm⟩ := ih hrest hqs
    refine ⟨_ :: pss, .cons hps hpss, ?_⟩
    rw [List.flatten_cons]
    exact (hperm.append_left _).trans (List.filter_append_perm (fun r ↦ p (key r)) picks)

/-- **When picking from the chunks is picking from the whole table**: every row is in a chunk, and
no two chunks share a key. -/
theorem picksOfChunks_iff (hsub : chunks.flatten ⊆ rows) :
    (∀ picks, PicksOfChunks key chunks picks ↔ OneOfEach key rows picks) ↔
      rows ⊆ chunks.flatten ∧ chunks.Pairwise (Apart key) := by
  constructor
  · intro h
    refine ⟨fun r hr ↦ ?_, ?_⟩
    · obtain ⟨picks, hpicks, hmem⟩ := exists_oneOfEach_mem key hr
      obtain ⟨pss, hpss, hperm⟩ := (h picks).2 hpicks
      exact mem_flatten_of_forall₂ hpss (hperm.mem_iff.2 hmem)
    · obtain ⟨pss, hpss⟩ := exists_forall₂_oneOfEach key chunks
      exact (nodup_flatten_iff hpss).1 ((h pss.flatten).1 ⟨pss, hpss, .refl _⟩).nodup
  · rintro ⟨hrows, hapart⟩ picks
    have hmem : ∀ r, r ∈ chunks.flatten ↔ r ∈ rows := fun r ↦ ⟨fun hr ↦ hsub hr, fun hr ↦ hrows hr⟩
    constructor
    · rintro ⟨pss, hpss, hperm⟩
      have hflat : OneOfEach key chunks.flatten pss.flatten :=
        ⟨(nodup_flatten_iff hpss).2 hapart, fun r hr ↦ mem_flatten_of_forall₂ hpss hr,
          fun r hr ↦ covers_flatten hpss hr⟩
      exact (hflat.perm hperm).congr hmem
    · exact fun h ↦ picksOfChunks_of_oneOfEach hapart (h.congr fun r ↦ (hmem r).symm)

end Distinct
