import Mathlib.Data.List.Nodup

/-!
# Tables of chains

A hash table with chaining, as the list of the entries of all its chains: `b` gives the bucket of an
entry, and the chain of a bucket is what the list holds of it, in the list's order.

The interest is in tables where no bucket holds two entries (`AtMostOne`): there a chain is empty or
a single entry (`AtMostOne.chain_cases`).
-/

namespace Chains

variable {α β : Type*} [DecidableEq β] (b : α → β)

/-- The chain of a bucket. -/
def chain (k : β) (t : List α) : List α := t.filter fun a ↦ b a = k

/-- No bucket holds two entries. -/
def AtMostOne (t : List α) : Prop := (t.map b).Nodup

variable {b} {k : β} {a : α} {t : List α}

omit [DecidableEq β] in
theorem atMostOne_cons : AtMostOne b (a :: t) ↔ (∀ x ∈ t, b x ≠ b a) ∧ AtMostOne b t := by
  rw [AtMostOne, List.map_cons, List.nodup_cons, List.mem_map]
  exact and_congr_left fun _ ↦ ⟨fun h x hx he ↦ h ⟨x, hx, he⟩, fun h ⟨x, hx, he⟩ ↦ h x hx he⟩

theorem mem_chain : a ∈ chain b k t ↔ a ∈ t ∧ b a = k := by
  simp [chain]

theorem chain_eq_nil : chain b k t = [] ↔ ∀ a ∈ t, b a ≠ k := by
  simp [chain, List.filter_eq_nil_iff]

/-- **The chain of an entry's bucket** is that entry alone. -/
theorem AtMostOne.chain_eq (h : AtMostOne b t) (ha : a ∈ t) : chain b (b a) t = [a] := by
  induction t with
  | nil => cases ha
  | cons x t ih =>
    obtain ⟨hx, ht⟩ := atMostOne_cons.1 h
    rcases List.mem_cons.1 ha with rfl | ha'
    · rw [chain, List.filter_cons_of_pos (by simp)]
      exact congrArg _ (chain_eq_nil.2 hx)
    · rw [chain, List.filter_cons_of_neg (by simpa using (hx a ha').symm)]
      exact ih ht ha'

/-- **A chain is empty or a single entry.** -/
theorem AtMostOne.chain_cases (h : AtMostOne b t) (k : β) :
    chain b k t = [] ∨ ∃ a ∈ t, b a = k ∧ chain b k t = [a] := by
  rcases hc : chain b k t with _ | ⟨a, l⟩
  · exact .inl rfl
  · have ha : a ∈ chain b k t := hc ▸ List.mem_cons_self
    obtain ⟨hat, rfl⟩ := mem_chain.1 ha
    exact .inr ⟨a, hat, rfl, hc.symm.trans (h.chain_eq hat)⟩

omit [DecidableEq β] in
/-- Entries of one bucket are one entry. -/
theorem AtMostOne.eq_of_bucket_eq (h : AtMostOne b t) {a' : α} (ha : a ∈ t) (ha' : a' ∈ t)
    (he : b a = b a') : a = a' :=
  List.inj_on_of_nodup_map h ha ha' he

omit [DecidableEq β] in
theorem AtMostOne.erase [DecidableEq α] (h : AtMostOne b t) (a : α) : AtMostOne b (t.erase a) :=
  h.sublist (t.erase_sublist.map b)

end Chains
