import HugePageResearch.Library.FirstDistinct
import HugePageResearch.Replay.Breakpoints

/-!
# The combinations that are generated

`generate_combinations` of `analysis/generate_breakpoints.py` adds tuple after tuple to a list that
is bounded and has none twice, and ends each of its two loops when the list is full.

## The result

`generateCombinations_representative`: at most so many combinations, no two of them the same, each
one all `-1` or in range, and first the fixed ones in their order. It rests on what the local state
stands for: the first distinct ones of all the tuples that were offered (`Represents`).
-/

namespace Replay

open FirstDistinct

/-! ### Representative combinations -/

/-- The fixed combinations, as functions of the key: all `-1`, all 0, all at their maximum, and each
single key at its maximum. -/
def fixedValues (accessCounts : Dict PyStr ℕ) (keys : List PyStr) : List (PyStr → ℤ) :=
  [(fun _ ↦ -1 : PyStr → ℤ), fun _ ↦ 0, fun k ↦ accessCounts.count k + 1] ++
    keys.map fun key k ↦ if k = key then (accessCounts.count key : ℤ) + 1 else 0

/-- `keys`. -/
abbrev sortedKeys (accessCounts : Dict PyStr ℕ) : List PyStr :=
  accessCounts.keys.insertionSort (· ≤ ·)

/-- The fixed combinations, as tuples over the sorted keys. -/
def fixedTuples (accessCounts : Dict PyStr ℕ) : List (List ℤ) :=
  (fixedValues accessCounts (sortedKeys accessCounts)).map fun f ↦ (sortedKeys accessCounts).map f

/-- **A representative sample** of the combinations. -/
structure Representative (accessCounts : Dict PyStr ℕ) (maxCombos : ℤ)
    (combos : List (Dict PyStr ℤ)) : Prop where
  length_le : (combos.length : ℤ) ≤ max maxCombos 0
  distinct : combos.Pairwise fun combo combo' ↦ ∃ k, combo.get? k ≠ combo'.get? k
  keys : ∀ combo ∈ combos, ∀ k, k ∈ combo.keys ↔ k ∈ accessCounts.keys
  values : ∀ combo ∈ combos, (∀ k v, combo.get? k = some v → v = -1) ∨
    ∀ k v, combo.get? k = some v → InRange (accessCounts.count k) v
  fixed : (firstDistinct maxCombos.toNat (fixedTuples accessCounts)).map
    (Dict.ofZip (sortedKeys accessCounts)) <+: combos

/-! ### Tuples -/

section Tuples

variable {accessCounts : Dict PyStr ℕ} {keys : List PyStr} {values values' : List ℤ} {k : PyStr}

/-- Two tuples make different combinations. -/
theorem exists_get?_ofZip_ne (hkeys : keys.Nodup) (hlength : values.length = keys.length)
    (hlength' : values'.length = keys.length) (hne : values ≠ values') :
    ∃ k, (Dict.ofZip keys values).get? k ≠ (Dict.ofZip keys values').get? k := by
  by_contra hall
  refine hne (List.ext_getElem (hlength.trans hlength'.symm) fun i hi hi' ↦ ?_)
  have hkey : i < keys.length := hlength ▸ hi
  have hmem : (keys[i], values[i]) ∈ keys.zip values := by
    rw [← List.getElem_zip (h := by rw [List.length_zip, hlength, min_self]; exact hkey)]
    exact List.getElem_mem _
  have hget := (Dict.get?_ofZip hkeys values).2 hmem
  rw [not_not.1 (not_exists.1 hall keys[i])] at hget
  obtain ⟨j, hj, heq⟩ := List.mem_iff_getElem.1 ((Dict.get?_ofZip hkeys values').1 hget)
  rw [List.getElem_zip] at heq
  obtain ⟨hkeyEq, hvalue⟩ := Prod.mk.inj heq
  obtain rfl := (List.Nodup.getElem_inj_iff hkeys).1 hkeyEq
  exact hvalue.symm

theorem mem_keys_ofZip (hkeys : keys.Nodup) (hlength : values.length = keys.length) :
    k ∈ (Dict.ofZip keys values).keys ↔ k ∈ keys := by
  rw [Dict.keys, Dict.items_ofZip hkeys, List.map_fst_zip hlength.ge]

/-- The tuple with the maximum of one key. -/
theorem singleMax_eq (hkeys : keys.Nodup) {i : ℕ} {key : PyStr} (hkey : (key, i) ∈ keys.zipIdx) :
    singleMax accessCounts keys i key =
      keys.map fun k ↦ if k = key then (accessCounts.count key : ℤ) + 1 else 0 := by
  obtain ⟨hi, hget⟩ := List.mem_zipIdx' hkey
  refine List.ext_getElem (by simp [singleMax]) fun j hj hj' ↦ ?_
  rw [List.length_map] at hj'
  simp only [singleMax, List.getElem_set, List.getElem_replicate, List.getElem_map, hget,
    List.Nodup.getElem_inj_iff hkeys, eq_comm]

/-- **The fixed tuples** are those that are offered first. -/
theorem fixedTuples_eq (accessCounts : Dict PyStr ℕ) :
    fixedTuples accessCounts =
      [(sortedKeys accessCounts).map fun _ ↦ (-1 : ℤ), (sortedKeys accessCounts).map fun _ ↦ 0,
        (sortedKeys accessCounts).map fun k ↦ accessCounts.count k + 1] ++
        (sortedKeys accessCounts).zipIdx.map fun e ↦
          singleMax accessCounts (sortedKeys accessCounts) e.2 e.1 := by
  have hnd : (sortedKeys accessCounts).Nodup := nodup_sortedKeys accessCounts
  rw [List.map_congr_left fun e he ↦ singleMax_eq hnd he, fixedTuples, fixedValues, List.map_append,
    List.map_map]
  refine congrArg _ ?_
  generalize sortedKeys accessCounts = keys
  have hfst := congrArg (List.map fun key ↦ keys.map fun k ↦
    if k = key then (accessCounts.count key : ℤ) + 1 else 0) (List.zipIdx_map_fst 0 keys)
  rw [List.map_map] at hfst
  exact hfst.symm

end Tuples

/-! ### The local state -/

section State

variable {keys : List PyStr} {maxCombos : ℤ} {s : Combos} {vs : List (List ℤ)}

/-- **The state after tuples were offered**: the first distinct ones of them. -/
structure Represents (keys : List PyStr) (maxCombos : ℤ) (vs : List (List ℤ)) (s : Combos) :
    Prop where
  seen : ∀ values, values ∈ s.seen ↔ values ∈ firstDistinct maxCombos.toNat vs
  combos : s.combos = (firstDistinct maxCombos.toNat vs).map (Dict.ofZip keys)

theorem represents_nil (keys : List PyStr) (maxCombos : ℤ) :
    Represents keys maxCombos [] ⟨[], []⟩ :=
  ⟨fun _ ↦ by rw [firstDistinct_nil], by rw [firstDistinct_nil, List.map_nil]⟩

theorem Represents.length_combos (h : Represents keys maxCombos vs s) :
    s.combos.length = (firstDistinct maxCombos.toNat vs).length := by
  rw [h.combos, List.length_map]

/-- **One more tuple.** -/
theorem Represents.add (h : Represents keys maxCombos vs s) (values : List ℤ) :
    Represents keys maxCombos (vs ++ [values]) (s.add keys maxCombos values) := by
  have hadds : (values ∉ s.seen ∧ (s.combos.length : ℤ) < maxCombos) ↔
      values ∉ firstDistinct maxCombos.toNat vs ∧
        (firstDistinct maxCombos.toNat vs).length < maxCombos.toNat := by
    rw [h.seen, h.length_combos, Int.lt_toNat]
  rw [Combos.add]
  simp only [hadds]
  constructor
  · intro values'
    rw [firstDistinct_concat]
    split_ifs
    · rw [List.mem_cons, h.seen, List.mem_append, List.mem_singleton, or_comm]
    · exact h.seen values'
  · rw [firstDistinct_concat]
    split_ifs
    · rw [List.map_append, ← h.combos]
      rfl
    · exact h.combos

/-- **A loop** that ends when there are enough. -/
theorem Represents.addWhileRoom (h : Represents keys maxCombos vs s) (ws : List (List ℤ)) :
    Represents keys maxCombos (vs ++ ws) (s.addWhileRoom keys maxCombos ws) := by
  induction ws generalizing vs s with
  | nil =>
    rw [List.append_nil]
    exact h
  | cons values ws ih =>
    rw [Combos.addWhileRoom]
    split_ifs with hfull
    · rw [h.length_combos] at hfull
      have heq := firstDistinct_append_of_full (Int.toNat_le.2 hfull) (values :: ws)
      exact ⟨fun values' ↦ heq ▸ h.seen values', heq ▸ h.combos⟩
    · rw [List.append_cons]
      exact ih (h.add values)

end State

/-! ### The result -/

/-- A tuple that is offered: of the right length, and all `-1` or in range. -/
structure Offered (accessCounts : Dict PyStr ℕ) (keys : List PyStr) (values : List ℤ) : Prop where
  length_eq : values.length = keys.length
  values : (∀ v ∈ values, v = -1) ∨
    ∀ k v, (k, v) ∈ keys.zip values → InRange (accessCounts.count k) v

section Result

variable (rnd : Random) (accessCounts : Dict PyStr ℕ) {keys : List PyStr}

theorem offered_map {f : PyStr → ℤ} (hf : ∀ k, InRange (accessCounts.count k) (f k)) :
    Offered accessCounts keys (keys.map f) := by
  refine ⟨List.length_map _, .inr fun k v hkv ↦ ?_⟩
  rw [List.zip_map_right, List.mem_map] at hkv
  obtain ⟨⟨k', k''⟩, hmem, heq⟩ := hkv
  obtain ⟨rfl, rfl⟩ := Prod.mk.inj heq
  rw [List.zip_eq_zipWith, List.zipWith_self, List.mem_map] at hmem
  obtain ⟨k₁, -, heq⟩ := hmem
  obtain ⟨rfl, rfl⟩ := Prod.mk.inj heq
  exact hf _

theorem offered_fixedTuples {values : List ℤ} (h : values ∈ fixedTuples accessCounts) :
    Offered accessCounts (sortedKeys accessCounts) values := by
  obtain ⟨f, hf, rfl⟩ := List.mem_map.1 h
  rw [fixedValues] at hf
  rcases List.mem_append.1 hf with hf | hf
  · simp only [List.mem_cons, List.not_mem_nil, or_false] at hf
    rcases hf with rfl | rfl | rfl
    · refine ⟨List.length_map _, .inl fun v hv ↦ ?_⟩
      obtain ⟨-, -, rfl⟩ := List.mem_map.1 hv
      rfl
    · exact offered_map accessCounts fun _ ↦ inRange_zero _
    · exact offered_map accessCounts fun _ ↦ inRange_max _
  · obtain ⟨key, -, rfl⟩ := List.mem_map.1 hf
    refine offered_map accessCounts fun k ↦ ?_
    split_ifs with hk
    · rw [hk]
      exact inRange_max _
    · exact inRange_zero _

theorem offered_randomTuple (keys : List PyStr) (attempt : ℕ) :
    Offered accessCounts keys (randomTuple rnd accessCounts keys attempt) := by
  refine ⟨by rw [randomTuple, List.length_map, List.length_zipIdx], .inr fun k v hkv ↦ ?_⟩
  obtain ⟨i, hi, heq⟩ := List.mem_iff_getElem.1 hkv
  rw [List.getElem_zip] at heq
  obtain ⟨rfl, rfl⟩ := Prod.mk.inj heq
  simp only [randomTuple, List.getElem_map, List.getElem_zipIdx]
  exact rnd.randint_mem _ _ _ _ (by omega)

/-- **What `generate_combinations` returns**: the first distinct ones of the fixed tuples and then
of the random ones. -/
theorem generateCombinations_eq (maxCombos : ℤ) (hne : accessCounts.keys ≠ []) :
    generateCombinations rnd accessCounts maxCombos =
      (firstDistinct maxCombos.toNat (fixedTuples accessCounts ++
        (List.range (maxCombos * 10).toNat).map
          (randomTuple rnd accessCounts (sortedKeys accessCounts)))).map
        (Dict.ofZip (sortedKeys accessCounts)) := by
  have hempty := represents_nil (sortedKeys accessCounts) maxCombos
  have hthree := ((hempty.add ((sortedKeys accessCounts).map fun _ ↦ -1)).add
    ((sortedKeys accessCounts).map fun _ ↦ 0)).add
    ((sortedKeys accessCounts).map fun k ↦ accessCounts.count k + 1)
  have hfixed := hthree.addWhileRoom ((sortedKeys accessCounts).zipIdx.map fun e ↦
    singleMax accessCounts (sortedKeys accessCounts) e.2 e.1)
  have hall := hfixed.addWhileRoom ((List.range (maxCombos * 10).toNat).map
    (randomTuple rnd accessCounts (sortedKeys accessCounts)))
  rw [generateCombinations, if_neg hne, fixedTuples_eq]
  exact hall.combos

/-- **The combinations are a representative sample.** -/
theorem generateCombinations_representative (maxCombos : ℤ) (hne : accessCounts.keys ≠ []) :
    Representative accessCounts maxCombos (generateCombinations rnd accessCounts maxCombos) := by
  have hnd : (sortedKeys accessCounts).Nodup := nodup_sortedKeys accessCounts
  set tuples := firstDistinct maxCombos.toNat (fixedTuples accessCounts ++
    (List.range (maxCombos * 10).toNat).map (randomTuple rnd accessCounts
      (sortedKeys accessCounts))) with htuples
  have heq : generateCombinations rnd accessCounts maxCombos =
      tuples.map (Dict.ofZip (sortedKeys accessCounts)) :=
    generateCombinations_eq rnd accessCounts maxCombos hne
  -- a tuple is one of the fixed ones or was drawn
  have hoffered : ∀ values ∈ tuples, Offered accessCounts (sortedKeys accessCounts) values := by
    intro values hvalues
    rcases List.mem_append.1 (mem_of_mem_firstDistinct hvalues) with hfixed | hrandom
    · exact offered_fixedTuples accessCounts hfixed
    · obtain ⟨attempt, -, rfl⟩ := List.mem_map.1 hrandom
      exact offered_randomTuple rnd accessCounts _ attempt
  rw [heq]
  refine ⟨?_, ?_, fun combo hcombo k ↦ ?_, fun combo hcombo ↦ ?_, ?_⟩
  · rw [List.length_map, ← Int.toNat_eq_max]
    exact Int.ofNat_le.2 length_firstDistinct_le
  · rw [List.pairwise_map]
    exact nodup_firstDistinct.imp_of_mem fun hv hv' hvv' ↦
      exists_get?_ofZip_ne hnd (hoffered _ hv).length_eq (hoffered _ hv').length_eq hvv'
  · obtain ⟨values, hvalues, rfl⟩ := List.mem_map.1 hcombo
    rw [mem_keys_ofZip hnd (hoffered values hvalues).length_eq]
    exact mem_sortedKeys accessCounts
  · obtain ⟨values, hvalues, rfl⟩ := List.mem_map.1 hcombo
    refine (hoffered values hvalues).values.imp (fun hall k v hv ↦ ?_) fun hall k v hv ↦ ?_
    · exact hall v (List.of_mem_zip ((Dict.get?_ofZip hnd values).1 hv)).2
    · exact hall k v ((Dict.get?_ofZip hnd values).1 hv)
  · exact (firstDistinct_append_left _ _ _).map _

/-- One key with one access: of the five fixed combinations two are the same. -/
theorem generateCombinations_representative_one :
    Representative (Dict.empty.set ['k'] 1) 9
      (generateCombinations ⟨fun _ _ a _ ↦ a, fun _ _ a _ h ↦ ⟨Int.le_refl a, h⟩⟩
        (Dict.empty.set ['k'] 1) 9) :=
  generateCombinations_representative _ _ 9 (by decide)

end Result

end Replay
