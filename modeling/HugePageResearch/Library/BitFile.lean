import HugePageResearch.Python.Dict
import Mathlib.Data.List.GetD
import Mathlib.Data.List.SplitBy
import Mathlib.Logic.Function.Defs

/-!
# Bits in files of words

A file that holds one bit for every natural number, packed into words of a fixed width: bit `p` is
bit `p % w` of word `p / w`. A program reads and writes whole words, several neighbouring ones at a
time, and tests and sets single bits with masks.

## What there is

* `pack`, `word`, `words`: what a read returns (`and_mask_word`: testing a mask is testing the bit);
* `sets`: the bits that a write of words has set (`sets_singleton`, `sets_range'`);
* `groupMasks`: the masks of a list of bits, or-ed together word by word (`exists_groupMasks`: they
  set exactly the listed bits);
* `runs`: an ascending list of word indices cut into stretches of neighbours (`mem_runs`,
  `flatten_runs`).
-/

namespace BitFile

/-! ### Words -/

/-- The word with the given bits, the lowest first. -/
def pack : (w : ℕ) → (ℕ → Bool) → BitVec w
  | 0, _ => 0#0
  | w + 1, f => BitVec.cons (f w) (pack w f)

theorem getLsbD_pack (w : ℕ) (f : ℕ → Bool) (j : ℕ) :
    (pack w f).getLsbD j = (decide (j < w) && f j) := by
  induction w with
  | zero => simp
  | succ w ih =>
    rw [pack, BitVec.getLsbD_cons, ih]
    split_ifs with hj
    · simp [hj]
    · have hiff : j < w ↔ j < w + 1 := by omega
      rw [decide_eq_decide.2 hiff]

variable (w : ℕ)

/-- The mask of a bit in its word. -/
def mask (p : ℕ) : BitVec w := 1#w <<< (p % w)

/-- Word `i` of a file. -/
def word (bits : ℕ → Bool) (i : ℕ) : BitVec w := pack w fun j ↦ bits (w * i + j)

/-- `n` words of a file, from word `i` on. -/
def words (bits : ℕ → Bool) (i n : ℕ) : List (BitVec w) :=
  (List.range' i n).map (word w bits)

variable {w}

theorem getLsbD_mask (hw : 0 < w) (p j : ℕ) :
    (mask w p).getLsbD j = true ↔ p % w = j := by
  have htwo : mask w p = BitVec.twoPow w (p % w) := rfl
  rw [htwo, BitVec.getLsbD_twoPow, decide_eq_true (Nat.mod_lt p hw), Bool.true_and,
    decide_eq_true_eq]

theorem getLsbD_word (hw : 0 < w) (bits : ℕ → Bool) (p : ℕ) :
    (word w bits (p / w)).getLsbD (p % w) = bits p := by
  rw [word, getLsbD_pack, decide_eq_true (Nat.mod_lt p hw), Bool.true_and, Nat.div_add_mod]

theorem words_one (bits : ℕ → Bool) (i : ℕ) : words w bits i 1 = [word w bits i] := rfl

/-- A bit is tested with its mask. -/
theorem and_mask_ne_zero (hw : 0 < w) (m : BitVec w) (p : ℕ) :
    m &&& mask w p ≠ 0#w ↔ m.getLsbD (p % w) = true := by
  have htwo : mask w p = BitVec.twoPow w (p % w) := rfl
  rw [htwo, BitVec.and_twoPow]
  split_ifs with hm
  · refine ⟨fun _ ↦ hm, fun _ h ↦ ?_⟩
    have hbit := congrArg (BitVec.getLsbD · (p % w)) h
    simp [Nat.mod_lt p hw] at hbit
  · exact ⟨fun h ↦ absurd rfl h, fun h ↦ absurd h hm⟩

/-- **Testing the mask of a bit in its word** tests the bit. -/
theorem and_mask_word (hw : 0 < w) (bits : ℕ → Bool) (p : ℕ) :
    word w bits (p / w) &&& mask w p ≠ 0#w ↔ bits p = true := by
  rw [and_mask_ne_zero hw, getLsbD_word hw]

/-! ### Writes -/

/-- The bit is set in the words that are written from word `i` on. -/
def sets (i : ℕ) (ms : List (BitVec w)) (p : ℕ) : Bool :=
  decide (i ≤ p / w) && (ms[p / w - i]?).any fun m ↦ m.getLsbD (p % w)

theorem sets_singleton (i : ℕ) (m : BitVec w) (p : ℕ) :
    sets i [m] p = true ↔ p / w = i ∧ m.getLsbD (p % w) = true := by
  rcases Nat.lt_trichotomy (p / w) i with h | h | h
  · simp [sets, Nat.not_le.2 h, h.ne]
  · simp [sets, h]
  · have hpos : [m][p / w - i]? = none := List.getElem?_eq_none (by simp; omega)
    simp [sets, hpos, h.ne']

/-- **Words at neighbouring indices**: a bit is set where the word of its index has it. -/
theorem sets_range' (f : ℕ → BitVec w) (i n p : ℕ) :
    sets i ((List.range' i n).map f) p = true ↔
      p / w ∈ List.range' i n ∧ (f (p / w)).getLsbD (p % w) = true := by
  rw [sets, Bool.and_eq_true, decide_eq_true_eq, List.mem_range'_1, List.getElem?_map]
  constructor
  · rintro ⟨hle, hany⟩
    rcases Nat.lt_or_ge (p / w - i) n with hlt | hge
    · rw [List.getElem?_range' hlt, Nat.one_mul, Nat.add_sub_cancel' hle] at hany
      exact ⟨⟨hle, by omega⟩, by simpa using hany⟩
    · rw [List.getElem?_eq_none (by simpa using hge)] at hany
      simp at hany
  · rintro ⟨⟨hle, hlt⟩, hbit⟩
    refine ⟨hle, ?_⟩
    rw [List.getElem?_range' (by omega), Nat.one_mul, Nat.add_sub_cancel' hle]
    simpa using hbit

/-! ### Masks grouped by word -/

section GroupMasks

variable {key : ℕ → ℕ} {ps : List ℕ}

variable (w key) in
/-- The masks of bits, or-ed together under a key of their word. -/
def groupMasks (ps : List ℕ) : Dict ℕ (BitVec w) :=
  ps.foldl (fun d p ↦ d.set (key (p / w)) ((d.get? (key (p / w))).getD 0#w ||| mask w p))
    Dict.empty

theorem getLsbD_foldl_masks (hw : 0 < w) (ps : List ℕ) (d : Dict ℕ (BitVec w)) (k j : ℕ) :
    (((ps.foldl (fun d p ↦ d.set (key (p / w)) ((d.get? (key (p / w))).getD 0#w ||| mask w p))
      d).get? k).getD 0#w).getLsbD j = true ↔
      ((d.get? k).getD 0#w).getLsbD j = true ∨ ∃ p ∈ ps, key (p / w) = k ∧ p % w = j := by
  induction ps generalizing d with
  | nil => simp
  | cons p ps ih =>
    rw [List.foldl_cons, ih, Dict.get?_set]
    split_ifs with hk
    · simp only [Option.getD_some, BitVec.getLsbD_or, Bool.or_eq_true, getLsbD_mask hw,
        List.exists_mem_cons_iff, hk, true_and, or_assoc]
    · simp only [List.exists_mem_cons_iff, hk, false_and, false_or]

/-- The bits of a grouped mask. -/
theorem getLsbD_groupMasks (hw : 0 < w) (k j : ℕ) :
    (((groupMasks w key ps).get? k).getD 0#w).getLsbD j = true ↔
      ∃ p ∈ ps, key (p / w) = k ∧ p % w = j := by
  rw [groupMasks, getLsbD_foldl_masks hw]
  simp

/-- The keys of grouped masks. -/
theorem mem_keys_groupMasks (k : ℕ) :
    k ∈ (groupMasks w key ps).keys ↔ ∃ p ∈ ps, key (p / w) = k := by
  have hset := Dict.mem_keys_foldl_set (fun p ↦ key (p / w))
    (fun (d : Dict ℕ (BitVec w)) p ↦ (d.get? (key (p / w))).getD 0#w ||| mask w p) ps .empty k
  exact hset.trans (or_iff_right List.not_mem_nil)

/-- **Grouped masks hold exactly the bits they were made from.** -/
theorem getLsbD_groupMasks_iff (hw : 0 < w) (hkey : Function.Injective key) (p : ℕ) :
    (((groupMasks w key ps).get? (key (p / w))).getD 0#w).getLsbD (p % w) = true ↔ p ∈ ps := by
  rw [getLsbD_groupMasks hw]
  constructor
  · rintro ⟨q, hq, hdiv, hmod⟩
    have hqp : q = p := by rw [← Nat.div_add_mod q w, hkey hdiv, hmod, Nat.div_add_mod]
    exact hqp ▸ hq
  · intro hp
    exact ⟨p, hp, rfl, rfl⟩

/-- The same, over the entries. -/
theorem exists_groupMasks (hw : 0 < w) (hkey : Function.Injective key) (p : ℕ) :
    (∃ m, (key (p / w), m) ∈ (groupMasks w key ps).items ∧ m.getLsbD (p % w) = true) ↔
      p ∈ ps := by
  rw [← getLsbD_groupMasks_iff hw hkey]
  constructor
  · rintro ⟨m, hm, hbit⟩
    rwa [Dict.get?_eq_some.2 hm]
  · intro hbit
    rcases hget : (groupMasks w key ps).get? (key (p / w)) with - | m
    · rw [hget, Option.getD_none, BitVec.getLsbD_zero] at hbit
      exact absurd hbit Bool.false_ne_true
    · rw [hget] at hbit
      exact ⟨m, Dict.get?_eq_some.1 hget, hbit⟩

end GroupMasks

/-! ### Stretches of neighbours -/

/-- A list of indices, cut wherever the next index is not the successor. -/
def runs (is : List ℕ) : List (List ℕ) := is.splitBy fun i j ↦ j == i + 1

theorem flatten_runs (is : List ℕ) : (runs is).flatten = is := List.flatten_splitBy _ is

theorem eq_range'_of_isChain {i : ℕ} {is : List ℕ}
    (h : (i :: is).IsChain fun a b ↦ b = a + 1) : i :: is = List.range' i (is.length + 1) := by
  induction is generalizing i with
  | nil => rfl
  | cons j js ih =>
    obtain ⟨rfl, h⟩ := List.isChain_cons_cons.1 h
    rw [List.length_cons, List.range'_succ, ← ih h]

/-- **A stretch is an interval.** -/
theorem mem_runs {is r : List ℕ} (h : r ∈ runs is) :
    ∃ i n, r = List.range' i (n + 1) := by
  have hchain := List.isChain_of_mem_splitBy h
  rcases r with - | ⟨i, js⟩
  · exact absurd h (List.nil_notMem_splitBy _ _)
  · refine ⟨i, js.length, eq_range'_of_isChain (hchain.imp fun a b hab ↦ ?_)⟩
    exact eq_of_beq hab

/-- The first entries of stretches are entries. -/
theorem heads_sublist_flatten {rs : List (List ℕ)} (h : ∀ r ∈ rs, r ≠ []) :
    (rs.map fun r ↦ r.headD 0).Sublist rs.flatten := by
  induction rs with
  | nil => exact List.Sublist.slnil
  | cons r rs ih =>
    obtain ⟨hr, hrs⟩ := List.forall_mem_cons.1 h
    obtain ⟨i, is, rfl⟩ := List.exists_cons_of_ne_nil hr
    exact ((ih hrs).trans (List.sublist_append_right is rs.flatten)).cons_cons i

/-- **Cutting off the first stretch**: up to an index that the next one does not follow. -/
theorem runs_drop {is : List ℕ} {i j : ℕ} (hij : i ≤ j) (hj : j < is.length)
    (hsucc : ∀ t, i ≤ t → t < j → is.getD (t + 1) 0 = is.getD t 0 + 1)
    (hend : j + 1 < is.length → is.getD (j + 1) 0 ≠ is.getD j 0 + 1) :
    runs (is.drop i) = (is.drop i).take (j - i + 1) :: runs (is.drop (j + 1)) := by
  have hlen : ((is.drop i).take (j - i + 1)).length = j - i + 1 := by
    rw [List.length_take, List.length_drop]
    omega
  have hget : ∀ t (ht : t < ((is.drop i).take (j - i + 1)).length),
      ((is.drop i).take (j - i + 1))[t] = is.getD (i + t) 0 := fun t ht ↦ by
    rw [List.getElem_take, List.getElem_drop, List.getD_eq_getElem _ _ (by omega)]
  have hchain : ((is.drop i).take (j - i + 1)).IsChain fun a b ↦ (b == a + 1) = true := by
    refine List.isChain_iff_getElem.2 fun t ht ↦ ?_
    rw [hget, hget, beq_iff_eq]
    exact hsucc (i + t) (by omega) (by omega)
  have hsplit : is.drop i = (is.drop i).take (j - i + 1) ++ is.drop (j + 1) := by
    have hdrop : is.drop (j + 1) = (is.drop i).drop (j - i + 1) := by
      rw [List.drop_drop]
      congr 1
      omega
    rw [hdrop, List.take_append_drop]
  rw [runs]
  nth_rewrite 1 [hsplit]
  rw [List.splitBy_append, List.splitBy_of_isChain _ hchain]
  · rfl
  · exact List.ne_nil_of_length_pos (by omega)
  · intro x hx y hy
    rw [List.head?_drop, Option.mem_def] at hy
    obtain ⟨hlt, rfl⟩ := List.getElem?_eq_some_iff.1 hy
    rw [List.getLast?_eq_getElem?, hlen, Option.mem_def] at hx
    obtain ⟨hx', rfl⟩ := List.getElem?_eq_some_iff.1 hx
    have hlast : i + (j - i + 1 - 1) = j := by omega
    have hne := hend hlt
    rw [List.getD_eq_getElem _ _ hlt] at hne
    rw [hget, hlast, beq_eq_false_iff_ne]
    exact hne

end BitFile
