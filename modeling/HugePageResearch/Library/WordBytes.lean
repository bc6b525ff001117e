import HugePageResearch.Library.BitFile
import Mathlib.Algebra.Ring.Nat

/-!
# Words as bytes

A word of `b * n` bits is written as `n` bytes of `b` bits, the lowest byte first. A file of bits is
then as well a file of bytes: its word `i` is its bytes from byte `n * i` on.

## What there is

* `toBytes`, `ofBytes`, `ofBytesMany`: a word to bytes and back, and many words from many bytes;
* `ofBytes_words`, `ofBytesMany_words`: what is read in bytes is what is read in words;
* `sets_toBytes`: what is written in bytes sets what is written in words.
-/

namespace BitFile

variable {b n w : ℕ}

/-- The bytes of a word, the lowest first. -/
def toBytes (b n : ℕ) (m : BitVec w) : List (BitVec b) :=
  (List.range n).map fun i ↦ pack b fun j ↦ m.getLsbD (b * i + j)

/-- The word with the given bytes, the lowest first. -/
def ofBytes (w : ℕ) (bs : List (BitVec b)) : BitVec w :=
  pack w fun j ↦ (bs.getD (j / b) 0#b).getLsbD (j % b)

/-- The first words that the given bytes make. -/
def ofBytesMany (w n count : ℕ) (bs : List (BitVec b)) : List (BitVec w) :=
  (List.range count).map fun i ↦ ofBytes w ((bs.drop (n * i)).take n)

@[simp] theorem length_toBytes (b n : ℕ) (m : BitVec w) : (toBytes b n m).length = n := by
  rw [toBytes, List.length_map, List.length_range]

theorem length_flatMap_toBytes (b n : ℕ) (ms : List (BitVec w)) :
    (ms.flatMap (toBytes b n)).length = n * ms.length := by
  induction ms with
  | nil => rfl
  | cons m ms ih =>
    rw [List.flatMap_cons, List.length_append, length_toBytes, ih, List.length_cons,
      Nat.mul_succ, Nat.add_comm]

@[simp] theorem length_ofBytesMany (w n count : ℕ) (bs : List (BitVec b)) :
    (ofBytesMany w n count bs).length = count := by
  rw [ofBytesMany, List.length_map, List.length_range]

@[simp] theorem length_words (w : ℕ) (bits : ℕ → Bool) (i count : ℕ) :
    (words w bits i count).length = count := by
  rw [words, List.length_map, List.length_range']

theorem getD_words {bits : ℕ → Bool} {i count j : ℕ} (hj : j < count) :
    (words w bits i count).getD j 0#w = word w bits (i + j) := by
  rw [words, List.getD_eq_getElem?_getD, List.getElem?_map, List.getElem?_range' hj, Nat.one_mul]
  rfl

/-! ### Reading -/

/-- **The bytes of a word make the word.** -/
theorem ofBytes_words (hb : 0 < b) (hw : w = b * n) (bits : ℕ → Bool) (i : ℕ) :
    ofBytes w (words b bits (n * i) n) = word w bits i := by
  refine BitVec.eq_of_getLsbD_eq fun j hj ↦ ?_
  have hdiv : j / b < n := Nat.div_lt_of_lt_mul (hw ▸ hj)
  rw [ofBytes, word, getLsbD_pack, getLsbD_pack, decide_eq_true hj, Bool.true_and, Bool.true_and,
    getD_words hdiv, word, getLsbD_pack, decide_eq_true (Nat.mod_lt j hb), Bool.true_and]
  congr 1
  rw [Nat.mul_add, Nat.add_assoc, Nat.div_add_mod, ← Nat.mul_assoc, hw]

/-- A stretch of a stretch. -/
theorem take_drop_words (bits : ℕ → Bool) (i : ℕ) {count d m : ℕ} (h : d + m ≤ count) :
    ((words w bits i count).drop d).take m = words w bits (i + d) m := by
  rw [words, ← List.map_drop, ← List.map_take, List.drop_range',
    List.take_range'_of_length_ge (by omega), Nat.mul_one, words]

/-- **Reading bytes is reading words**: as many as there are complete ones. -/
theorem ofBytesMany_words (hb : 0 < b) (hw : w = b * n) (bits : ℕ → Bool) (i : ℕ)
    {count len : ℕ} (h : n * count ≤ len) :
    ofBytesMany w n count (words b bits (n * i) len) = words w bits i count := by
  have hwords : words w bits i count = (List.range count).map fun t ↦ word w bits (i + t) := by
    rw [words, List.range'_eq_map_range, List.map_map]
    rfl
  rw [ofBytesMany, hwords]
  refine List.map_congr_left fun t ht ↦ ?_
  have hle : n * t + n ≤ len := by
    calc n * t + n = n * (t + 1) := (Nat.mul_succ n t).symm
      _ ≤ n * count := Nat.mul_le_mul_left n (List.mem_range.1 ht)
      _ ≤ len := h
  rw [take_drop_words bits (n * i) hle, ← Nat.mul_add, ofBytes_words hb hw]

/-! ### Writing -/

/-- An entry of lists of one length, one after the other. -/
theorem getElem?_flatMap_of_length {α β : Type*} {f : α → List β} (hf : ∀ a, (f a).length = n)
    (as : List α) {q r : ℕ} (hr : r < n) :
    (as.flatMap f)[n * q + r]? = as[q]?.bind fun a ↦ (f a)[r]? := by
  induction as generalizing q with
  | nil => simp
  | cons a as ih =>
    rw [List.flatMap_cons]
    rcases q with - | q
    · rw [Nat.mul_zero, Nat.zero_add, List.getElem?_append_left (by rw [hf]; exact hr)]
      rfl
    · have hidx : n * (q + 1) + r = n + (n * q + r) := by rw [Nat.mul_succ]; omega
      rw [List.getElem?_append_right (by rw [hf, hidx]; omega), hf, hidx, Nat.add_sub_cancel_left,
        ih]
      rfl

/-- **Writing bytes is writing words.** -/
theorem sets_toBytes (hb : 0 < b) (hn : 0 < n) (hw : w = b * n) (i : ℕ) (ms : List (BitVec w))
    (p : ℕ) : sets (n * i) (ms.flatMap (toBytes b n)) p = sets i ms p := by
  have hword : p / w = p / b / n := by rw [hw, Nat.div_div_eq_div_mul]
  have hle : n * i ≤ p / b ↔ i ≤ p / w := by
    rw [hword, Nat.le_div_iff_mul_le hn, Nat.mul_comm]
  rw [sets, sets, decide_eq_decide.2 hle]
  by_cases hi : i ≤ p / w
  · have hidx : p / b - n * i = n * (p / w - i) + p / b % n := by
      have hsplit := Nat.div_add_mod (p / b) n
      rw [hword, Nat.mul_sub]
      have hge : n * i ≤ n * (p / b / n) := Nat.mul_le_mul_left n (hword ▸ hi)
      omega
    have hbit : b * (p / b % n) + p % b = p % w := by
      rw [hw, Nat.mod_mul]
      omega
    rw [hidx, getElem?_flatMap_of_length (length_toBytes b n) ms (Nat.mod_lt _ hn)]
    rcases ms[p / w - i]? with - | m
    · rfl
    · have hbyte : (toBytes b n m)[p / b % n]? =
          some (pack b fun j ↦ m.getLsbD (b * (p / b % n) + j)) := by
        rw [toBytes, List.getElem?_map, List.getElem?_range (Nat.mod_lt _ hn)]
        rfl
      show (decide _ && ((toBytes b n m)[p / b % n]?).any _) = (decide _ && m.getLsbD (p % w))
      rw [hbyte, Option.any_some, getLsbD_pack, decide_eq_true (Nat.mod_lt p hb), Bool.true_and,
        hbit]
  · rw [decide_eq_false hi, Bool.false_and, Bool.false_and]

end BitFile
