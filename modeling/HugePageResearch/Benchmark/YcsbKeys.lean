import HugePageResearch.Python.Text
import Mathlib.Data.Int.Bitwise

/-!
# The names of the records that YCSB loads

`kernmlops_benchmark/redis.py`: the hook that follows the values of some keys is told their names
before the benchmark runs, so `_build_ycsb_key_name` repeats what YCSB does when it loads a record.
In hashed order the number of the record is hashed first: by YCSB with Java's `long`, signed and
wrapping, by `_ycsb_hash_keynum` with integers of any size and masks.

## The result

`ycsbHashKeynum_eq_and_buildYcsbKeyName_eq`: for every number that is a `long` the two hashes are
the same, and so are the names, for every padding.

The two computations meet in `Meets`: after `i` rounds the masked hash is the word of the signed
one, while the remaining value agrees with the other only on the `64 - 8 * i` bits that are left of
the number, for Java's shift repeats the sign. Eight octets never reach beyond them.
-/

/-! ### Masks of unbounded integers -/

/-- **Masking an integer with its lowest `k` bits is the remainder by `2 ^ k`**, whatever its
sign. -/
theorem Int.land_two_pow_sub_one (n : ℤ) (k : ℕ) : n.land (2 ^ k - 1 : ℕ) = n % 2 ^ k := by
  have hcast : (2 ^ k : ℤ) = (2 ^ k : ℕ) := (Nat.cast_pow 2 k).symm
  have hpos : 0 < 2 ^ k := Nat.two_pow_pos k
  cases n with
  | ofNat m =>
    show ((m &&& 2 ^ k - 1 : ℕ) : ℤ) = (m : ℤ) % 2 ^ k
    rw [Nat.and_two_pow_sub_one_eq_mod, hcast, Int.natCast_mod]
  | negSucc m =>
    -- the bits of `-(m + 1)` are the inverted bits of `m`
    have hbits : Nat.ldiff (2 ^ k - 1) m = 2 ^ k - (m % 2 ^ k + 1) := by
      refine Nat.eq_of_testBit_eq fun i ↦ ?_
      rw [Nat.testBit_ldiff, Nat.testBit_two_pow_sub_one,
        Nat.testBit_two_pow_sub_succ (Nat.mod_lt m hpos), Nat.testBit_mod_two_pow]
      cases decide (i < k) <;> simp
    have hlt := Nat.mod_lt m hpos
    show ((Nat.ldiff (2 ^ k - 1) m : ℕ) : ℤ) = Int.negSucc m % 2 ^ k
    rw [hbits, hcast, Int.negSucc_emod m (by omega), ← Int.natCast_mod]
    omega

namespace Benchmark

/-! ### The names that the hook is told -/

/-- `FNV_OFFSET_BASIS_64`. -/
def fnvOffsetBasis64 : ℕ := 0xCBF29CE484222325

/-- `FNV_PRIME_64`. -/
def fnvPrime64 : ℕ := 1099511628211

/-- `(1 << 64) - 1`. -/
def mask64 : ℤ := (1 <<< 64 - 1 : ℕ)

/-- `_to_signed_64`. -/
def toSigned64 (value : ℤ) : ℤ :=
  let value := value.land mask64
  if value.land (1 <<< 63 : ℕ) ≠ 0 then value - (1 <<< 64 : ℕ) else value

/-- One turn of the loop of `_ycsb_hash_keynum`, on `value` and `hashval`. -/
def hashTurn (s : ℤ × ℤ) : ℤ × ℤ :=
  let octet := s.1.land 0xFF
  let value := s.1 >>> 8
  let hashval := Int.xor s.2 octet
  (value, (hashval * fnvPrime64).land mask64)

/-- `_ycsb_hash_keynum`. -/
def ycsbHashKeynum (keynum : ℤ) : ℤ :=
  let hashval := (hashTurn^[8] (keynum.land mask64, fnvOffsetBasis64)).2
  let signedHash := toSigned64 hashval
  if signedHash = -(1 <<< 63 : ℕ) then signedHash else signedHash.natAbs

/-- `insert_order` of `RedisConfig`. -/
inductive InsertOrder where
  | hashed
  | ordered
  deriving DecidableEq

/-- `_build_ycsb_key_name`, with the fields of `config` that it reads. -/
def buildYcsbKeyName (insertOrder : InsertOrder) (zeroPadding : ℤ) (keynum : ℤ) : PyStr :=
  let keynum := if insertOrder ≠ .ordered then ycsbHashKeynum keynum else keynum
  let value := PyStr.ofInt keynum
  let fill := max (zeroPadding - value.length) 0
  ['u', 's', 'e', 'r'] ++ List.replicate fill.toNat '0' ++ value

/-! ### What YCSB does

A `long` is a word of 64 bits that `toInt` reads; `>>` keeps its sign. -/

/-- One round of `fnvhash64`, on `val` and `hashval`. -/
def fnvRound (s : BitVec 64 × BitVec 64) : BitVec 64 × BitVec 64 :=
  let octet := s.1 &&& 0x00ff
  let val := s.1.sshiftRight 8
  (val, (s.2 ^^^ octet) * BitVec.ofNat 64 fnvPrime64)

/-- `Math.abs` of a `long`. -/
def mathAbs (a : BitVec 64) : BitVec 64 := if a.toInt < 0 then -a else a

/-- `fnvhash64` of YCSB. -/
def fnvhash64 (val : BitVec 64) : BitVec 64 :=
  mathAbs (fnvRound^[8] (val, BitVec.ofNat 64 fnvOffsetBasis64)).2

/-- The name under which YCSB stores the record of a number: `user`, then `0` once for each turn of
a loop `for (i = 0; i < fill; i++)`, then the number. -/
def recordName (insertOrder : InsertOrder) (zeroPadding : ℤ) (keynum : BitVec 64) : PyStr :=
  let keynum := if insertOrder = .hashed then fnvhash64 keynum else keynum
  let value := PyStr.ofInt keynum.toInt
  let fill := zeroPadding - value.length
  (fun prekey ↦ prekey ++ ['0'])^[fill.toNat] ['u', 's', 'e', 'r'] ++ value

/-! ### Round by round -/

/-- **After `i` rounds the two computations meet**: the remaining values agree on the bits that are
left of the number, and the masked hash is the word of the other. -/
structure Meets (i : ℕ) (s : ℤ × ℤ) (t : BitVec 64 × BitVec 64) : Prop where
  value : ∃ n : ℕ, s.1 = n ∧ ∀ j, j + 8 * i < 64 → n.testBit j = t.1.getLsbD j
  hash : s.2 = t.2.toNat

/-- The octets of a round are the same as long as there are eight bits left. -/
theorem octet_eq {n : ℕ} {v : BitVec 64} (h : ∀ j < 8, n.testBit j = v.getLsbD j) :
    n &&& 0xFF = (v &&& 0x00ff).toNat := by
  refine Nat.eq_of_testBit_eq fun j ↦ ?_
  have h255 : (0xFF : ℕ).testBit j = decide (j < 8) := Nat.testBit_two_pow_sub_one 8 j
  rw [BitVec.toNat_and, Nat.testBit_and, Nat.testBit_and, BitVec.testBit_toNat]
  show (n.testBit j && (0xFF : ℕ).testBit j) = (v.getLsbD j && (0xFF : ℕ).testBit j)
  rw [h255]
  by_cases hj : j < 8
  · rw [h j hj]
  · rw [decide_eq_false hj, Bool.and_false, Bool.and_false]

theorem land_mask64 (n : ℤ) : n.land mask64 = n % 2 ^ 64 := Int.land_two_pow_sub_one n 64

/-- The mask wraps a product as the multiplication of words does. -/
theorem natCast_mul_land_mask64 (x : BitVec 64) (p : ℕ) :
    ((x.toNat : ℤ) * p).land mask64 = (x * BitVec.ofNat 64 p).toNat := by
  rw [land_mask64, BitVec.toNat_mul, BitVec.toNat_ofNat, Nat.mul_mod_mod]
  norm_cast

/-- **A round keeps the two together.** -/
theorem Meets.turn {i : ℕ} (hi : i < 8) {s : ℤ × ℤ} {t : BitVec 64 × BitVec 64}
    (h : Meets i s t) : Meets (i + 1) (hashTurn s) (fnvRound t) := by
  obtain ⟨n, hn, hbits⟩ := h.value
  have hoctet : n &&& 0xFF = (t.1 &&& 0x00ff).toNat := octet_eq fun j hj ↦ hbits j (by omega)
  refine ⟨⟨n >>> 8, ?_, fun j hj ↦ ?_⟩, ?_⟩
  · show s.1 >>> 8 = _
    rw [hn]
    rfl
  · rw [Nat.testBit_shiftRight, hbits (8 + j) (by omega)]
    show _ = (t.1.sshiftRight 8).getLsbD j
    rw [BitVec.getLsbD_sshiftRight, decide_eq_false (by omega), if_pos (by omega)]
    simp
  · show (Int.xor s.2 (s.1.land 0xFF) * fnvPrime64).land mask64 = _
    have hxor : Int.xor s.2 (s.1.land 0xFF) = (t.2 ^^^ (t.1 &&& 0x00ff)).toNat := by
      rw [h.hash, hn, BitVec.toNat_xor, ← hoctet]
      rfl
    rw [hxor, natCast_mul_land_mask64]
    rfl

/-- Eight rounds, from a number and its word. -/
theorem meets_iterate {k : ℕ} (hk : k ≤ 8) (keynum : ℤ) :
    Meets k (hashTurn^[k] (keynum.land mask64, fnvOffsetBasis64))
      (fnvRound^[k] (BitVec.ofInt 64 keynum, BitVec.ofNat 64 fnvOffsetBasis64)) := by
  induction k with
  | zero =>
    have hnonneg : 0 ≤ keynum % 2 ^ 64 := Int.emod_nonneg _ (by decide)
    refine ⟨⟨(BitVec.ofInt 64 keynum).toNat, ?_, fun j _ ↦ BitVec.testBit_toNat _⟩, rfl⟩
    show keynum.land mask64 = _
    rw [land_mask64, BitVec.toNat_ofInt]
    exact (Int.toNat_of_nonneg hnonneg).symm
  | succ k ih =>
    rw [Function.iterate_succ_apply', Function.iterate_succ_apply']
    exact (ih (by omega)).turn (by omega)

/-! ### The sign and the absolute value -/

/-- **`_to_signed_64` reads a masked word as a `long`.** -/
theorem toSigned64_toNat (h : BitVec 64) : toSigned64 h.toNat = h.toInt := by
  have hmask : (h.toNat : ℤ).land mask64 = h.toNat := by
    rw [land_mask64]
    exact Int.emod_eq_of_lt (by omega) (by exact_mod_cast h.isLt)
  have hsign : (h.toNat : ℤ).land (1 <<< 63 : ℕ) = (h.msb.toNat * 2 ^ 63 : ℕ) := by
    show ((h.toNat &&& 2 ^ 63 : ℕ) : ℤ) = _
    rw [Nat.and_two_pow, BitVec.testBit_toNat, BitVec.msb_eq_getLsbD_last]
  simp only [toSigned64, hmask, hsign]
  rw [BitVec.toInt_eq_msb_cond]
  cases h.msb <;> rfl

/-- `Math.abs` maps the least `long` to itself and every other to its absolute value. -/
theorem toInt_mathAbs (a : BitVec 64) :
    (mathAbs a).toInt = if a.toInt = -(1 <<< 63 : ℕ) then a.toInt else a.toInt.natAbs := by
  have hmin : (BitVec.intMin 64).toInt = -(1 <<< 63 : ℕ) := by decide
  rw [mathAbs]
  split_ifs with hneg hleast hleast
  · have ha : a = BitVec.intMin 64 := BitVec.eq_of_toInt_eq (hleast.trans hmin.symm)
    rw [ha, BitVec.neg_intMin]
  · have ha : a ≠ BitVec.intMin 64 := fun ha ↦ hleast (ha ▸ hmin)
    rw [BitVec.toInt_neg_of_ne_intMin ha]
    omega
  · exact absurd (hleast ▸ hneg) (by decide)
  · omega

/-- **The two hashes are the same.** -/
theorem ycsbHashKeynum_eq (keynum : ℤ) :
    ycsbHashKeynum keynum = (fnvhash64 (BitVec.ofInt 64 keynum)).toInt := by
  rw [ycsbHashKeynum, (meets_iterate (Nat.le_refl 8) keynum).hash, toSigned64_toNat, fnvhash64,
    toInt_mathAbs]

/-! ### The names -/

theorem iterate_append_zero (k : ℕ) (s : PyStr) :
    (fun prekey ↦ prekey ++ ['0'])^[k] s = s ++ List.replicate k '0' := by
  induction k with
  | zero => exact (List.append_nil s).symm
  | succ k ih =>
    rw [Function.iterate_succ_apply', ih, List.append_assoc, List.replicate_succ']

/-- **The names are built alike.** -/
theorem buildYcsbKeyName_eq {keynum : ℤ} (hmin : -2 ^ 63 ≤ keynum) (hmax : keynum < 2 ^ 63)
    (insertOrder : InsertOrder) (zeroPadding : ℤ) :
    buildYcsbKeyName insertOrder zeroPadding keynum =
      recordName insertOrder zeroPadding (BitVec.ofInt 64 keynum) := by
  have hfill : ∀ x : ℤ, (max x 0).toNat = x.toNat := fun x ↦ by omega
  have hlong : (BitVec.ofInt 64 keynum).toInt = keynum :=
    BitVec.toInt_ofInt_eq_self (by decide) hmin hmax
  rw [buildYcsbKeyName, recordName, iterate_append_zero]
  cases insertOrder with
  | hashed => simp only [ne_eq, reduceCtorEq, not_false_eq_true, if_true, hfill, ycsbHashKeynum_eq]
  | ordered => simp only [ne_eq, reduceCtorEq, not_true_eq_false, if_false, hfill, hlong]

/-- **For every number that is a `long` the hashes are the same**, and in either order the name that
the hook is told is that of the loaded record. -/
theorem ycsbHashKeynum_eq_and_buildYcsbKeyName_eq (keynum : ℤ) (hmin : -2 ^ 63 ≤ keynum)
    (hmax : keynum < 2 ^ 63) :
    ycsbHashKeynum keynum = (fnvhash64 (BitVec.ofInt 64 keynum)).toInt ∧
      ∀ insertOrder zeroPadding, buildYcsbKeyName insertOrder zeroPadding keynum =
        recordName insertOrder zeroPadding (BitVec.ofInt 64 keynum) :=
  ⟨ycsbHashKeynum_eq keynum, buildYcsbKeyName_eq hmin hmax⟩

/-- The first record: `user6284781860667377211`. -/
theorem ycsbHashKeynum_eq_and_buildYcsbKeyName_eq_zero :
    (fnvhash64 0).toInt = 6284781860667377211 ∧
      ycsbHashKeynum 0 = (fnvhash64 (BitVec.ofInt 64 0)).toInt ∧
        ∀ insertOrder zeroPadding, buildYcsbKeyName insertOrder zeroPadding 0 =
          recordName insertOrder zeroPadding (BitVec.ofInt 64 0) :=
  ⟨by decide +kernel, ycsbHashKeynum_eq_and_buildYcsbKeyName_eq 0 (by decide) (by decide)⟩

end Benchmark
