import HugePageResearch.Fstore.Store
import HugePageResearch.Library.WordBytes

/-!
# The names of maps

`module/fstore/fstore.h`: what user space passes as the 64-bit name of a map is made of a string of
at most eight characters. `char` is signed where the module runs, so that a character from `0x80` on
is widened with ones, which hide whatever follows it.

## The result

`wellNamed_iff`: a string that is not too long has its own bytes as its name, which no other string
has, exactly if none of its first seven characters is from `0x80` on. The eighth may be: what it is
widened with is shifted out.

The word is that of a recursion over the string (`nameWord`), and its bytes are the characters up to
the first one from `0x80` on and then ones (`nameByte`).
-/

namespace Fstore

open BitFile

/-! ### The functions -/

/-- A string that a `char *` points to: its characters before the one that ends it. -/
@[ext] structure CString where
  chars : List (BitVec 8)
  ne_zero : ∀ c ∈ chars, c ≠ 0

/-- The loop of both functions, from `i` and `hash` on, over what is left of the string: it leaves
the hash and what is then left. -/
def hashLoop : ℕ → U64 → List (BitVec 8) → U64 × List (BitVec 8)
  | _, hash, [] => (hash, [])
  | i, hash, c :: cs =>
    if i < 8 then hashLoop (i + 1) (hash ||| c.signExtend 64 <<< (i * 8)) cs else (hash, c :: cs)

/-- `convert8byteStringHash`. -/
def convert8byteStringHash (string : CString) : Option U64 :=
  let (hash, left) := hashLoop 0 0 string.chars
  if left ≠ [] then none else some hash

/-- `unsafeHashConvert`. -/
def unsafeHashConvert (string : CString) : U64 := (hashLoop 0 0 string.chars).1

/-- **A string is well named**: it has a name unless it is too long, the same from both functions;
the bytes of the name are its characters, and no other string has that name. -/
structure WellNamed (s : CString) : Prop where
  none_iff : convert8byteStringHash s = none ↔ 8 < s.chars.length
  unsafe_eq : s.chars.length ≤ 8 → convert8byteStringHash s = some (unsafeHashConvert s)
  bytes : ∀ hash, convert8byteStringHash s = some hash →
    toBytes 8 8 hash = s.chars ++ List.replicate (8 - s.chars.length) 0
  unique : ∀ hash, convert8byteStringHash s = some hash →
    ∀ t, convert8byteStringHash t = some hash → t = s

/-! ### The word of a string -/

/-- The word that the loop makes. -/
def nameWord : List (BitVec 8) → U64
  | [] => 0
  | c :: cs => c.signExtend 64 ||| nameWord cs <<< 8

/-- **The loop** adds the word of the string to the hash, as far as it comes. -/
theorem hashLoop_eq {i : ℕ} {cs : List (BitVec 8)} (h : i + cs.length ≤ 8) (hash : U64) :
    hashLoop i hash cs = (hash ||| nameWord cs <<< (i * 8), []) := by
  induction cs generalizing i hash with
  | nil => simp [hashLoop, nameWord]
  | cons c cs ih =>
    rw [List.length_cons] at h
    rw [hashLoop, if_pos (by omega), ih (by omega), nameWord, BitVec.shiftLeft_or_distrib,
      ← BitVec.shiftLeft_add, BitVec.or_assoc, Nat.succ_mul, Nat.add_comm 8]

/-- A string that is too long is left before its end. -/
theorem hashLoop_ne_nil {i : ℕ} {cs : List (BitVec 8)} (hi : i ≤ 8) (h : 8 < i + cs.length)
    (hash : U64) : (hashLoop i hash cs).2 ≠ [] := by
  induction cs generalizing i hash with
  | nil => exact absurd h (by simpa using hi)
  | cons c cs ih =>
    rw [List.length_cons] at h
    rw [hashLoop]
    split_ifs with hlt
    · exact ih (by omega) (by omega) _
    · exact List.cons_ne_nil c cs

theorem convert8byteStringHash_of_le {s : CString} (h : s.chars.length ≤ 8) :
    convert8byteStringHash s = some (nameWord s.chars) := by
  rw [convert8byteStringHash, hashLoop_eq (by omega)]
  simp

theorem convert8byteStringHash_of_lt {s : CString} (h : 8 < s.chars.length) :
    convert8byteStringHash s = none :=
  if_pos (hashLoop_ne_nil (Nat.zero_le 8) (by omega) 0)

theorem unsafeHashConvert_of_le {s : CString} (h : s.chars.length ≤ 8) :
    unsafeHashConvert s = nameWord s.chars := by
  rw [unsafeHashConvert, hashLoop_eq (by omega)]
  simp

/-- **A string has a name** exactly if it is not too long. -/
theorem convert8byteStringHash_eq_some_iff {s : CString} {hash : U64} :
    convert8byteStringHash s = some hash ↔ s.chars.length ≤ 8 ∧ nameWord s.chars = hash := by
  by_cases h : s.chars.length ≤ 8
  · rw [convert8byteStringHash_of_le h, Option.some.injEq]
    exact (and_iff_right h).symm
  · rw [convert8byteStringHash_of_lt (Nat.lt_of_not_le h)]
    exact ⟨nofun, fun hs ↦ absurd hs.1 h⟩

/-! ### The bytes of the word -/

/-- A byte of a word. -/
def byteAt (x : U64) (j : ℕ) : BitVec 8 := pack 8 fun k ↦ x.getLsbD (8 * j + k)

/-- The bytes of the name of a string: a character from `0x80` on hides what follows. -/
def nameByte : List (BitVec 8) → ℕ → BitVec 8
  | [], _ => 0
  | c :: _, 0 => c
  | c :: cs, j + 1 => if c.msb then BitVec.allOnes 8 else nameByte cs j

theorem getLsbD_byteAt (x : U64) (j : ℕ) {k : ℕ} (hk : k < 8) :
    (byteAt x j).getLsbD k = x.getLsbD (8 * j + k) := by
  rw [byteAt, getLsbD_pack, decide_eq_true hk, Bool.true_and]

/-- **The bytes of a name**, the lowest first. -/
theorem byteAt_nameWord (cs : List (BitVec 8)) {j : ℕ} (hj : j < 8) :
    byteAt (nameWord cs) j = nameByte cs j := by
  refine BitVec.eq_of_getLsbD_eq fun k hk ↦ ?_
  rw [getLsbD_byteAt _ _ hk]
  induction cs generalizing j with
  | nil => simp [nameWord, nameByte]
  | cons c cs ih =>
    rw [nameWord, BitVec.getLsbD_or, BitVec.getLsbD_signExtend, BitVec.getLsbD_shiftLeft,
      decide_eq_true (by omega), Bool.true_and]
    rcases j with - | j
    · rw [if_pos (by omega), decide_eq_true (show 8 * 0 + k < 8 by omega)]
      simp [nameByte]
    · have hidx : 8 * (j + 1) + k - 8 = 8 * j + k := by omega
      rw [if_neg (by omega), decide_eq_false (show ¬ 8 * (j + 1) + k < 8 by omega), hidx,
        ih (by omega), nameByte]
      cases c.msb with
      | false => simp
      | true => rw [if_pos rfl, BitVec.getLsbD_allOnes, decide_eq_true hk, Bool.true_or]

/-- **Two strings have the same name** if all bytes are the same. -/
theorem nameWord_eq {cs ds : List (BitVec 8)} (h : ∀ j < 8, nameByte cs j = nameByte ds j) :
    nameWord cs = nameWord ds := by
  refine BitVec.eq_of_getLsbD_eq fun k hk ↦ ?_
  have hbyte := h (k / 8) (by omega)
  rw [← byteAt_nameWord cs (by omega), ← byteAt_nameWord ds (by omega)] at hbyte
  have hbit := congrArg (fun b ↦ b.getLsbD (k % 8)) hbyte
  simp only [getLsbD_byteAt _ _ (Nat.mod_lt k (by decide)), Nat.div_add_mod] at hbit
  exact hbit

/-- Behind characters below `0x80` only, a byte is the character. -/
theorem nameByte_of_low {cs : List (BitVec 8)} {j : ℕ}
    (h : ∀ i < j, (cs.getD i 0).msb = false) : nameByte cs j = cs.getD j 0 := by
  induction cs generalizing j with
  | nil => rfl
  | cons c cs ih =>
    rcases j with - | j
    · rfl
    · have hc : c.msb = false := h 0 (Nat.succ_pos j)
      rw [nameByte, hc, if_neg Bool.false_ne_true, ih fun i hi ↦ h (i + 1) (by omega)]
      rfl

/-- **What follows a character from `0x80` on** does not show. -/
theorem nameByte_append {c : BitVec 8} (hc : c.msb = true) (u v v' : List (BitVec 8)) (j : ℕ) :
    nameByte (u ++ c :: v) j = nameByte (u ++ c :: v') j := by
  induction u generalizing j with
  | nil =>
    rcases j with - | j
    · rfl
    · show (if c.msb = true then _ else _) = if c.msb = true then _ else _
      rw [if_pos hc, if_pos hc]
  | cons d u ih =>
    rcases j with - | j
    · rfl
    · show (if d.msb = true then _ else nameByte (u ++ c :: v) j) =
        if d.msb = true then _ else nameByte (u ++ c :: v') j
      rw [ih]

/-! ### Which strings are well named -/

/-- Strings without a zero are known from their first eight characters. -/
theorem CString.eq_of_getD {s t : CString} (hs : s.chars.length ≤ 8) (ht : t.chars.length ≤ 8)
    (h : ∀ j < 8, t.chars.getD j 0 = s.chars.getD j 0) : t = s := by
  have hchars : t.chars = s.chars := by
    refine List.ext_getElem? fun j ↦ ?_
    by_cases hj : j < 8
    · have hget := h j hj
      rw [List.getD_eq_getElem?_getD, List.getD_eq_getElem?_getD] at hget
      cases hcs : s.chars[j]? with
      | none =>
        cases hct : t.chars[j]? with
        | none => rfl
        | some c =>
          rw [hcs, hct] at hget
          exact absurd hget (t.ne_zero c (List.mem_of_getElem? hct))
      | some d =>
        cases hct : t.chars[j]? with
        | none =>
          rw [hcs, hct] at hget
          exact absurd hget.symm (s.ne_zero d (List.mem_of_getElem? hcs))
        | some c =>
          rw [hcs, hct] at hget
          exact congrArg some hget
    · rw [List.getElem?_eq_none (by omega), List.getElem?_eq_none (by omega)]
  exact CString.ext hchars

/-- A short string with low characters is known from its name. -/
theorem eq_of_nameWord {s t : CString} (hs : s.chars.length ≤ 8) (ht : t.chars.length ≤ 8)
    (hlow : ∀ i < 7, (s.chars.getD i 0).msb = false) (h : nameWord t.chars = nameWord s.chars) :
    t = s := by
  refine CString.eq_of_getD hs ht fun j ↦ ?_
  -- character by character: those before are the same, and low
  induction j using Nat.strong_induction_on with
  | _ j ih =>
    intro hj
    have hlow' : ∀ i < j, (t.chars.getD i 0).msb = false := fun i hi ↦ by
      rw [ih i hi (by omega)]
      exact hlow i (by omega)
    rw [← nameByte_of_low hlow', ← nameByte_of_low fun i hi ↦ hlow i (by omega),
      ← byteAt_nameWord _ hj, ← byteAt_nameWord _ hj, h]

/-- A list, filled up to a length. -/
theorem map_range_getD_eq_append {l : List (BitVec 8)} {n : ℕ} (h : l.length ≤ n) :
    (List.range n).map (fun j ↦ l.getD j 0) = l ++ List.replicate (n - l.length) 0 := by
  refine List.ext_getElem (by simp; omega) fun j hj _ ↦ ?_
  rw [List.getElem_map, List.getElem_range, List.getD_eq_getElem?_getD]
  by_cases hlt : j < l.length
  · rw [List.getElem_append_left hlt, List.getElem?_eq_getElem hlt]
    rfl
  · rw [List.getElem_append_right (Nat.le_of_not_lt hlt), List.getElem_replicate,
      List.getElem?_eq_none (Nat.le_of_not_lt hlt)]
    rfl

theorem WellNamed.of_low {s : CString}
    (h : s.chars.length ≤ 8 → ∀ i < 7, (s.chars.getD i 0).msb = false) : WellNamed s where
  none_iff := by
    by_cases hle : s.chars.length ≤ 8
    · rw [convert8byteStringHash_of_le hle]
      exact ⟨nofun, fun hlt ↦ absurd hle (Nat.not_le.2 hlt)⟩
    · exact iff_of_true (convert8byteStringHash_of_lt (Nat.lt_of_not_le hle))
        (Nat.lt_of_not_le hle)
  unsafe_eq hle := by rw [convert8byteStringHash_of_le hle, unsafeHashConvert_of_le hle]
  bytes hash hhash := by
    obtain ⟨hle, rfl⟩ := convert8byteStringHash_eq_some_iff.1 hhash
    rw [← map_range_getD_eq_append hle]
    refine List.map_congr_left fun j hj ↦ ?_
    have hj := List.mem_range.1 hj
    show byteAt (nameWord s.chars) j = s.chars.getD j 0
    rw [byteAt_nameWord _ hj, nameByte_of_low fun i hi ↦ h hle i (by omega)]
  unique hash hhash t ht := by
    obtain ⟨hle, rfl⟩ := convert8byteStringHash_eq_some_iff.1 hhash
    obtain ⟨hle', hword⟩ := convert8byteStringHash_eq_some_iff.1 ht
    exact eq_of_nameWord hle hle' (h hle) hword

/-- **A character from `0x80` on among the first seven** gives its name to another string too. -/
theorem exists_ne_of_msb {s : CString} {i : ℕ} (hi : i < 7)
    (hmsb : (s.chars.getD i 0).msb = true) :
    ∃ t : CString, t ≠ s ∧ t.chars.length ≤ 8 ∧ nameWord t.chars = nameWord s.chars := by
  have hlt : i < s.chars.length := by
    by_contra hge
    rw [List.getD_eq_getElem?_getD, List.getElem?_eq_none (Nat.le_of_not_lt hge)] at hmsb
    exact absurd hmsb (by decide)
  rw [List.getD_eq_getElem _ _ hlt] at hmsb
  obtain ⟨u, v, hlen, hs⟩ : ∃ u v, u.length = i ∧ s.chars = u ++ s.chars[i] :: v :=
    ⟨s.chars.take i, s.chars.drop (i + 1), by rw [List.length_take]; omega,
      by rw [List.getElem_cons_drop, List.take_append_drop]⟩
  -- what follows is dropped, or there is nothing and a character is added
  obtain ⟨v', hne, hlen', hzero⟩ : ∃ v' : List (BitVec 8), v' ≠ v ∧ v'.length ≤ 1 ∧
      ∀ c ∈ v', c ≠ 0 := by
    rcases v with - | ⟨d, v⟩
    · exact ⟨[1], by decide, by decide, by decide⟩
    · exact ⟨[], nofun, by decide, nofun⟩
  refine ⟨⟨u ++ s.chars[i] :: v', fun c hc ↦ ?_⟩, fun heq ↦ hne ?_, ?_, ?_⟩
  · obtain hc | hc := List.mem_append.1 hc
    · exact s.ne_zero c (hs ▸ List.mem_append_left _ hc)
    · obtain rfl | hc := List.mem_cons.1 hc
      · exact s.ne_zero _ (List.getElem_mem hlt)
      · exact hzero c hc
  · have hchars : u ++ s.chars[i] :: v' = u ++ s.chars[i] :: v :=
      (congrArg CString.chars heq).trans hs
    exact (List.cons.inj (List.append_cancel_left hchars)).2
  · rw [List.length_append, List.length_cons, hlen]
    omega
  · refine nameWord_eq fun j _ ↦ ?_
    conv_rhs => rw [hs]
    exact nameByte_append hmsb u v' v j

/-- **A string is well named** exactly if it is too long or none of its first seven characters is
from `0x80` on. -/
theorem wellNamed_iff (s : CString) :
    WellNamed s ↔ (s.chars.length ≤ 8 → ∀ i < 7, (s.chars.getD i 0).msb = false) := by
  refine ⟨fun h hle i hi ↦ ?_, WellNamed.of_low⟩
  by_contra hmsb
  obtain ⟨t, hne, hle', hword⟩ := exists_ne_of_msb hi (Bool.not_eq_false _ ▸ hmsb)
  exact hne (h.unique _ (convert8byteStringHash_of_le hle) t
    (convert8byteStringHash_eq_some_iff.2 ⟨hle', hword⟩))

/-- **`é` and `É`** in UTF-8: two strings, one name, and its bytes are those of neither. -/
theorem not_wellNamed_of_e_acute :
    convert8byteStringHash ⟨[0xC3, 0xA9], by decide⟩ = some 0xFFFFFFFFFFFFFFC3 ∧
      convert8byteStringHash ⟨[0xC3, 0x89], by decide⟩ = some 0xFFFFFFFFFFFFFFC3 ∧
        ¬ WellNamed ⟨[0xC3, 0xA9], by decide⟩ := by
  refine ⟨by decide, by decide, fun h ↦ ?_⟩
  exact absurd (h.bytes _ rfl) (by decide)

end Fstore
