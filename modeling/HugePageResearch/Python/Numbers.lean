import HugePageResearch.Python.Text

/-!
# Numbers in texts

What `int` reads back of a number that was written in a base up to 16, with any number of leading
zeros: `int_decimal` for `int(s)`, `int_hexadecimal` for `int(s, 16)`, `int0_hexadecimal` for
`int(s, 0)`, where the prefix of the text says which base it is.
-/

namespace PyStr

/-! ### Digits of a base -/

/-- The character is a digit of the base. -/
def IsDigitOf (base : ℕ) (c : Char) : Prop := (digitVal base c).isSome

instance (base : ℕ) (c : Char) : Decidable (IsDigitOf base c) :=
  inferInstanceAs (Decidable (_ = true))

/-- The number that digits denote, after those read so far. -/
def digitsValue (base n : ℕ) (ds : PyStr) : ℕ :=
  ds.foldl (fun n c ↦ n * base + (digitVal base c).getD 0) n

variable {base : ℕ} {c : Char} {ds : PyStr}

theorem IsDigitOf.exists (h : IsDigitOf base c) : ∃ d, digitVal base c = some d :=
  Option.isSome_iff_exists.1 h

/-- A digit of a base is an ASCII digit or letter. -/
theorem IsDigitOf.toNat (h : IsDigitOf base c) :
    48 ≤ c.toNat ∧ c.toNat ≤ 57 ∨ 97 ≤ c.toNat ∧ c.toNat ≤ 122 ∨ 65 ≤ c.toNat ∧ c.toNat ≤ 90 := by
  by_contra hnot
  rw [not_or, not_or] at hnot
  obtain ⟨hdigit, hlower, hupper⟩ := hnot
  have hnone : digitVal base c = none := by
    simp only [digitVal, Bool.and_eq_true, decide_eq_true_eq, if_neg hdigit, if_neg hlower,
      if_neg hupper, if_neg (Nat.lt_irrefl base)]
  rw [IsDigitOf, hnone] at h
  exact Bool.false_ne_true h

theorem IsDigitOf.ne_underscore (h : IsDigitOf base c) : c ≠ '_' := by
  rintro rfl
  have hrange := h.toNat
  revert hrange
  decide

/-- Digits are read one by one. -/
theorem digitsFrom_of_isDigitOf (hds : ∀ c ∈ ds, IsDigitOf base c) (n : ℕ) :
    digitsFrom base n ds = some (digitsValue base n ds) := by
  induction ds generalizing n with
  | nil => rfl
  | cons c ds ih =>
    obtain ⟨hc, hds⟩ := List.forall_mem_cons.1 hds
    obtain ⟨d, hd⟩ := hc.exists
    rw [digitsFrom, hd]
    · show digitsFrom base (n * base + d) ds = _
      rw [ih hds, digitsValue, digitsValue, List.foldl_cons, hd, Option.getD_some]
    · exact fun _ _ h ↦ absurd h hc.ne_underscore

theorem digits_of_isDigitOf (hne : ds ≠ []) (hds : ∀ c ∈ ds, IsDigitOf base c) :
    digits base ds = some (digitsValue base 0 ds) := by
  -- the first digit is read apart, since no underscore may stand before it
  obtain ⟨c, t, rfl⟩ := List.exists_cons_of_ne_nil hne
  obtain ⟨hc, ht⟩ := List.forall_mem_cons.1 hds
  obtain ⟨d, hd⟩ := hc.exists
  rw [digits, hd]
  show digitsFrom base d t = _
  rw [digitsFrom_of_isDigitOf ht, digitsValue, digitsValue, List.foldl_cons, hd,
    Option.getD_some, Nat.zero_mul, Nat.zero_add]

/-! ### Numbers that were written -/

theorem digitVal_digitChar {d : ℕ} (hb : base ≤ 16) (hd : d < base) :
    digitVal base (Nat.digitChar d) = some d := by
  have hall : ∀ base < 17, ∀ d < base, digitVal base (Nat.digitChar d) = some d := by decide
  exact hall base (Nat.lt_succ_of_le hb) d hd

/-- **A number that was written in a base** is read back. -/
theorem toDigits_spec (hb : 1 < base) (hb' : base ≤ 16) (n : ℕ) :
    (∀ c ∈ Nat.toDigits base n, IsDigitOf base c) ∧
      digitsValue base 0 (Nat.toDigits base n) = n := by
  induction n using Nat.strong_induction_on with
  | h n ih =>
    rw [Nat.toDigits_eq_if hb]
    split_ifs with hlt
    · have hd := digitVal_digitChar hb' hlt
      refine ⟨fun c hc ↦ ?_, ?_⟩
      · rw [List.mem_singleton.1 hc, IsDigitOf, hd]
        rfl
      · rw [digitsValue, List.foldl_cons, hd]
        simp
    · have hd := digitVal_digitChar hb' (Nat.mod_lt n (Nat.zero_lt_of_lt hb))
      obtain ⟨hdigits, hvalue⟩ := ih (n / base) (Nat.div_lt_self (by omega) hb)
      refine ⟨fun c hc ↦ ?_, ?_⟩
      · rcases List.mem_append.1 hc with hc | hc
        · exact hdigits c hc
        · rw [List.mem_singleton.1 hc, IsDigitOf, hd]
          rfl
      · rw [digitsValue, List.foldl_append]
        show digitsValue base 0 (Nat.toDigits base (n / base)) * base + _ = n
        rw [hvalue, hd, Option.getD_some, Nat.mul_comm, Nat.div_add_mod]

/-- A number with leading zeros, as `%08x` and `%02d` write it. -/
def zeroFilled (base k n : ℕ) : PyStr := List.replicate k '0' ++ Nat.toDigits base n

theorem zeroFilled_ne_nil (k n : ℕ) : zeroFilled base k n ≠ [] :=
  List.append_ne_nil_of_right_ne_nil _ Nat.toDigits_ne_nil

theorem isDigitOf_of_mem_zeroFilled (hb : 1 < base) (hb' : base ≤ 16) {k n : ℕ}
    (hc : c ∈ zeroFilled base k n) : IsDigitOf base c := by
  rcases List.mem_append.1 hc with hc | hc
  · have hzero : digitVal base (Nat.digitChar 0) = some 0 :=
      digitVal_digitChar hb' (Nat.zero_lt_of_lt hb)
    rw [List.eq_of_mem_replicate hc, IsDigitOf]
    exact Option.isSome_of_eq_some hzero
  · exact (toDigits_spec hb hb' n).1 c hc

theorem digits_zeroFilled (hb : 1 < base) (hb' : base ≤ 16) (k n : ℕ) :
    digits base (zeroFilled base k n) = some n := by
  have hzero : digitVal base '0' = some 0 := digitVal_digitChar hb' (Nat.zero_lt_of_lt hb)
  have hzeros : digitsValue base 0 (List.replicate k '0') = 0 := by
    induction k with
    | zero => rfl
    | succ k ih =>
      rw [List.replicate_succ, digitsValue, List.foldl_cons, hzero, Option.getD_some,
        Nat.zero_mul, Nat.zero_add]
      exact ih
  rw [digits_of_isDigitOf (zeroFilled_ne_nil k n)
    fun c hc ↦ isDigitOf_of_mem_zeroFilled hb hb' hc, zeroFilled, digitsValue, List.foldl_append]
  show some (digitsValue base (digitsValue base 0 (List.replicate k '0')) _) = _
  rw [hzeros, (toDigits_spec hb hb' n).2]

/-! ### What `int` reads -/

/-- An alphanumeric ASCII character, by its code point. -/
theorem isAlphanum_iff : c.isAlphanum = true ↔
    48 ≤ c.toNat ∧ c.toNat ≤ 57 ∨ 97 ≤ c.toNat ∧ c.toNat ≤ 122 ∨
      65 ≤ c.toNat ∧ c.toNat ≤ 90 := by
  have hcodes : '0'.val.toNat = 48 ∧ '9'.val.toNat = 57 ∧ 'a'.val.toNat = 97 ∧
      'z'.val.toNat = 122 ∧ 'A'.val.toNat = 65 ∧ 'Z'.val.toNat = 90 := by decide
  delta Char.isAlphanum Char.isAlpha Char.isUpper Char.isLower Char.isDigit
  simp only [Bool.or_eq_true, Bool.and_eq_true, decide_eq_true_eq, ge_iff_le,
    UInt32.le_iff_toNat_le, Char.toNat, hcodes]
  omega

/-- A digit of a base is alphanumeric. -/
theorem IsDigitOf.isAlphanum (h : IsDigitOf base c) : c.isAlphanum = true :=
  isAlphanum_iff.2 h.toNat

/-- A number with leading zeros is alphanumeric. -/
theorem isAlphanum_of_mem_zeroFilled (hb : 1 < base) (hb' : base ≤ 16) {k n : ℕ}
    (hc : c ∈ zeroFilled base k n) : c.isAlphanum = true :=
  (isDigitOf_of_mem_zeroFilled hb hb' hc).isAlphanum

theorem isAlphanum_of_mem_toDigits (hb : 1 < base) (hb' : base ≤ 16) {n : ℕ}
    (hc : c ∈ Nat.toDigits base n) : c.isAlphanum = true :=
  ((toDigits_spec hb hb' n).1 c hc).isAlphanum

theorem isSpace_of_isAlphanum (h : c.isAlphanum = true) : isSpace c = false := by
  have hrange := isAlphanum_iff.1 h
  simp only [isSpace, Bool.or_eq_false_iff, Bool.and_eq_false_iff, decide_eq_false_iff_not,
    beq_eq_false_iff_ne]
  omega

section Int

variable [Python] {s : PyStr}

/-- `int` finds nothing to strip of alphanumeric text. -/
theorem trim_of_isAlphanum (hs : ∀ c ∈ s, c.isAlphanum = true) :
    ((s.map toAsciiDigit).dropWhile isCSpace).rdropWhile isCSpace = s := by
  have hascii : ∀ c ∈ s, toAsciiDigit c = c := fun c hc ↦ by
    have hrange := isAlphanum_iff.1 (hs c hc)
    exact if_pos (by omega)
  have hspace : ∀ c ∈ s, ¬ isCSpace c = true := fun c hc ↦ by
    have hrange := isAlphanum_iff.1 (hs c hc)
    simp only [isCSpace, Bool.or_eq_true, Bool.and_eq_true, decide_eq_true_eq, beq_iff_eq]
    omega
  have hmap : s.map toAsciiDigit = s := (List.map_congr_left hascii).trans (List.map_id s)
  have hleft : s.dropWhile isCSpace = s := by
    rw [List.dropWhile_eq_self_iff]
    exact fun hlen ↦ hspace _ (List.getElem_mem hlen)
  rw [hmap, hleft, List.rdropWhile_eq_self_iff]
  exact fun hne ↦ hspace _ (List.getLast_mem hne)

omit [Python] in
/-- Alphanumeric text has no sign. -/
theorem ne_sign_of_isAlphanum (hs : ∀ c ∈ s, c.isAlphanum = true) (t : PyStr) :
    s ≠ '-' :: t ∧ s ≠ '+' :: t := by
  refine ⟨?_, ?_⟩
  · rintro rfl
    exact absurd (hs '-' List.mem_cons_self) (by decide)
  · rintro rfl
    exact absurd (hs '+' List.mem_cons_self) (by decide)

/-- **`int` of alphanumeric text.** -/
theorem int_of_isAlphanum (hs : ∀ c ∈ s, c.isAlphanum = true) :
    int base s =
      (digits base (if base = 16 then dropHexPrefix s else s)).map fun n : ℕ ↦ (n : ℤ) := by
  rw [int, trim_of_isAlphanum hs]
  split
  rename_i neg u heq
  split at heq
  · exact absurd rfl (ne_sign_of_isAlphanum hs _).1
  · exact absurd rfl (ne_sign_of_isAlphanum hs _).2
  · obtain ⟨rfl, rfl⟩ := Prod.mk.inj heq
    rfl

omit [Python] in
/-- A number has no prefix. -/
theorem dropHexPrefix_zeroFilled (k n : ℕ) :
    dropHexPrefix (zeroFilled 16 k n) = zeroFilled 16 k n := by
  have hx : ∀ c ∈ zeroFilled 16 k n, c ≠ 'x' ∧ c ≠ 'X' := fun c hc ↦ by
    have hdigit : IsDigitOf 16 c := isDigitOf_of_mem_zeroFilled (by decide) (by decide) hc
    refine ⟨?_, ?_⟩
    · rintro rfl
      exact absurd hdigit (by decide)
    · rintro rfl
      exact absurd hdigit (by decide)
  have hmem : ∀ d t, zeroFilled 16 k n = '0' :: d :: t → d ≠ 'x' ∧ d ≠ 'X' := fun d t h ↦
    hx d (h ▸ List.mem_cons_of_mem _ List.mem_cons_self)
  rw [dropHexPrefix]
  · exact fun t h ↦ (hmem _ _ h).1 rfl
  · exact fun t h ↦ (hmem _ _ h).2 rfl
  · exact fun t h ↦ (hmem _ _ h).1 rfl
  · exact fun t h ↦ (hmem _ _ h).2 rfl

/-- **A decimal number** is read back. -/
theorem int_decimal (k n : ℕ) : int 10 (zeroFilled 10 k n) = some (n : ℤ) := by
  rw [int_of_isAlphanum fun c hc ↦ isAlphanum_of_mem_zeroFilled (by decide) (by decide) hc,
    if_neg (by decide), digits_zeroFilled (by decide) (by decide)]
  rfl

/-- **A hexadecimal number** is read back. -/
theorem int_hexadecimal (k n : ℕ) : int 16 (zeroFilled 16 k n) = some (n : ℤ) := by
  rw [int_of_isAlphanum fun c hc ↦ isAlphanum_of_mem_zeroFilled (by decide) (by decide) hc,
    if_pos rfl, dropHexPrefix_zeroFilled, digits_zeroFilled (by decide) (by decide)]
  rfl

/-- **A hexadecimal number behind `0x`** is read back. -/
theorem int_prefixed (k n : ℕ) : int 16 ('0' :: 'x' :: zeroFilled 16 k n) = some (n : ℤ) := by
  have halnum : ∀ c ∈ '0' :: 'x' :: zeroFilled 16 k n, c.isAlphanum = true := fun c hc ↦ by
    rcases List.mem_cons.1 hc with rfl | hc
    · decide
    · rcases List.mem_cons.1 hc with rfl | hc
      · decide
      · exact isAlphanum_of_mem_zeroFilled (by decide) (by decide) hc
  have hdrop : dropHexPrefix ('0' :: 'x' :: zeroFilled 16 k n) = zeroFilled 16 k n := by
    have hunderscore : ∀ t, zeroFilled 16 k n ≠ '_' :: t := fun t h ↦ by
      have hdigit : IsDigitOf 16 '_' := isDigitOf_of_mem_zeroFilled (by decide) (by decide)
        (h ▸ List.mem_cons_self : '_' ∈ zeroFilled 16 k n)
      exact absurd hdigit (by decide)
    rw [dropHexPrefix]
    exact hunderscore
  rw [int_of_isAlphanum halnum, if_pos rfl, hdrop, digits_zeroFilled (by decide) (by decide)]
  rfl

omit [Python] in
theorem digitsValue_of_isDigit (hs : ∀ c ∈ s, c.isDigit = true) (n : ℕ) :
    digitsValue 10 n s = decimalValue n s := by
  induction s generalizing n with
  | nil => rfl
  | cons c s ih =>
    obtain ⟨hc, hs⟩ := List.forall_mem_cons.1 hs
    rw [digitsValue, decimalValue, List.foldl_cons, List.foldl_cons, digitVal_of_isDigit hc]
    exact ih hs _

/-- **`int` of decimal digits** is the number they denote. -/
theorem int_of_isDigit (hne : s ≠ []) (hs : ∀ c ∈ s, c.isDigit = true) :
    int 10 s = some (decimalValue 0 s : ℤ) := by
  have halnum : ∀ c ∈ s, c.isAlphanum = true := fun c hc ↦
    isAlphanum_iff.2 (.inl (isDigit_iff.1 (hs c hc)))
  have hdigits : ∀ c ∈ s, IsDigitOf 10 c := fun c hc ↦ by
    rw [IsDigitOf, digitVal_of_isDigit (hs c hc)]
    rfl
  rw [int_of_isAlphanum halnum, if_neg (by decide), digits_of_isDigitOf hne hdigits,
    digitsValue_of_isDigit hs]
  rfl

/-! ### The base of the text -/

/-- The base that a prefix says, and what follows it; one underscore may stand between. -/
def basePrefix : PyStr → Option (ℕ × PyStr)
  | '0' :: c :: s =>
    let rest := match s with
      | '_' :: s => s
      | s => s
    if c = 'x' ∨ c = 'X' then some (16, rest)
    else if c = 'o' ∨ c = 'O' then some (8, rest)
    else if c = 'b' ∨ c = 'B' then some (2, rest)
    else none
  | _ => none

/-- The digits of a literal: without a prefix it is decimal, and starts with a zero only if it
is zero. -/
def literalDigits (s : PyStr) : Option ℕ :=
  match basePrefix s with
  | some (base, rest) => digits base rest
  | none => (digits 10 s).bind fun n ↦ if s.head? = some '0' ∧ n ≠ 0 then none else some n

/-- `int(s, base=0)`; `none` is `ValueError`. -/
def int0 (s : PyStr) : Option ℤ :=
  let t := ((s.map toAsciiDigit).dropWhile isCSpace).rdropWhile isCSpace
  let (neg, u) := match t with
    | '-' :: u => (true, u)
    | '+' :: u => (false, u)
    | u => (false, u)
  (literalDigits u).map fun n : ℕ ↦ if neg then -(n : ℤ) else (n : ℤ)

/-- **A hexadecimal literal** is read back. -/
theorem int0_hexadecimal (k n : ℕ) : int0 ('0' :: 'x' :: zeroFilled 16 k n) = some (n : ℤ) := by
  have hdigits : ∀ c ∈ zeroFilled 16 k n, IsDigitOf 16 c := fun c hc ↦
    isDigitOf_of_mem_zeroFilled (by decide) (by decide) hc
  have hs : ∀ c ∈ '0' :: 'x' :: zeroFilled 16 k n, c.isAlphanum = true :=
    List.forall_mem_cons.2 ⟨by decide, List.forall_mem_cons.2 ⟨by decide, fun c hc ↦
      (hdigits c hc).isAlphanum⟩⟩
  have hliteral : literalDigits ('0' :: 'x' :: zeroFilled 16 k n) = some n := by
    obtain ⟨c, t, hct⟩ := List.exists_cons_of_ne_nil (@zeroFilled_ne_nil 16 k n)
    have hc : c ≠ '_' := (hdigits c (hct ▸ List.mem_cons_self)).ne_underscore
    have hbase : basePrefix ('0' :: 'x' :: zeroFilled 16 k n) =
        some (16, zeroFilled 16 k n) := by
      rw [hct, basePrefix]
      · exact if_pos (.inl rfl)
      · exact fun s h ↦ hc (List.cons.inj h).1
    rw [literalDigits, hbase]
    exact digits_zeroFilled (by decide) (by decide) k n
  rw [int0, trim_of_isAlphanum hs]
  show (literalDigits ('0' :: 'x' :: zeroFilled 16 k n)).map _ = _
  rw [hliteral]
  rfl

end Int

end PyStr
