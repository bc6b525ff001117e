import HugePageResearch.Pages.VAPtrHook
import HugePageResearch.Python.Lines
import HugePageResearch.Python.Numbers
import Mathlib.Data.Nat.Digits.Defs

/-!
# The reply to `VAPTR` and what is read of it

`redis-module/vaptr.c` replies to a list of keys with an array of pairs, the key and the address of
its value as text. `redis-cli --raw` prints every element of the nested arrays on a line of its own,
so that `vaptr_hook.py` has to pair the lines again.

## The result

`parseVaptrOutput_reply`: for keys that are lines by themselves the samples are those of the keys,
in their order, each with the exact address and its page where the key was resolved, and with `n/a`
where it was not.

The text is stripped before it is split, which takes its last line feed only: the first line is a
key and the last an address, and neither begins or ends with white space (`strip_rawText`).
-/

namespace Pages

/-! ### The module -/

/-- What is found under a key. A pointer that is 0 is `NULL`. -/
inductive RedisValue where
  /-- A string, with what `RedisModule_StringDMA` returns. -/
  | string (dma : BitVec 64)
  /-- A hash, with `dictFind` and `dictGetVal` if it is encoded as a hash table. -/
  | hash (dict : Option (PyStr → Option (BitVec 64)))
  /-- Another type. -/
  | other

/-- `LookupHashtableFieldPointer`. -/
def lookupHashtableFieldPointer (dict : Option (PyStr → Option (BitVec 64)))
    (fieldName : PyStr) : Option (BitVec 64) :=
  match dict with
  | none => none
  | some find =>
    match find fieldName with
    | none => none
    | some value => if value = 0 then none else some value

/-- `LookupValuePointer`: the pointer, unless it returns 0. -/
def lookupValuePointer (value : RedisValue) (fieldName : PyStr) : Option (BitVec 64) :=
  match value with
  | .string dma => if dma ≠ 0 then some dma else none
  | .hash dict => lookupHashtableFieldPointer dict fieldName
  | .other => none

/-- `DEFAULT_HASH_FIELD`. -/
def defaultHashField : PyStr := ['f', 'i', 'e', 'l', 'd', '0']

/-- `ParseFieldOption`: the field name and the index of the first key. -/
def parseFieldOption (argv : List PyStr) : PyStr × ℕ :=
  if 4 ≤ argv.length ∧ argv.getD 1 [] = ['F', 'I', 'E', 'L', 'D'] then (argv.getD 2 [], 3)
  else (defaultHashField, 1)

/-- `snprintf` of `0x%lx` into `buf[32]`. -/
def addressText (ptr : BitVec 64) : PyStr := ('0' :: 'x' :: Nat.toDigits 16 ptr.toNat).take 31

/-- `VAPtrCommand`: the nested arrays of the reply, or `none` for a wrong arity. -/
def vaptrCommand (openKey : PyStr → Option RedisValue) (argv : List PyStr) :
    Option (List (List PyStr)) :=
  if argv.length < 2 then none
  else
    let (fieldName, firstKeyIndex) := parseFieldOption argv
    if firstKeyIndex ≥ argv.length then none
    else some ((argv.drop firstKeyIndex).map fun arg ↦
      match openKey arg with
      | none => [arg, ['(', 'n', 'i', 'l', ')']]
      | some value =>
        match lookupValuePointer value fieldName with
        | none => [arg, ['(', 'n', 'i', 'l', ')']]
        | some ptr => [arg, addressText ptr])

/-- The arguments of `_run_vaptr` from `VAPTR` on. -/
def vaptrArgs (fieldName : PyStr) (keyNames : List PyStr) : List PyStr :=
  ['V', 'A', 'P', 'T', 'R'] :: ['F', 'I', 'E', 'L', 'D'] :: fieldName :: keyNames

/-- What `redis-cli --raw` prints: every element of the nested arrays on its own line. -/
def rawText (reply : List (List PyStr)) : PyStr := reply.flatten.flatMap (· ++ ['\n'])

/-! ### What is expected -/

/-- The pointer that a key is resolved to. -/
def resolved (openKey : PyStr → Option RedisValue) (fieldName key : PyStr) : Option (BitVec 64) :=
  (openKey key).bind fun value ↦ lookupValuePointer value fieldName

/-- The text for a key that may be resolved. -/
def elementText : Option (BitVec 64) → PyStr
  | none => ['(', 'n', 'i', 'l', ')']
  | some ptr => addressText ptr

/-- **The sample of a key**, where pages have `2 ^ k` bytes. -/
def replySample (k : ℕ) (key : PyStr) : Option (BitVec 64) → RawSample
  | none => ⟨key, notAvailable, notAvailable, false, none⟩
  | some ptr =>
    let page : ℕ := ptr.toNat / 2 ^ k * 2 ^ k
    ⟨key, PyStr.hex ptr.toNat, PyStr.hex page, true, some page⟩

/-- **A key that is a line by itself**: it is not empty, and has no line separator and no white
space at its ends. -/
structure IsLine (key : PyStr) : Prop where
  ne_nil : key ≠ []
  strip_eq : key.strip = key
  no_break : ∀ c ∈ key, PyStr.isLineBreak c = false

/-! ### Addresses -/

section Addresses

variable (ptr : BitVec 64)

/-- **The buffer holds every address.** -/
theorem addressText_eq : addressText ptr = '0' :: 'x' :: Nat.toDigits 16 ptr.toNat := by
  have hlen : (Nat.toDigits 16 ptr.toNat).length ≤ 16 :=
    Nat.toDigits_length 16 ptr.toNat 16 (by decide) ptr.isLt
  exact List.take_of_length_le (by rw [List.length_cons, List.length_cons]; omega)

theorem hex_toNat : PyStr.hex (ptr.toNat : ℤ) = addressText ptr := (addressText_eq ptr).symm

/-- An address has no white space. -/
theorem isSpace_of_mem_addressText {c : Char} (hc : c ∈ addressText ptr) :
    PyStr.isSpace c = false := by
  rw [addressText_eq] at hc
  rcases List.mem_cons.1 hc with rfl | hc
  · decide
  · rcases List.mem_cons.1 hc with rfl | hc
    · decide
    · exact PyStr.isSpace_of_isAlphanum
        (PyStr.isAlphanum_of_mem_toDigits (by decide) (by decide) hc)

/-- Neither has the text of a key that is not resolved. -/
theorem isSpace_of_mem_elementText {o : Option (BitVec 64)} {c : Char} (hc : c ∈ elementText o) :
    PyStr.isSpace c = false := by
  cases o with
  | none =>
    have hall : ∀ d ∈ elementText none, PyStr.isSpace d = false :=
      List.all_iff_forall_prop.1 (by decide)
    exact hall c hc
  | some ptr => exact isSpace_of_mem_addressText ptr hc

theorem elementText_ne_nil (o : Option (BitVec 64)) : elementText o ≠ [] := by
  cases o with
  | none => exact List.cons_ne_nil _ _
  | some ptr =>
    rw [elementText, addressText_eq]
    exact List.cons_ne_nil _ _

/-- **Clearing the low bits** rounds down to a multiple of a power of two. -/
theorem ldiff_two_pow_sub_one (n k : ℕ) :
    (n : ℤ).ldiff (((2 ^ k : ℕ) : ℤ) - 1) = ((n / 2 ^ k * 2 ^ k : ℕ) : ℤ) := by
  have hcast : ((2 ^ k : ℕ) : ℤ) - 1 = ((2 ^ k - 1 : ℕ) : ℤ) :=
    (Nat.cast_pred (Nat.two_pow_pos k)).symm
  rw [hcast]
  show ((Nat.ldiff n (2 ^ k - 1) : ℕ) : ℤ) = _
  congr 1
  refine Nat.eq_of_testBit_eq fun i ↦ ?_
  rw [Nat.testBit_ldiff, Nat.testBit_two_pow_sub_one, Nat.testBit_mul_two_pow,
    Nat.testBit_div_two_pow]
  by_cases hi : k ≤ i
  · rw [decide_eq_false (Nat.not_lt.2 hi), decide_eq_true hi, Nat.sub_add_cancel hi]
    simp
  · rw [decide_eq_true (Nat.lt_of_not_le hi), decide_eq_false hi]
    simp

variable [Python]

/-- **The sample of a key and its text.** -/
theorem rawSample_elementText (k : ℕ) {key : PyStr} (hkey : key.strip = key)
    (o : Option (BitVec 64)) : rawSample (2 ^ k) key (elementText o) = replySample k key o := by
  have hstrip : (elementText o).strip = elementText o :=
    PyStr.strip_of_forall_not fun c hc ↦ isSpace_of_mem_elementText hc
  rw [rawSample, hstrip, hkey]
  cases o with
  | none => rfl
  | some ptr =>
    have hstart : (elementText (some ptr)).startswith ['0', 'x'] = true := by
      rw [elementText, addressText_eq]
      rfl
    have hint : (elementText (some ptr)).int 16 = some (ptr.toNat : ℤ) := by
      rw [elementText, addressText_eq]
      exact PyStr.int_prefixed 0 ptr.toNat
    rw [if_pos hstart, hint]
    show RawSample.mk key (addressText ptr) (PyStr.hex ((ptr.toNat : ℤ).ldiff _)) true
      (some ((ptr.toNat : ℤ).ldiff _)) = _
    rw [ldiff_two_pow_sub_one, ← hex_toNat]
    rfl

end Addresses

/-! ### The lines of a reply -/

section Lines

variable {openKey : PyStr → Option RedisValue} {fieldName : PyStr} {keys : List PyStr}

/-- The lines of a key. -/
def keyLines (openKey : PyStr → Option RedisValue) (fieldName key : PyStr) : List PyStr :=
  [key, elementText (resolved openKey fieldName key)]

/-- **The reply** pairs each key with its text. -/
theorem vaptrCommand_vaptrArgs (hne : keys ≠ []) :
    vaptrCommand openKey (vaptrArgs fieldName keys) =
      some (keys.map (keyLines openKey fieldName)) := by
  have hpos := List.length_pos_iff.2 hne
  have hlen : (vaptrArgs fieldName keys).length = keys.length + 3 := rfl
  have hfield : parseFieldOption (vaptrArgs fieldName keys) = (fieldName, 3) :=
    if_pos ⟨by omega, rfl⟩
  rw [vaptrCommand, if_neg (by omega), hfield]
  show (if 3 ≥ (vaptrArgs fieldName keys).length then none else some (keys.map _)) = _
  rw [if_neg (by omega)]
  congr 1
  refine List.map_congr_left fun key _ ↦ ?_
  rw [keyLines, resolved]
  cases openKey key with
  | none => rfl
  | some value =>
    show (match lookupValuePointer value fieldName with | none => _ | some ptr => _) = _
    rw [Option.bind_some]
    cases lookupValuePointer value fieldName <;> rfl

/-- **Stripping the text takes its last line feed**, and the lines are read back. -/
theorem splitlines_strip_flatMap {ls : List PyStr} {l : PyStr} (hl : l ≠ [])
    (hbreak : ∀ l' ∈ ls ++ [l], ∀ c ∈ l', PyStr.isLineBreak c = false)
    (hfirst : ∀ c ∈ ((ls ++ [l]).flatMap (· ++ ['\n'])).head?, PyStr.isSpace c = false)
    (hlast : ∀ c ∈ l, PyStr.isSpace c = false) :
    (PyStr.strip ((ls ++ [l]).flatMap (· ++ ['\n']))).splitlines = ls ++ [l] := by
  have htext : (ls ++ [l]).flatMap (· ++ ['\n']) = (ls.flatMap (· ++ ['\n']) ++ l) ++ ['\n'] := by
    rw [List.flatMap_append, List.flatMap_singleton, List.append_assoc]
  have hblank : ∀ c ∈ ['\n'], PyStr.isSpace c = true := List.all_iff_forall_prop.1 (by decide)
  have hstrip : PyStr.strip ((ls ++ [l]).flatMap (· ++ ['\n'])) =
      ls.flatMap (· ++ ['\n']) ++ l := by
    rw [htext, PyStr.strip_append_space hblank]
    refine PyStr.strip_eq_self (fun c hc ↦ hfirst c ?_) fun c hc ↦ ?_
    · rw [htext, List.head?_append, Option.mem_def.1 hc]
      rfl
    · obtain ⟨d, hd⟩ := Option.ne_none_iff_exists'.1
        (fun hnone ↦ hl (List.getLast?_eq_none_iff.1 hnone))
      rw [List.getLast?_append, hd] at hc
      obtain rfl := Option.some.inj hc
      exact hlast d (List.mem_of_getLast? hd)
  rw [hstrip]
  exact PyStr.splitlines_flatMap_append
    (fun l' hl' ↦ hbreak l' (List.mem_append_left _ hl'))
    (hbreak l (List.mem_append_right _ List.mem_cons_self)) hl

/-- The lines of the keys. -/
theorem splitlines_strip_rawText (hne : keys ≠ []) (hkeys : ∀ key ∈ keys, IsLine key) :
    (rawText (keys.map (keyLines openKey fieldName))).strip.splitlines =
      keys.flatMap (keyLines openKey fieldName) := by
  have hlines : ∀ l ∈ keys.flatMap (keyLines openKey fieldName), ∀ c ∈ l,
      PyStr.isLineBreak c = false := fun l hl c hc ↦ by
    obtain ⟨key, hkey, hl⟩ := List.mem_flatMap.1 hl
    rcases List.mem_cons.1 hl with rfl | hl
    · exact (hkeys _ hkey).no_break c hc
    · obtain rfl := List.mem_singleton.1 hl
      exact PyStr.isLineBreak_of_isSpace (isSpace_of_mem_elementText hc)
  have hfirst : ∀ c ∈ ((keys.flatMap (keyLines openKey fieldName)).flatMap (· ++ ['\n'])).head?,
      PyStr.isSpace c = false := fun c hc ↦ by
    rcases keys with - | ⟨key, keys⟩
    · exact absurd rfl hne
    · have hline := hkeys key List.mem_cons_self
      rcases key with - | ⟨d, key⟩
      · exact absurd rfl hline.ne_nil
      · obtain rfl : d = c := Option.some.inj hc
        exact PyStr.isSpace_of_strip_cons hline.strip_eq
  rw [rawText, ← List.flatMap_def]
  obtain ⟨ks, key, rfl⟩ := (List.eq_nil_or_concat' keys).resolve_left hne
  have hconcat : (ks ++ [key]).flatMap (keyLines openKey fieldName) =
      (ks.flatMap (keyLines openKey fieldName) ++ [key]) ++
        [elementText (resolved openKey fieldName key)] := by
    rw [List.flatMap_append, List.flatMap_singleton, List.append_assoc]
    rfl
  rw [hconcat] at hlines hfirst ⊢
  exact splitlines_strip_flatMap (elementText_ne_nil _) hlines hfirst
    fun c hc ↦ isSpace_of_mem_elementText hc

variable [Python]

/-- Two lines at a time, the samples of the keys. -/
theorem rawSamples_flatMap (k : ℕ) (hkeys : ∀ key ∈ keys, IsLine key) :
    rawSamples (2 ^ k) (keys.flatMap (keyLines openKey fieldName)) =
      keys.map fun key ↦ replySample k key (resolved openKey fieldName key) := by
  induction keys with
  | nil => rfl
  | cons key keys ih =>
    obtain ⟨hkey, hkeys⟩ := List.forall_mem_cons.1 hkeys
    rw [List.flatMap_cons, List.map_cons, ← ih hkeys, ← rawSample_elementText k hkey.strip_eq]
    rfl

/-- **What is read of the reply to a list of keys**: one sample for each key, in their order, with
the exact address and its page for a key that is resolved, and with `n/a` for the others. -/
theorem parseVaptrOutput_reply (openKey : PyStr → Option RedisValue) (fieldName : PyStr) (k : ℕ)
    (keys : List PyStr) (hne : keys ≠ []) (hkeys : ∀ key ∈ keys, IsLine key) :
    ∃ reply, vaptrCommand openKey (vaptrArgs fieldName keys) = some reply ∧
      parseVaptrOutput (2 ^ k) (rawText reply).strip =
        keys.map fun key ↦ replySample k key (resolved openKey fieldName key) := by
  refine ⟨_, vaptrCommand_vaptrArgs hne, ?_⟩
  rw [parseVaptrOutput, splitlines_strip_rawText hne hkeys, rawSamples_flatMap k hkeys]

omit [Python] in
/-- A string and a hash without the field. -/
theorem parseVaptrOutput_reply_two : ∃ reply,
    vaptrCommand (fun key ↦ if key = ['a'] then some (.string 0x7F1234)
      else some (.hash (some fun _ ↦ none))) (vaptrArgs defaultHashField [['a'], ['b']]) =
        some reply ∧
      @parseVaptrOutput Python.ascii (2 ^ 12) (rawText reply).strip =
        [⟨['a'], ['0', 'x', '7', 'f', '1', '2', '3', '4'], ['0', 'x', '7', 'f', '1', '0', '0', '0'],
          true, some 0x7F1000⟩, ⟨['b'], notAvailable, notAvailable, false, none⟩] := by
  have hkeys : ∀ key ∈ [['a'], ['b']], IsLine key := fun _ hkey ↦ by
    simp only [List.mem_cons, List.not_mem_nil, or_false] at hkey
    obtain rfl | rfl := hkey
    · exact ⟨List.cons_ne_nil _ _, by decide, List.all_iff_forall_prop.1 (by decide)⟩
    · exact ⟨List.cons_ne_nil _ _, by decide, List.all_iff_forall_prop.1 (by decide)⟩
  obtain ⟨reply, hreply, hsamples⟩ := @parseVaptrOutput_reply Python.ascii
    (fun key ↦ if key = ['a'] then some (.string 0x7F1234)
      else some (.hash (some fun _ ↦ none))) defaultHashField 12 [['a'], ['b']]
    (List.cons_ne_nil _ _) hkeys
  have haddr : PyStr.hex ((0x7F1234 : ℕ) : ℤ) = ['0', 'x', '7', 'f', '1', '2', '3', '4'] := by
    decide +kernel
  have hpage : PyStr.hex ((0x7F1000 : ℕ) : ℤ) = ['0', 'x', '7', 'f', '1', '0', '0', '0'] := by
    decide +kernel
  refine ⟨reply, hreply, hsamples.trans ?_⟩
  rw [← haddr, ← hpage]
  rfl

end Lines

end Pages
