import Mathlib.Data.Bool.AllAny
import Mathlib.Data.Char
import Mathlib.Data.List.DropRight
import Mathlib.Data.List.Infix
import Mathlib.Data.List.Lex
import Mathlib.Data.Rat.Init

/-!
# Python strings

The part of Python's `str` and of its number conversions that text-driven code rests on: stripping
and splitting at white space, splitting at a separator, `splitlines`, prefix tests, `int(s)` and
`int(s, 16)`, `str(n)` and `hex(n)`. A string is the list of its code points.

## What is fixed and what is supplied

White space and line boundaries are short documented sets and are written out. The three character
classes that come from the Unicode tables (`str.isalnum`, `str.isdigit`, decimal digits) and the
text of a float are supplied by the class `Python`, with one law each: on ASCII they are what the
documentation says. Nothing proved over `Python` depends on a particular Unicode version.

The interpreter's cap on the number of digits that `int` accepts is not modelled.
-/

/-- A Python `str`: the list of its code points. -/
abbrev PyStr := List Char

instance : LawfulBEq PyStr := inferInstance

/-- What the interpreter supplies: the character classes of the Unicode tables, each pinned down on
ASCII, and the text of a float (taken at its exact rational value). -/
class Python where
  /-- `str.isalnum` of one character. -/
  isAlnum : Char → Bool
  /-- `str.isdigit` of one character. -/
  isDigit : Char → Bool
  /-- The value of a decimal digit, of any script. -/
  decimal : Char → Option ℕ
  /-- The text of a float. -/
  floatRepr : ℚ → PyStr
  /-- On ASCII, the alphanumeric characters are the letters and digits. -/
  isAlnum_ascii : ∀ c : Char, c.toNat < 128 → isAlnum c = c.isAlphanum
  /-- On ASCII, the digits are `0` to `9`. -/
  isDigit_ascii : ∀ c : Char, c.toNat < 128 → isDigit c = c.isDigit
  /-- On ASCII, a digit has its usual value and nothing else has one. -/
  decimal_ascii : ∀ c : Char, c.toNat < 128 →
    decimal c = if c.isDigit then some (c.toNat - 48) else none

namespace Python

/-- An interpreter whose tables stop at ASCII: what concrete runs are evaluated with. -/
@[reducible] def ascii : Python where
  isAlnum := Char.isAlphanum
  isDigit := Char.isDigit
  decimal c := if c.isDigit then some (c.toNat - 48) else none
  floatRepr q := Int.repr q.num |>.toList
  isAlnum_ascii _ _ := rfl
  isDigit_ascii _ _ := rfl
  decimal_ascii _ _ := rfl

end Python

namespace PyStr

/-! ### White space and lines -/

/-- `str.isspace` of one character; the class `\s` of a regular expression is the same set. -/
def isSpace (c : Char) : Bool :=
  let n := c.toNat
  (9 ≤ n && n ≤ 13) || (28 ≤ n && n ≤ 32) || n == 0x85 || n == 0xA0 || n == 0x1680 ||
    (0x2000 ≤ n && n ≤ 0x200A) || n == 0x2028 || n == 0x2029 || n == 0x202F || n == 0x205F ||
    n == 0x3000

/-- The characters `str.splitlines` breaks at. -/
def isLineBreak (c : Char) : Bool :=
  let n := c.toNat
  (10 ≤ n && n ≤ 13) || (28 ≤ n && n ≤ 30) || n == 0x85 || n == 0x2028 || n == 0x2029

/-- `s.strip()`. -/
def strip (s : PyStr) : PyStr :=
  (s.dropWhile isSpace).rdropWhile isSpace

/-- `s.split()`: the maximal runs without white space. -/
def split (s : PyStr) : List PyStr :=
  (s.splitOnP isSpace).filter (· ≠ [])

/-- The accumulator form of `s.splitlines()`: `cur` holds the current line, last character
first. A final line break does not open another line. -/
def splitlinesFrom (cur : PyStr) : PyStr → List PyStr
  | [] => if cur = [] then [] else [cur.reverse]
  | '\r' :: '\n' :: s => cur.reverse :: splitlinesFrom [] s
  | c :: s =>
    if isLineBreak c then cur.reverse :: splitlinesFrom [] s else splitlinesFrom (c :: cur) s

/-- `s.splitlines()`. -/
def splitlines (s : PyStr) : List PyStr :=
  splitlinesFrom [] s

/-- The accumulator form of `fileLines`: `cur` holds the current line, last character first. -/
def fileLinesFrom (cur : PyStr) : PyStr → List PyStr
  | [] => if cur = [] then [] else [cur.reverse]
  | '\r' :: '\n' :: s => ('\n' :: cur).reverse :: fileLinesFrom [] s
  | c :: s =>
    if c = '\n' ∨ c = '\r' then ('\n' :: cur).reverse :: fileLinesFrom [] s
    else fileLinesFrom (c :: cur) s

/-- The lines that iterating over a file opened as text yields: every line ending is read as a line
feed and kept, and the last line may lack one. -/
def fileLines (s : PyStr) : List PyStr :=
  fileLinesFrom [] s

/-- `s.startswith(p)`. -/
def startswith (s p : PyStr) : Bool :=
  p.isPrefixOf s

/-- `s.endswith(p)`. -/
def endswith (s p : PyStr) : Bool :=
  p.isSuffixOf s

/-- `s.replace(pat, "")` for a non-empty `pat`; `skip` counts the characters of a found occurrence
that are still to be dropped. -/
def removeAll (pat : PyStr) (skip : ℕ) : PyStr → PyStr
  | [] => []
  | c :: s =>
    match skip with
    | k + 1 => removeAll pat k s
    | 0 => if pat.isPrefixOf (c :: s) then removeAll pat (pat.length - 1) s
      else c :: removeAll pat 0 s

/-- `s.encode()`: the bytes of the text in UTF-8. -/
def encode (s : PyStr) : List UInt8 :=
  s.flatMap String.utf8EncodeChar

/-- Text between two characters that are not white space loses only the white space after it. -/
theorem strip_append {s ws : PyStr} {c d : Char} {t u : PyStr} (hs : s = c :: t)
    (hs' : s = u ++ [d]) (hc : isSpace c = false) (hd : isSpace d = false)
    (hws : ∀ x ∈ ws, isSpace x = true) : strip (s ++ ws) = s := by
  have hleft : (s ++ ws).dropWhile isSpace = s ++ ws := by
    rw [hs, List.cons_append, List.dropWhile_cons_of_neg (by simp [hc])]
  have hright : (s ++ ws).rdropWhile isSpace = s := by
    rw [List.rdropWhile, List.reverse_append,
      List.dropWhile_append_of_pos fun x hx ↦ hws x (List.mem_reverse.1 hx), hs',
      List.reverse_append, List.reverse_singleton, List.singleton_append,
      List.dropWhile_cons_of_neg (by simp [hd]), List.reverse_cons, List.reverse_reverse]
  rw [strip, hleft, hright]

/-- An ASCII character is its own encoding. -/
theorem encode_cons_ascii {c : Char} (hc : c.toNat < 128) (s : PyStr) :
    encode (c :: s) = UInt8.ofNat c.toNat :: encode s := by
  have hone : String.utf8EncodeChar c = [UInt8.ofNat c.toNat] := by
    rw [String.utf8EncodeChar]
    exact if_pos (Nat.le_of_lt_succ hc)
  rw [encode, List.flatMap_cons, hone]
  rfl

theorem length_encode_ascii {s : PyStr} (hs : ∀ c ∈ s, c.toNat < 128) :
    (encode s).length = s.length := by
  induction s with
  | nil => rfl
  | cons c s ih =>
    rw [encode_cons_ascii (hs c List.mem_cons_self), List.length_cons, List.length_cons,
      ih fun d hd ↦ hs d (List.mem_cons_of_mem _ hd)]

/-! ### Numbers -/

/-- The value of an ASCII digit or letter in the given base. -/
def digitVal (base : ℕ) (c : Char) : Option ℕ :=
  let n := c.toNat
  let v := if 48 ≤ n && n ≤ 57 then n - 48
    else if 97 ≤ n && n ≤ 122 then n - 87
    else if 65 ≤ n && n ≤ 90 then n - 55
    else base
  if v < base then some v else none

/-- Read digits after a first one; a single underscore may stand between two digits. -/
def digitsFrom (base acc : ℕ) : PyStr → Option ℕ
  | [] => some acc
  | '_' :: c :: s => (digitVal base c).bind fun d ↦ digitsFrom base (acc * base + d) s
  | c :: s => (digitVal base c).bind fun d ↦ digitsFrom base (acc * base + d) s

/-- A non-empty run of digits. -/
def digits (base : ℕ) : PyStr → Option ℕ
  | [] => none
  | c :: s => (digitVal base c).bind fun d ↦ digitsFrom base d s

/-- The white space that `int` skips at both ends. -/
def isCSpace (c : Char) : Bool :=
  c.toNat == 32 || (9 ≤ c.toNat && c.toNat ≤ 13)

/-- Base 16 admits a prefix `0x`, which one underscore may follow. -/
def dropHexPrefix : PyStr → PyStr
  | '0' :: 'x' :: '_' :: s | '0' :: 'X' :: '_' :: s => s
  | '0' :: 'x' :: s | '0' :: 'X' :: s => s
  | s => s

variable [Python]

/-- `int` reads the digits of every script; other white space than ASCII counts as a blank. -/
def toAsciiDigit (c : Char) : Char :=
  if c.toNat < 128 then c
  else match Python.decimal c with
    | some d => Nat.digitChar d
    | none => if isSpace c then ' ' else c

/-- `int(s, base)`, for base 10 or 16; `none` is `ValueError`. -/
def int (base : ℕ) (s : PyStr) : Option ℤ :=
  let t := ((s.map toAsciiDigit).dropWhile isCSpace).rdropWhile isCSpace
  let (neg, u) := match t with
    | '-' :: u => (true, u)
    | '+' :: u => (false, u)
    | u => (false, u)
  let v := if base = 16 then dropHexPrefix u else u
  (digits base v).map fun n : ℕ ↦ if neg then -(n : ℤ) else (n : ℤ)

/-- `s.isdigit()`. -/
def isdigit (s : PyStr) : Bool :=
  s ≠ [] && s.all Python.isDigit

omit [Python] in
/-- `str(n)`. -/
def ofInt : ℤ → PyStr
  | .ofNat n => Nat.toDigits 10 n
  | .negSucc n => '-' :: Nat.toDigits 10 (n + 1)

omit [Python] in
/-- `hex(n)`. -/
def hex : ℤ → PyStr
  | .ofNat n => '0' :: 'x' :: Nat.toDigits 16 n
  | .negSucc n => '-' :: '0' :: 'x' :: Nat.toDigits 16 (n + 1)

omit [Python] in
/-- The characters of a number. -/
theorem mem_ofInt {n : ℤ} {c : Char} (h : c ∈ ofInt n) : c = '-' ∨ c.isDigit = true := by
  cases n with
  | ofNat n => exact Or.inr (Nat.isDigit_of_mem_toDigits (by decide) (by decide) h)
  | negSucc n =>
    rcases List.mem_cons.1 h with h | h
    · exact Or.inl h
    · exact Or.inr (Nat.isDigit_of_mem_toDigits (by decide) (by decide) h)

omit [Python] in
theorem ofInt_natCast_inj {m n : ℕ} (h : ofInt m = ofInt n) : m = n := by
  rw [← Nat.ofDigitChars_ten_toDigits (n := m), ← Nat.ofDigitChars_ten_toDigits (n := n)]
  exact congrArg (Nat.ofDigitChars 10 · 0) h

omit [Python] in
/-- An ASCII digit, by its code point. -/
theorem isDigit_iff {c : Char} : c.isDigit = true ↔ 48 ≤ c.toNat ∧ c.toNat ≤ 57 := by
  rw [Char.isDigit, Bool.and_eq_true, decide_eq_true_iff, decide_eq_true_iff]
  rfl

omit [Python] in
theorem digitVal_of_isDigit {c : Char} (hc : c.isDigit = true) :
    digitVal 10 c = some (c.toNat - 48) := by
  obtain ⟨h1, h2⟩ := isDigit_iff.1 hc
  rw [digitVal]
  simp only [h1, h2, decide_true, Bool.and_self, if_true]
  exact if_pos (by omega)

/-- The number that decimal digits denote, after those read so far. -/
def decimalValue (n : ℕ) (ds : PyStr) : ℕ :=
  ds.foldl (fun n c ↦ n * 10 + (c.toNat - 48)) n

theorem isdigit_of_isDigit {ds : PyStr} (hne : ds ≠ []) (hds : ∀ c ∈ ds, c.isDigit = true) :
    isdigit ds = true := by
  rw [isdigit, Bool.and_eq_true, decide_eq_true_iff]
  refine ⟨hne, List.all_eq_true.2 fun c hc ↦ ?_⟩
  obtain ⟨-, h⟩ := isDigit_iff.1 (hds c hc)
  rw [Python.isDigit_ascii c (by omega)]
  exact hds c hc

end PyStr
