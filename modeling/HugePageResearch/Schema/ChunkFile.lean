import HugePageResearch.Python.Numbers
import Mathlib.Data.List.Sort

/-!
# Chunk files

The names of the files of a run directory, `<table>.<chunk>.parquet`, as `cli/collect.py` writes
them and `_chunk_sort_key` of `data_schema/schema.py` reads them back. The chunk is a number or
`end`.

The sort key of a name is a pair whose second component is a number for some names and the name
itself for others. Python cannot compare the two, so sorting names of both kinds raises.
-/

namespace Schema

/-- How loading fails. -/
inductive LoadError where
  /-- A `ValueError`. -/
  | valueError (message : PyStr)
  /-- The `TypeError` of an order between a number and a string. -/
  | typeError
  /-- A failed `assert`. -/
  | assertionError
  /-- A `KeyError`. -/
  | keyError (key : PyStr)
  /-- A strict cast that Polars refuses. -/
  | castError (message : PyStr)
  deriving DecidableEq

/-! ### Names -/

/-- `f"{table}.{name}.parquet"`. -/
def chunkFile (table name : PyStr) : PyStr :=
  table ++ '.' :: (name ++ ".parquet".toList)

theorem chunkFile_inj {name t t' : PyStr} : chunkFile t name = chunkFile t' name ↔ t = t' :=
  List.append_left_inj _

/-- The middle part of a chunk's name. -/
inductive Chunk where
  /-- Decimal digits. -/
  | number (digits : PyStr) (hne : digits ≠ []) (hdigits : ∀ c ∈ digits, c.isDigit = true)
  /-- `end`. -/
  | last

namespace Chunk

/-- The text in the file name. -/
def text : Chunk → PyStr
  | number digits _ _ => digits
  | last => "end".toList

/-- Numbered chunks by their number, `end` last. -/
def le : Chunk → Chunk → Prop
  | _, last => True
  | last, number _ _ _ => False
  | number d _ _, number d' _ _ => PyStr.decimalValue 0 d ≤ PyStr.decimalValue 0 d'

theorem dot_not_mem_text (c : Chunk) : '.' ∉ c.text := by
  cases c with
  | number digits hne hdigits =>
    intro h
    exact absurd (hdigits '.' h) (by decide)
  | last => decide

end Chunk

/-- **Table and chunk can be read off the name.** The chunk has no dot, so the split is at the last
dot before the suffix. -/
theorem chunkFile_text_inj {t t' : PyStr} {c c' : Chunk}
    (h : chunkFile t c.text = chunkFile t' c'.text) : t = t' ∧ c.text = c'.text := by
  have happ : ∀ (t : PyStr) (c : Chunk),
      chunkFile t c.text = (t ++ '.' :: c.text) ++ ".parquet".toList := by
    intro t c
    rw [chunkFile, List.append_assoc, List.cons_append]
  rw [happ, happ, List.append_left_inj] at h
  have hrev := congrArg List.reverse h
  simp only [List.reverse_append, List.reverse_cons, List.append_assoc,
    List.singleton_append] at hrev
  have hsplit : ∀ c : Chunk, ∀ s : PyStr,
      (c.text.reverse ++ '.' :: s).splitOn '.' = c.text.reverse :: s.splitOn '.' := fun c s ↦
    List.splitOn_append_cons_self_of_not_mem (by
      rw [List.mem_reverse]
      exact c.dot_not_mem_text) s
  have hhead : c.text = c'.text := by
    have := congrArg (List.splitOn '.') hrev
    rw [hsplit, hsplit] at this
    exact List.reverse_injective (List.cons.inj this).1
  rw [hhead, List.append_cancel_left_eq] at hrev
  exact ⟨List.reverse_injective (List.cons.inj hrev).2, hhead⟩

/-! ### The sort key -/

/-- The key of `_chunk_sort_key`: `(0, n)`, `(0, name)` or `(1, 0)`. -/
inductive ChunkKey where
  /-- `(0, int(chunk))`. -/
  | number (n : ℤ)
  /-- `(0, file_path.name)`. -/
  | name (s : PyStr)
  /-- `(1, 0)`. -/
  | last
  deriving DecidableEq

namespace ChunkKey

/-- The order of the keys; a number and a name are never compared. -/
def le : ChunkKey → ChunkKey → Prop
  | _, last => True
  | last, _ => False
  | number m, number n => m ≤ n
  | name s, name t => s ≤ t
  | number _, name _ => True
  | name _, number _ => False

instance : DecidableRel le
  | number m, number n => inferInstanceAs (Decidable (m ≤ n))
  | name s, name t => inferInstanceAs (Decidable (s ≤ t))
  | number _, name _ => inferInstanceAs (Decidable True)
  | name _, number _ => inferInstanceAs (Decidable False)
  | number _, last => inferInstanceAs (Decidable True)
  | name _, last => inferInstanceAs (Decidable True)
  | last, last => inferInstanceAs (Decidable True)
  | last, number _ => inferInstanceAs (Decidable False)
  | last, name _ => inferInstanceAs (Decidable False)

instance : Std.Total le where
  total a b := by
    cases a <;> cases b <;> simp only [le, or_true, or_false]
    · exact le_total _ _
    · exact le_total _ _

instance : IsTrans ChunkKey le where
  trans a b c hab hbc := by
    cases a <;> cases b <;> cases c <;> simp only [le] at hab hbc ⊢
    · exact le_trans hab hbc
    · exact le_trans hab hbc

/-- The key holds a number. -/
def isNumber : ChunkKey → Bool
  | number _ => true
  | _ => false

/-- The key holds a name. -/
def isName : ChunkKey → Bool
  | name _ => true
  | _ => false

end ChunkKey

variable [Python]

/-- `_chunk_sort_key`. -/
def chunkSortKey (name : PyStr) : Except LoadError ChunkKey :=
  let parts := name.splitOn '.'
  if 3 ≤ parts.length then
    let chunk := parts.dropLast.getLast?.getD []
    if chunk = "end".toList then .ok .last
    else if PyStr.isdigit chunk then
      match PyStr.int 10 chunk with
      | some n => .ok (.number n)
      | none => .error (.valueError "invalid literal for int()".toList)
    else .ok (.name name)
  else .ok (.name name)

/-- The key of a chunk. -/
def Chunk.key : Chunk → ChunkKey
  | .number digits _ _ => .number (PyStr.decimalValue 0 digits)
  | .last => .last

omit [Python] in
theorem Chunk.key_le_iff {c c' : Chunk} : c.key.le c'.key ↔ c.le c' := by
  cases c with
  | number d hne hd =>
    cases c' with
    | number d' hne' hd' => exact Int.ofNat_le
    | last => exact Iff.rfl
  | last =>
    cases c' with
    | number d' hne' hd' => exact Iff.rfl
    | last => exact Iff.rfl

omit [Python] in
theorem splitOn_chunkFile {t : PyStr} (ht : '.' ∉ t) (c : Chunk) :
    (chunkFile t c.text).splitOn '.' = [t, c.text, "parquet".toList] := by
  have hsuffix : ".parquet".toList = '.' :: "parquet".toList := rfl
  rw [chunkFile, List.splitOn_append_cons_self_of_not_mem ht, hsuffix,
    List.splitOn_append_cons_self_of_not_mem c.dot_not_mem_text,
    List.splitOn_eq_singleton (by decide)]

/-- **The key of a chunk's name** is the key of the chunk. -/
theorem chunkSortKey_chunkFile {t : PyStr} (ht : '.' ∉ t) (c : Chunk) :
    chunkSortKey (chunkFile t c.text) = .ok c.key := by
  have hchunk : [t, c.text, "parquet".toList].dropLast.getLast?.getD [] = c.text := rfl
  simp only [chunkSortKey, splitOn_chunkFile ht, hchunk]
  cases c with
  | number d hne hd =>
    have hend : d ≠ "end".toList := by
      rintro rfl
      exact absurd (hd 'e' (by decide)) (by decide)
    have htext : (Chunk.number d hne hd).text = d := rfl
    rw [htext, if_neg hend, if_pos (PyStr.isdigit_of_isDigit hne hd),
      PyStr.int_of_isDigit hne hd]
    rfl
  | last => rfl

/-- `file_path.name.split(".", maxsplit=1)[0]`. -/
def tableOf (name : PyStr) : PyStr := name.takeWhile (· ≠ '.')

omit [Python] in
theorem tableOf_chunkFile {t : PyStr} (ht : '.' ∉ t) (name : PyStr) :
    tableOf (chunkFile t name) = t := by
  have hall : ∀ c ∈ t, decide (c ≠ '.') = true := fun c hc ↦
    decide_eq_true fun h ↦ ht (h ▸ hc)
  rw [tableOf, chunkFile, List.takeWhile_append_of_pos hall,
    List.takeWhile_cons_of_neg (by decide), List.append_nil]

omit [Python] in
theorem endswith_chunkFile (t name : PyStr) :
    PyStr.endswith (chunkFile t name) ".parquet".toList = true := by
  rw [PyStr.endswith, List.isSuffixOf_iff_suffix]
  exact ⟨t ++ '.' :: name, by rw [chunkFile, List.append_assoc, List.cons_append]⟩

end Schema
