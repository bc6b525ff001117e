import HugePageResearch.Python.Dict
import HugePageResearch.Replay.Monitor
import Mathlib.Data.List.Sort

/-!
# Generating breakpoints

`analysis/generate_breakpoints.py` counts the accesses of each key of a MONITOR log and draws up
combinations of breakpoints: for each key, the number of the access before which its page is to be
split. This module embeds the log reader, the merge with the keys file and the five kinds of
combinations, with the random draws supplied.

## The result

`main_neverAccessed_iff` settles what becomes of a key that is listed in the keys file and never
accessed: it gets the value `-1`, the only one that replay acts on, exactly as long as no second
combination is asked for.
-/

namespace Replay

open PyStr Regex

/-! ### `parse_log` -/

section ParseLog

variable [Python]

/-- `_LOG_LINE_RE`. -/
def logLineRe : Regex :=
  cat [plus (cls isDecimal), chr '.', plus (cls isDecimal), plus (cls isSpace), chr '[',
    lazyPlus (cls (· != '\n')), chr ']', plus (cls isSpace)]

omit [Python] in
/-- `_is_replay_split_target`. -/
def isReplaySplitTarget (key : PyStr) : Bool :=
  startswith key "user".toList

/-- The primary key that `parse_log` reads off a line of the log: the second quoted token. -/
def primaryKey (rawLine : PyStr) : Option PyStr :=
  let line := strip rawLine
  if line = [] ∨ startswith line "OK".toList then none
  else if (logLineRe.exec line).isNone then none
  else
    match quotedTokenRe.findall 1 line with
    | _ :: key :: _ => some key
    | _ => none

/-- One turn of the loop of `parse_log`. -/
def countLine (counts : Dict PyStr ℕ) (rawLine : PyStr) : Dict PyStr ℕ :=
  match primaryKey rawLine with
  | some key => if isReplaySplitTarget key then counts.incr key else counts
  | none => counts

/-- `parse_log` of a file with the given text. -/
def parseLog (text : PyStr) : Dict PyStr ℕ :=
  (fileLines text).foldl countLine Dict.empty

theorem foldl_countLine (ls : List PyStr) (c : Dict PyStr ℕ) :
    ls.foldl countLine c = ((ls.filterMap primaryKey).filter isReplaySplitTarget).foldl
      Dict.incr c := by
  induction ls generalizing c with
  | nil => rfl
  | cons l ls ih =>
    rw [List.foldl_cons, ih, countLine]
    rcases hkey : primaryKey l with - | key
    · rw [List.filterMap_cons_none hkey]
    · rw [List.filterMap_cons_some hkey]
      rcases hu : isReplaySplitTarget key with - | -
      · rw [List.filter_cons_of_neg (by simp [hu])]
        simp [hu]
      · rw [List.filter_cons_of_pos hu, List.foldl_cons]
        simp [hu]

/-- **A split target is counted once for each line whose primary key it is.** -/
theorem count_parseLog (text : PyStr) {k : PyStr} (hk : isReplaySplitTarget k = true) :
    (parseLog text).count k = ((fileLines text).filterMap primaryKey).countP (· = k) := by
  rw [parseLog, foldl_countLine, Dict.count_foldl_incr, Dict.count_empty, Nat.zero_add,
    List.countP_filter]
  refine List.countP_congr fun k' _ ↦ ?_
  rw [Bool.and_eq_true, decide_eq_true_eq]
  exact ⟨And.left, fun h ↦ ⟨h, h ▸ hk⟩⟩

/-- Only keys that occur are counted. -/
theorem occurs_of_mem_parseLog {text k : PyStr} (hk : k ∈ (parseLog text).keys) :
    k ∈ (fileLines text).filterMap primaryKey := by
  rw [parseLog, foldl_countLine, Dict.mem_keys_foldl_incr] at hk
  exact (List.mem_filter.1 (hk.resolve_left List.not_mem_nil)).1

end ParseLog

/-! ### Breakpoint values -/

/-- `set_breakpoint` accepts the value for a key with `n` accesses. -/
def InRange (n : ℕ) (v : ℤ) : Prop := 0 ≤ v ∧ v ≤ n + 1

instance (n : ℕ) (v : ℤ) : Decidable (InRange n v) := inferInstanceAs (Decidable (_ ∧ _))

/-- The two errors of `set_breakpoint`. -/
inductive SetBreakpointError where
  /-- `KeyError`: the key has no access count. -/
  | keyError (key : PyStr)
  /-- `ValueError`: the value is outside `[0, maxAccess]`. -/
  | valueError (maxAccess accessNum : ℤ)
  deriving DecidableEq

/-- `set_breakpoint`. -/
def setBreakpoint (breakpoints : Dict PyStr ℤ) (key : PyStr) (accessNum : ℤ)
    (accessCounts : Dict PyStr ℕ) : Except SetBreakpointError (Dict PyStr ℤ) :=
  match accessCounts.get? key with
  | none => .error (.keyError key)
  | some n =>
    if InRange n accessNum then .ok (breakpoints.set key accessNum)
    else .error (.valueError (n + 1) accessNum)

/-- A combination gives each counted key a value that replay is told to understand: `-1`, or one
that `set_breakpoint` accepts. -/
def Valid (accessCounts : Dict PyStr ℕ) (combo : Dict PyStr ℤ) : Prop :=
  ∀ k v, combo.get? k = some v → v = -1 ∨ InRange (accessCounts.count k) v

/-- `set_breakpoint` keeps a combination valid. -/
theorem Valid.setBreakpoint {accessCounts : Dict PyStr ℕ} {bps bps' : Dict PyStr ℤ} {key : PyStr}
    {accessNum : ℤ} (h : Valid accessCounts bps)
    (hset : setBreakpoint bps key accessNum accessCounts = .ok bps') : Valid accessCounts bps' := by
  rw [Replay.setBreakpoint] at hset
  rcases hn : accessCounts.get? key with - | n
  · rw [hn] at hset
    cases hset
  · rw [hn] at hset
    change (if InRange n accessNum then _ else _) = _ at hset
    split_ifs at hset with hrange
    obtain rfl := Except.ok.inj hset
    intro k v hv
    rw [Dict.get?_set] at hv
    split_ifs at hv with hk
    · obtain rfl := Option.some.inj hv
      rw [← hk, Dict.count, hn]
      exact Or.inr hrange
    · exact h k v hv

/-! ### `generate_combinations` -/

/-- `random.randint`, by attempt and by position of the key in it. -/
structure Random where
  /-- The value drawn between two bounds. -/
  randint : ℕ → ℕ → ℤ → ℤ → ℤ
  /-- It lies between them. -/
  randint_mem : ∀ i j a b, a ≤ b → a ≤ randint i j a b ∧ randint i j a b ≤ b

/-- The local state of `generate_combinations`. -/
structure Combos where
  /-- `seen`. -/
  seen : List (List ℤ)
  /-- `combos`. -/
  combos : List (Dict PyStr ℤ)

section Generate

variable (keys : List PyStr) (maxCombos : ℤ)

/-- `_add`. -/
def Combos.add (s : Combos) (values : List ℤ) : Combos :=
  if values ∉ s.seen ∧ (s.combos.length : ℤ) < maxCombos then
    ⟨values :: s.seen, s.combos ++ [Dict.ofZip keys values]⟩
  else s

/-- A loop that adds one tuple in each turn and ends when there are enough combinations. -/
def Combos.addWhileRoom : Combos → List (List ℤ) → Combos
  | s, [] => s
  | s, values :: rest =>
    if maxCombos ≤ s.combos.length then s
    else Combos.addWhileRoom (s.add keys maxCombos values) rest

end Generate

/-- The tuple with the maximum of one key and zeros elsewhere. -/
def singleMax (accessCounts : Dict PyStr ℕ) (keys : List PyStr) (i : ℕ) (key : PyStr) : List ℤ :=
  (List.replicate keys.length 0).set i (accessCounts.count key + 1)

/-- The tuple drawn at one attempt. -/
def randomTuple (rnd : Random) (accessCounts : Dict PyStr ℕ) (keys : List PyStr) (attempt : ℕ) :
    List ℤ :=
  keys.zipIdx.map fun e ↦ rnd.randint attempt e.2 0 (accessCounts.count e.1 + 1)

/-- `generate_combinations`. -/
def generateCombinations (rnd : Random) (accessCounts : Dict PyStr ℕ) (maxCombos : ℤ) :
    List (Dict PyStr ℤ) :=
  if accessCounts.keys = [] then [Dict.empty]
  else
    let keys := accessCounts.keys.insertionSort (· ≤ ·)
    let s : Combos := ⟨[], []⟩
    let s := s.add keys maxCombos (keys.map fun _ ↦ -1)
    let s := s.add keys maxCombos (keys.map fun _ ↦ 0)
    let s := s.add keys maxCombos (keys.map fun k ↦ accessCounts.count k + 1)
    let s := s.addWhileRoom keys maxCombos
      (keys.zipIdx.map fun e ↦ singleMax accessCounts keys e.2 e.1)
    let s := s.addWhileRoom keys maxCombos
      ((List.range (maxCombos * 10).toNat).map (randomTuple rnd accessCounts keys))
    s.combos

/-! ### `main` -/

/-- The keys that a keys file lists: its lines, stripped, without the empty ones. -/
def listedKeys (text : PyStr) : List PyStr :=
  ((fileLines text).map strip).filter (· ≠ [])

/-- The loop of `main` over the keys file. -/
def mergeKeys (accessCounts : Dict PyStr ℕ) (text : PyStr) : Dict PyStr ℕ :=
  (fileLines text).foldl
    (fun counts line ↦
      let key := strip line
      if key ≠ [] ∧ key ∉ counts.keys then counts.set key 0 else counts) accessCounts

/-- The combinations that `main` writes, from the texts of the log and of the keys file. -/
def main [Python] (rnd : Random) (log : PyStr) (keysFile : Option PyStr) (maxCombos : ℤ) :
    List (Dict PyStr ℤ) :=
  let accessCounts := parseLog log
  let accessCounts := keysFile.elim accessCounts (mergeKeys accessCounts)
  generateCombinations rnd accessCounts maxCombos

/-! ### Adding a tuple -/

section Add

variable {keys : List PyStr} {maxCombos : ℤ} {s : Combos} {values : List ℤ}

theorem Combos.add_of_full (h : maxCombos ≤ s.combos.length) : s.add keys maxCombos values = s :=
  if_neg fun hadd ↦ absurd hadd.2 (not_lt.2 h)

theorem Combos.addWhileRoom_of_full (h : maxCombos ≤ s.combos.length) (vs : List (List ℤ)) :
    s.addWhileRoom keys maxCombos vs = s := by
  rcases vs with - | ⟨v, vs⟩
  · rfl
  · rw [addWhileRoom, if_pos h]

theorem Combos.add_of_room (hseen : values ∉ s.seen) (h : (s.combos.length : ℤ) < maxCombos) :
    s.add keys maxCombos values = ⟨values :: s.seen, s.combos ++ [Dict.ofZip keys values]⟩ :=
  if_pos ⟨hseen, h⟩

theorem Combos.subset_add : s.combos ⊆ (s.add keys maxCombos values).combos := by
  rw [add]
  split_ifs
  · exact List.subset_append_left _ _
  · exact List.Subset.refl _

theorem Combos.subset_addWhileRoom (vs : List (List ℤ)) :
    s.combos ⊆ (s.addWhileRoom keys maxCombos vs).combos := by
  induction vs generalizing s with
  | nil => exact List.Subset.refl _
  | cons v vs ih =>
    rw [addWhileRoom]
    split_ifs
    · exact List.Subset.refl _
    · exact List.Subset.trans subset_add ih

end Add

/-! ### The shape of the output -/

section Shape

variable (rnd : Random) (accessCounts : Dict PyStr ℕ)

/-- The keys of every combination, in order. -/
theorem nodup_sortedKeys : (accessCounts.keys.insertionSort (· ≤ ·)).Nodup :=
  (List.perm_insertionSort _ _).nodup_iff.2 accessCounts.nodupKeys

theorem mem_sortedKeys {k : PyStr} :
    k ∈ accessCounts.keys.insertionSort (· ≤ ·) ↔ k ∈ accessCounts.keys :=
  (List.perm_insertionSort _ _).mem_iff

theorem inRange_zero (n : ℕ) : InRange n 0 := ⟨le_rfl, by omega⟩

theorem inRange_max (n : ℕ) : InRange n (n + 1) := ⟨by omega, le_rfl⟩

/-- **A first combination is the only one** that at most one allows: every key at `-1`. -/
theorem get?_of_le_one {maxCombos : ℤ} (hmax : maxCombos ≤ 1) {combo : Dict PyStr ℤ}
    (h : combo ∈ generateCombinations rnd accessCounts maxCombos) {k : PyStr}
    (hk : k ∈ accessCounts.keys) : combo.get? k = some (-1) := by
  rw [generateCombinations, if_neg (List.ne_nil_of_mem hk)] at h
  dsimp only at h
  set keys := accessCounts.keys.insertionSort (· ≤ ·) with hkeys
  set s := Combos.add keys maxCombos ⟨[], []⟩ (keys.map fun _ ↦ -1) with hs
  -- after the first tuple there is no room
  have hroom : maxCombos ≤ s.combos.length ∧
      (combo ∈ s.combos → combo = Dict.ofZip keys (keys.map fun _ ↦ -1)) := by
    by_cases hpos : 0 < maxCombos
    · rw [hs, Combos.add_of_room List.not_mem_nil hpos]
      exact ⟨hmax, List.mem_singleton.1⟩
    · have hfull : maxCombos ≤ ((⟨[], []⟩ : Combos).combos.length : ℤ) := not_lt.1 hpos
      rw [hs, Combos.add_of_full hfull]
      exact ⟨hfull, fun hmem ↦ absurd hmem List.not_mem_nil⟩
  rw [Combos.add_of_full hroom.1, Combos.add_of_full hroom.1, Combos.addWhileRoom_of_full hroom.1,
    Combos.addWhileRoom_of_full hroom.1] at h
  rw [hroom.2 h, Dict.get?_ofZip (nodup_sortedKeys accessCounts), List.zip_map_right]
  refine List.mem_map.2 ⟨(k, k), ?_, rfl⟩
  rw [List.zip_eq_zipWith, List.zipWith_self]
  exact List.mem_map_of_mem ((mem_sortedKeys accessCounts).2 hk)

/-- **The second combination**, where two are allowed, has every key at 0. -/
theorem exists_zero_combo {maxCombos : ℤ} (hmax : 1 < maxCombos) {k : PyStr}
    (hk : k ∈ accessCounts.keys) :
    ∃ combo ∈ generateCombinations rnd accessCounts maxCombos, combo.get? k = some 0 := by
  set keys := accessCounts.keys.insertionSort (· ≤ ·) with hkeys
  have hk' : k ∈ keys := (mem_sortedKeys accessCounts).2 hk
  have hne : keys.map (fun _ ↦ (0 : ℤ)) ∉ [keys.map fun _ ↦ (-1 : ℤ)] := by
    rw [List.mem_singleton]
    intro heq
    exact absurd (List.map_inj_left.1 heq k hk') (by decide)
  refine ⟨Dict.ofZip keys (keys.map fun _ ↦ 0), ?_, ?_⟩
  · rw [generateCombinations, if_neg (List.ne_nil_of_mem hk)]
    dsimp only
    refine Combos.subset_addWhileRoom _ (Combos.subset_addWhileRoom _ (Combos.subset_add ?_))
    rw [Combos.add_of_room (s := ⟨[], []⟩) List.not_mem_nil (lt_trans Int.zero_lt_one hmax),
      Combos.add_of_room hne hmax]
    exact List.mem_append_right _ (List.mem_singleton_self _)
  · rw [Dict.get?_ofZip (nodup_sortedKeys accessCounts), List.zip_map_right]
    refine List.mem_map.2 ⟨(k, k), ?_, rfl⟩
    rw [List.zip_eq_zipWith, List.zipWith_self]
    exact List.mem_map_of_mem hk'

end Shape

/-! ### Keys that are never accessed -/

section NeverAccessed

theorem mergeKeys_eq (c : Dict PyStr ℕ) (text : PyStr) : mergeKeys c text =
    (listedKeys text).foldl (fun c k ↦ if k ∈ c.keys then c else c.set k 0) c := by
  rw [mergeKeys, listedKeys]
  generalize fileLines text = ls
  induction ls generalizing c with
  | nil => rfl
  | cons l ls ih =>
    rw [List.foldl_cons, ih, List.map_cons]
    by_cases hl : strip l = []
    · rw [List.filter_cons_of_neg (by simp [hl]), if_neg fun h ↦ h.1 hl]
    · rw [List.filter_cons_of_pos (by simp [hl]), List.foldl_cons]
      by_cases hk : strip l ∈ c.keys
      · rw [if_neg fun h ↦ h.2 hk, if_pos hk]
      · rw [if_pos ⟨hl, hk⟩, if_neg hk]

/-- The merge adds the listed keys. -/
theorem mem_keys_mergeKeys (c : Dict PyStr ℕ) (text k : PyStr) :
    k ∈ (mergeKeys c text).keys ↔ k ∈ c.keys ∨ k ∈ listedKeys text := by
  rw [mergeKeys_eq]
  generalize listedKeys text = ks
  induction ks generalizing c with
  | nil => simp
  | cons k' ks ih =>
    rw [List.foldl_cons, ih, List.mem_cons, ← or_assoc]
    refine or_congr_left ?_
    split_ifs with hk
    · exact ⟨Or.inl, fun h ↦ h.elim id fun h ↦ h ▸ hk⟩
    · rw [Dict.keys_set, if_neg hk, List.mem_append, List.mem_singleton]

variable [Python]

/-- A key of the keys file that is the primary key of no line of the log. -/
def NeverAccessed (log : PyStr) (keysFile : Option PyStr) (k : PyStr) : Prop :=
  k ∈ keysFile.elim [] listedKeys ∧ k ∉ (fileLines log).filterMap primaryKey

instance (log : PyStr) (keysFile : Option PyStr) (k : PyStr) :
    Decidable (NeverAccessed log keysFile k) :=
  inferInstanceAs (Decidable (_ ∧ _))

omit [Python] in
/-- Replay of a trace with `n` accesses of a key acts on the value: before the trace, or before one
of these accesses. -/
def ActedOn (n : ℕ) (v : ℤ) : Prop := v = -1 ∨ 0 ≤ v ∧ v < n

/-- Every combination gives every key that is never accessed the value `-1`, and so none that the
replay cannot reach. -/
def BrokenBeforeReplay (log : PyStr) (keysFile : Option PyStr) (combos : List (Dict PyStr ℤ)) :
    Prop :=
  ∀ combo ∈ combos, ∀ k, NeverAccessed log keysFile k →
    combo.get? k = some (-1) ∧ ∀ v, combo.get? k = some v → ActedOn 0 v

/-- The access count of a key that is never accessed is 0. -/
theorem NeverAccessed.count_parseLog {log : PyStr} {keysFile : Option PyStr} {k : PyStr}
    (h : NeverAccessed log keysFile k) : (parseLog log).count k = 0 := by
  rw [Dict.count, Dict.get?_eq_none fun hk ↦ h.2 (occurs_of_mem_parseLog hk)]
  rfl

/-- **Keys that are never accessed are broken before the replay, and only then, exactly where there
are none or a single combination is asked for.** -/
theorem main_neverAccessed_iff (rnd : Random) (log : PyStr) (keysFile : Option PyStr)
    (maxCombos : ℤ) : BrokenBeforeReplay log keysFile (main rnd log keysFile maxCombos) ↔
      (∀ k, ¬ NeverAccessed log keysFile k) ∨ maxCombos ≤ 1 := by
  have hmem : ∀ k, NeverAccessed log keysFile k →
      k ∈ (keysFile.elim (parseLog log) (mergeKeys (parseLog log))).keys := by
    intro k hk
    rcases keysFile with - | text
    · exact absurd hk.1 List.not_mem_nil
    · exact (mem_keys_mergeKeys _ _ _).2 (Or.inr hk.1)
  constructor
  · intro h
    by_contra hnot
    obtain ⟨hex, hmax⟩ := not_or.1 hnot
    obtain ⟨k, hk⟩ := not_forall_not.1 hex
    obtain ⟨combo, hcombo, hzero⟩ := exists_zero_combo rnd _ (not_le.1 hmax) (hmem k hk)
    have hone := (h combo hcombo k hk).1
    rw [hzero] at hone
    exact absurd (Option.some.inj hone) (by decide)
  · rintro (hnone | hmax) combo hcombo k hk
    · exact absurd hk (hnone k)
    · have hone := get?_of_le_one rnd _ hmax hcombo (hmem k hk)
      refine ⟨hone, fun v hv ↦ ?_⟩
      rw [hone] at hv
      exact Or.inl (Option.some.inj hv).symm

end NeverAccessed

/-- The lowest draw, every time. -/
def Random.low : Random where
  randint _ _ a _ := a
  randint_mem _ _ _ _ h := ⟨le_rfl, h⟩

/-- The header `1.2 [0 a:1] `. -/
def shortHeader : LineHeader where
  sec := ['1']
  frac := ['2']
  db := ['0']
  addr := ['a', ':', '1']
  sec_ne := by decide
  sec_digits := List.all_iff_forall_prop.1 (by decide)
  frac_ne := by decide
  frac_digits := List.all_iff_forall_prop.1 (by decide)
  db_ne := by decide
  db_digits := List.all_iff_forall_prop.1 (by decide)
  addr_ne := by decide
  addr_noSpace := List.all_iff_forall_prop.1 (by decide)

/-- The key `user1`. -/
def user1 : PyStr := ['u', 's', 'e', 'r', '1']

/-- The key `user2`. -/
def user2 : PyStr := ['u', 's', 'e', 'r', '2']

/-- A log in which `user1` is read once. -/
def oneRead : PyStr :=
  shortHeader.text ++ joinQuoted [['G', 'E', 'T'], user1] ++ ['\n']

/-- A keys file that lists both keys. -/
def bothListed : PyStr :=
  user1 ++ '\n' :: user2 ++ ['\n']

/-- `user2` is listed and never read; the second combination tells the replay to split it before an
access that never comes. -/
theorem not_brokenBeforeReplay_oneRead : ¬ @BrokenBeforeReplay Python.ascii oneRead
    (some bothListed) (@main Python.ascii Random.low oneRead (some bothListed) 10) := by
  intro h
  have hnever : @NeverAccessed Python.ascii oneRead (some bothListed) user2 := by
    decide +kernel
  have hkey : user2 ∈ (mergeKeys (@parseLog Python.ascii oneRead) bothListed).keys := by
    decide +kernel
  obtain ⟨combo, hcombo, hzero⟩ :=
    exists_zero_combo Random.low _ (show (1 : ℤ) < 10 by decide) hkey
  exact absurd ((h combo hcombo _ hnever).1.symm.trans hzero) (by decide)

end Replay
