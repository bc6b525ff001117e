import HugePageResearch.Library.Lists
import HugePageResearch.Python.Regex
import Mathlib.Data.List.Nodup
import Mathlib.Logic.Function.Basic

/-!
# Kernel tunables around a benchmark

`setup_system` of `data_collection/replay_trace.py` saves what eight files of the kernel show and
writes the settings of a benchmark into them; `teardown_system` writes back what was saved;
`run_benchmark` puts the benchmark between the two. Two of the files are selectors: they show all
options with the active one in brackets and accept a single option.

## The results

* `roundTrip_iff`: teardown undoes setup exactly where the two words that setup selects are on offer
  and the two that were active consist of word characters: the pattern that looks for the active
  word does not know of the plus sign in `defer+madvise`.
* `runBenchmark_restores_iff`: a benchmark leaves the tunables as they were exactly where no write
  of the setup raises, or none of those before it changed anything: the setup runs outside the
  block whose end restores.

The kernel is a state with invariants (`Kernel`), and both results rest on what one write does to
it (`value_write`) and on what a list of writes does (`writeAll_eq`).
-/

namespace Replay

open Lists PyStr Regex

/-! ### The files -/

/-- The files that `setup_system` writes. -/
inductive Tunable where
  /-- `_THP_PATH`. -/
  | thp
  /-- `_THP_DEFRAG_PATH`. -/
  | thpDefrag
  /-- `_KHUGEPAGED_SLEEP_PATH`. -/
  | khugepagedSleep
  /-- `_NUMA_BALANCING_PATH`. -/
  | numaBalancing
  /-- `_SWAPPINESS_PATH`. -/
  | swappiness
  /-- `_OVERCOMMIT_PATH`. -/
  | overcommit
  /-- `_COMPACTION_PROACTIVENESS_PATH`. -/
  | compactionProactiveness
  /-- `_KSM_PATH`. -/
  | ksm
  deriving DecidableEq

/-- The file shows a list of options. -/
def Tunable.isSelector : Tunable → Bool
  | thp | thpDefrag => true
  | _ => false

/-- The file may be missing. -/
def Tunable.isOptional : Tunable → Bool
  | compactionProactiveness | ksm => true
  | _ => false

/-- The characters of an option word. -/
def isOptionChar (c : Char) : Bool :=
  c.isAlphanum || c == '_' || c == '+'

/-- A selector: its options, of which one is active. -/
structure Selector where
  /-- The options. -/
  options : List PyStr
  /-- The active one. -/
  active : PyStr
  /-- The active one is an option. -/
  active_mem : active ∈ options
  /-- An option is not empty. -/
  options_ne : ∀ o ∈ options, o ≠ []
  /-- An option is a word. -/
  options_word : ∀ o ∈ options, ∀ c ∈ o, isOptionChar c = true

/-- The text is an integer. -/
def isNumeral (s : PyStr) : Bool :=
  match s with
  | '-' :: ds => ds ≠ [] && ds.all Char.isDigit
  | ds => ds ≠ [] && ds.all Char.isDigit

/-- What a file of the kernel holds. -/
inductive File where
  /-- Options. -/
  | selector (s : Selector)
  /-- A number, by its text. -/
  | number (text : PyStr) (h : isNumeral text = true)

namespace File

/-- The file holds options. -/
def isSelector : File → Bool
  | selector _ => true
  | number _ _ => false

/-- The setting of a file. -/
def value : File → PyStr
  | selector s => s.active
  | number text _ => text

/-- Words one blank apart. -/
def joinWords : List PyStr → PyStr
  | [] => []
  | [w] => w
  | w :: w' :: ws => w ++ ' ' :: joinWords (w' :: ws)

/-- An option as it is shown. -/
def mark (active o : PyStr) : PyStr :=
  if o = active then '[' :: o ++ [']'] else o

/-- What the file shows, without the line feed at its end. -/
def line : File → PyStr
  | selector s => joinWords (s.options.map (mark s.active))
  | number text _ => text

/-- What reading the file gives. -/
def shown (f : File) : PyStr := f.line ++ ['\n']

/-- Write a text, of which the kernel ignores the line feed at its end: a selector accepts one of
its options, a number an integer. -/
def write (f : File) (text : PyStr) : Option File :=
  match f with
  | selector s => if h : text ∈ s.options then some (selector { s with
      active := text, active_mem := h }) else none
  | number _ _ => if h : isNumeral text = true then some (number text h) else none

end File

/-- The kernel's files. -/
structure Kernel where
  /-- The file, where it exists. -/
  file : Tunable → Option File
  /-- Its kind is fixed. -/
  kind : ∀ t f, file t = some f → f.isSelector = t.isSelector
  /-- Only the optional files may be missing. -/
  present : ∀ t, t.isOptional = false → (file t).isSome

theorem File.isSelector_of_write {f f' : File} {text : PyStr} (h : f.write text = some f') :
    f'.isSelector = f.isSelector := by
  rcases f with s | ⟨n, hn⟩
  · rw [write] at h
    split_ifs at h
    rw [← Option.some.inj h]
    rfl
  · rw [write] at h
    split_ifs at h
    rw [← Option.some.inj h]
    rfl

namespace Kernel

/-- The setting of a tunable. -/
def value (K : Kernel) (t : Tunable) : Option PyStr := (K.file t).map File.value

/-- What a file shows. -/
def shown (K : Kernel) (t : Tunable) : Option PyStr := (K.file t).map File.shown

/-- Replace a file by what a write makes of it. -/
def update (K : Kernel) (t : Tunable) (f f' : File) (text : PyStr) (hf : K.file t = some f)
    (hw : f.write text = some f') : Kernel where
  file := Function.update K.file t (some f')
  kind t' g hg := by
    rcases eq_or_ne t' t with rfl | ht
    · rw [Function.update_self] at hg
      rw [← Option.some.inj hg, File.isSelector_of_write hw]
      exact K.kind t' f hf
    · rw [Function.update_of_ne ht] at hg
      exact K.kind t' g hg
  present t' ht' := by
    rcases eq_or_ne t' t with rfl | ht
    · rw [Function.update_self]
      rfl
    · rw [Function.update_of_ne ht]
      exact K.present t' ht'

/-- Write a text into a file; `none` where there is no file or the kernel rejects the text. -/
def write (K : Kernel) (t : Tunable) (text : PyStr) : Option Kernel :=
  match hf : K.file t with
  | none => none
  | some f =>
    match hw : f.write text with
    | none => none
    | some f' => some (K.update t f f' text hf hw)

/-- A write goes through exactly where the file exists and accepts the text. -/
theorem write_eq_some {K K' : Kernel} {t : Tunable} {text : PyStr} (h : K.write t text = some K') :
    ∃ f f', K.file t = some f ∧ f.write text = some f' ∧
      K'.file = Function.update K.file t (some f') := by
  rw [write] at h
  split at h
  · cases h
  · split at h
    · cases h
    · rename_i f hf f' hw
      exact ⟨f, f', hf, hw, by rw [← Option.some.inj h]; rfl⟩

theorem exists_write {K : Kernel} {t : Tunable} {text : PyStr} {f f' : File}
    (hf : K.file t = some f) (hw : f.write text = some f') : ∃ K', K.write t text = some K' := by
  rw [write]
  split
  · rename_i hnone
    cases hf.symm.trans hnone
  · rename_i g hg
    obtain rfl := Option.some.inj (hf.symm.trans hg)
    split
    · rename_i hnone
      cases hw.symm.trans hnone
    · exact ⟨_, rfl⟩

end Kernel

/-! ### The shell -/

/-- `bash -c "echo {value} > {path}"`, as far as the value that arrives in the file, without the
line feed that `echo` adds. The value stands unquoted. -/
structure Shell where
  /-- The text that is written. -/
  echo : PyStr → PyStr
  /-- A word of option characters is written as it is. -/
  echo_word : ∀ w, w ≠ [] → (∀ c ∈ w, isOptionChar c = true) → echo w = w
  /-- A number is written as it is. -/
  echo_number : ∀ w, isNumeral w = true → echo w = w
  /-- Of several words each stays, or is replaced by names of files that match it: a blank remains
  between two of them. -/
  echo_words : ∀ ws : List PyStr, 2 ≤ ws.length → (∀ w ∈ ws, w ≠ []) →
    (∀ w ∈ ws, ∀ c ∈ w, isOptionChar c = true ∨ c = '[' ∨ c = ']') → ' ' ∈ echo (File.joinWords ws)

/-! ### `setup_system` and `teardown_system` -/

/-- `SystemConfig`: what the files showed. -/
structure SystemConfig where
  /-- `thp_enabled`. -/
  thpEnabled : PyStr
  /-- `thp_defrag`. -/
  thpDefrag : PyStr
  /-- `khugepaged_scan_sleep_ms`. -/
  khugepagedScanSleepMs : PyStr
  /-- `numa_balancing`. -/
  numaBalancing : PyStr
  /-- `swappiness`. -/
  swappiness : PyStr
  /-- `overcommit_memory`. -/
  overcommitMemory : PyStr
  /-- `compaction_proactiveness`, where the file exists. -/
  compactionProactiveness : Option PyStr
  /-- `ksm_run`, where the file exists. -/
  ksmRun : Option PyStr

/-- A tuple of writes, in order. -/
abbrev Writes := List (Tunable × PyStr)

/-- The writes of `setup_system`. -/
def setupWrites (config : SystemConfig) : Writes :=
  [(.thp, "always".toList), (.thpDefrag, "never".toList),
    (.khugepagedSleep, "4294967295".toList), (.numaBalancing, "0".toList),
    (.swappiness, "0".toList), (.overcommit, "1".toList)] ++
  (if config.compactionProactiveness.isSome then [(.compactionProactiveness, "0".toList)]
    else []) ++
  if config.ksmRun.isSome then [(.ksm, "0".toList)] else []

section Restore

variable [Python]

/-- `\w`. -/
def isWordChar (c : Char) : Bool := Python.isAlnum c || c == '_'

/-- `\[(\w+)\]`. -/
def activeWordRe : Regex := cat [chr '[', group 1 (plus (cls isWordChar)), chr ']']

/-- What `teardown_system` writes back of a saved selector. -/
def restoredWord (raw : PyStr) : PyStr :=
  match activeWordRe.search raw with
  | some m => (m.group 1).getD []
  | none => raw

/-- The writes of `teardown_system`. -/
def teardownWrites (config : SystemConfig) : Writes :=
  [(.thp, restoredWord config.thpEnabled), (.thpDefrag, restoredWord config.thpDefrag),
    (.khugepagedSleep, config.khugepagedScanSleepMs), (.numaBalancing, config.numaBalancing),
    (.swappiness, config.swappiness), (.overcommit, config.overcommitMemory)] ++
  (config.compactionProactiveness.elim [] fun v ↦ [(.compactionProactiveness, v)]) ++
  config.ksmRun.elim [] fun v ↦ [(.ksm, v)]

end Restore

/-- Which reads and writes of the setup are made to raise. -/
structure Faults where
  /-- Reading a file raises. -/
  read : Tunable → Bool
  /-- The command that writes a file exits with an error. -/
  write : Tunable → Bool

/-- No fault. -/
def Faults.none : Faults := ⟨fun _ ↦ false, fun _ ↦ false⟩

/-- `path.read_text().strip()`; `none` where it raises. -/
def readTunable (faults : Faults) (K : Kernel) (t : Tunable) : Option PyStr :=
  if faults.read t then none else (K.shown t).map strip

/-- The same where the file exists, and `None` where it does not. -/
def readOptional (faults : Faults) (K : Kernel) (t : Tunable) : Option (Option PyStr) :=
  if (K.file t).isSome then (readTunable faults K t).map some else some none

/-- The snapshot that `setup_system` takes first. -/
def snapshot (faults : Faults) (K : Kernel) : Option SystemConfig := do
  let thpEnabled ← readTunable faults K .thp
  let thpDefrag ← readTunable faults K .thpDefrag
  let khugepagedScanSleepMs ← readTunable faults K .khugepagedSleep
  let numaBalancing ← readTunable faults K .numaBalancing
  let swappiness ← readTunable faults K .swappiness
  let overcommitMemory ← readTunable faults K .overcommit
  let compactionProactiveness ← readOptional faults K .compactionProactiveness
  let ksmRun ← readOptional faults K .ksm
  return ⟨thpEnabled, thpDefrag, khugepagedScanSleepMs, numaBalancing, swappiness,
    overcommitMemory, compactionProactiveness, ksmRun⟩

/-- One `_sysfs_write`; `none` where it raises. -/
def sysfsWrite (sh : Shell) (faults : Faults) (K : Kernel) (w : Tunable × PyStr) : Option Kernel :=
  if faults.write w.1 then none else K.write w.1 (sh.echo w.2)

/-- A list of writes, and whether all of them went through. -/
def writeAll (sh : Shell) (faults : Faults) : Kernel → Writes → Kernel × Bool
  | K, [] => (K, true)
  | K, w :: ws =>
    match sysfsWrite sh faults K w with
    | none => (K, false)
    | some K' => writeAll sh faults K' ws

/-- `setup_system`: the files it leaves, and the snapshot where it returns one. -/
def setupSystem (sh : Shell) (faults : Faults) (K : Kernel) : Kernel × Option SystemConfig :=
  match snapshot faults K with
  | none => (K, none)
  | some config =>
    let r := writeAll sh faults K (setupWrites config)
    (r.1, if r.2 then some config else none)

/-- `teardown_system`: the files it leaves, and whether it returns. -/
def teardownSystem [Python] (sh : Shell) (faults : Faults) (K : Kernel) (config : SystemConfig) :
    Kernel × Bool :=
  writeAll sh faults K (teardownWrites config)

/-! ### What a file shows -/

theorem range_of_isAlphanum {c : Char} (h : c.isAlphanum = true) :
    33 ≤ c.toNat ∧ c.toNat < 128 := by
  change (decide (65 ≤ c.val ∧ c.val ≤ 90) || decide (97 ≤ c.val) && decide (c.val ≤ 122) ||
    decide (48 ≤ c.val) && decide (c.val ≤ 57)) = true at h
  simp only [Bool.or_eq_true, Bool.and_eq_true, decide_eq_true_eq, UInt32.le_iff_toNat_le] at h
  change ((65 ≤ c.toNat ∧ c.toNat ≤ 90) ∨ (97 ≤ c.toNat ∧ c.toNat ≤ 122)) ∨
    (48 ≤ c.toNat ∧ c.toNat ≤ 57) at h
  omega

theorem range_of_isOptionChar {c : Char} (h : isOptionChar c = true) :
    33 ≤ c.toNat ∧ c.toNat < 128 := by
  simp only [isOptionChar, Bool.or_eq_true, beq_iff_eq] at h
  rcases h with (h | rfl) | rfl
  · exact range_of_isAlphanum h
  · decide
  · decide

theorem isSpace_of_isOptionChar {c : Char} (h : isOptionChar c = true) : isSpace c = false := by
  have := range_of_isOptionChar h
  simp [isSpace]
  omega

namespace File

theorem joinWords_cons (w : PyStr) (ws : List PyStr) :
    ∃ t, joinWords (w :: ws) = w ++ t := by
  rcases ws with - | ⟨w', ws⟩
  · exact ⟨[], (List.append_nil w).symm⟩
  · exact ⟨_, rfl⟩

theorem joinWords_getLast {ws : List PyStr} (hne : ws ≠ []) :
    ∃ t, ∃ w ∈ ws, joinWords ws = t ++ w := by
  induction ws with
  | nil => exact absurd rfl hne
  | cons w ws ih =>
    rcases ws with - | ⟨w', ws⟩
    · exact ⟨[], w, List.mem_cons_self, rfl⟩
    · obtain ⟨t, v, hv, ht⟩ := ih (List.cons_ne_nil _ _)
      exact ⟨w ++ ' ' :: t, v, List.mem_cons_of_mem _ hv, by rw [joinWords, ht]; simp⟩

/-- An option as it is shown is not empty, and consists of option characters and brackets. -/
theorem mark_spec (s : Selector) {w : PyStr} (hw : w ∈ s.options.map (mark s.active)) :
    w ≠ [] ∧ ∀ c ∈ w, isOptionChar c = true ∨ c = '[' ∨ c = ']' := by
  obtain ⟨o, ho, rfl⟩ := List.mem_map.1 hw
  have hchars := s.options_word o ho
  rw [mark]
  split_ifs
  · refine ⟨List.cons_ne_nil _ _, fun c hc ↦ ?_⟩
    simp only [List.mem_cons, List.mem_append, List.not_mem_nil, or_false] at hc
    rcases hc with (rfl | hc) | rfl
    · exact Or.inr (Or.inl rfl)
    · exact Or.inl (hchars c hc)
    · exact Or.inr (Or.inr rfl)
  · exact ⟨s.options_ne o ho, fun c hc ↦ Or.inl (hchars c hc)⟩

theorem isSpace_of_mark {s : Selector} {w : PyStr} (hw : w ∈ s.options.map (mark s.active))
    {c : Char} (hc : c ∈ w) : isSpace c = false := by
  rcases (mark_spec s hw).2 c hc with hc | rfl | rfl
  · exact isSpace_of_isOptionChar hc
  · decide
  · decide

theorem isNumeral_ne {text : PyStr} (h : isNumeral text = true) : text ≠ [] := by
  rintro rfl
  cases h

/-- The characters of a numeral. -/
theorem mem_of_isNumeral {text : PyStr} (h : isNumeral text = true) {c : Char} (hc : c ∈ text) :
    c = '-' ∨ c.isDigit = true := by
  rw [isNumeral.eq_def] at h
  split at h
  · rw [Bool.and_eq_true] at h
    rcases List.mem_cons.1 hc with rfl | hc
    · exact Or.inl rfl
    · exact Or.inr (List.all_eq_true.1 h.2 c hc)
  · rw [Bool.and_eq_true] at h
    exact Or.inr (List.all_eq_true.1 h.2 c hc)

/-- What a file shows is not empty, and neither begins nor ends with white space. -/
theorem line_ends (f : File) : ∃ c t u d, f.line = c :: t ∧ f.line = u ++ [d] ∧
    isSpace c = false ∧ isSpace d = false := by
  rcases f with s | ⟨text, h⟩
  · have hne : s.options.map (mark s.active) ≠ [] :=
      List.ne_nil_of_mem (List.mem_map_of_mem s.active_mem)
    obtain ⟨w, ws, hws⟩ := List.exists_cons_of_ne_nil hne
    obtain ⟨t, ht⟩ := joinWords_cons w ws
    obtain ⟨u, v, hv, hu⟩ := joinWords_getLast hne
    have hw : w ∈ s.options.map (mark s.active) := by rw [hws]; exact List.mem_cons_self
    obtain ⟨c, w', hc⟩ := List.exists_cons_of_ne_nil (mark_spec s hw).1
    have hlast := List.dropLast_append_getLast (mark_spec s hv).1
    refine ⟨c, w' ++ t, u ++ v.dropLast, v.getLast (mark_spec s hv).1, ?_, ?_,
      isSpace_of_mark hw (by rw [hc]; exact List.mem_cons_self),
      isSpace_of_mark hv (List.getLast_mem _)⟩
    · rw [line, hws, ht, hc, List.cons_append]
    · rw [line, hu, List.append_assoc, hlast]
  · have hne := isNumeral_ne h
    have hspace : ∀ c ∈ text, isSpace c = false := by
      intro c hc
      rcases mem_of_isNumeral h hc with rfl | hc
      · decide
      · obtain ⟨h1, h2⟩ := isDigit_iff.1 hc
        simp [isSpace]
        omega
    obtain ⟨c, t, hc⟩ := List.exists_cons_of_ne_nil hne
    exact ⟨c, t, text.dropLast, text.getLast hne, hc, (List.dropLast_append_getLast hne).symm,
      hspace c (by rw [hc]; exact List.mem_cons_self), hspace _ (List.getLast_mem _)⟩

/-- Stripping what a file shows removes the line feed. -/
theorem strip_shown (f : File) : strip f.shown = f.line := by
  obtain ⟨c, t, u, d, hfirst, hlast, hc, hd⟩ := f.line_ends
  exact strip_append hfirst hlast hc hd (List.all_iff_forall_prop.1 (by decide))

end File

/-! ### Looking for the active word -/

section ActiveWord

variable [Python] {a : PyStr}

theorem isWordChar_of_isOptionChar {c : Char} (h : isOptionChar c = true) (hplus : c ≠ '+') :
    isWordChar c = true := by
  rw [isOptionChar, Bool.or_eq_true, beq_iff_eq] at h
  rw [isWordChar, Python.isAlnum_ascii c]
  · exact h.resolve_right hplus
  · exact (range_of_isOptionChar (by rw [isOptionChar, Bool.or_eq_true, beq_iff_eq]; exact h)).2

theorem isWordChar_plus : isWordChar '+' = false := by
  rw [isWordChar, Python.isAlnum_ascii '+' (by decide)]
  decide

theorem isWordChar_bracket : isWordChar ']' = false := by
  rw [isWordChar, Python.isAlnum_ascii ']' (by decide)]
  decide

theorem exec_activeWordRe_of_ne {c : Char} (hc : c ≠ '[') (s : PyStr) :
    activeWordRe.exec (c :: s) = none := by
  simp [activeWordRe, exec, hc]

/-- A bracketed word is found. -/
theorem exec_activeWordRe (hne : a ≠ []) (ha : ∀ c ∈ a, isWordChar c = true) (t : PyStr) :
    activeWordRe.exec ('[' :: (a ++ ']' :: t)) = some ⟨[(1, a)], t⟩ := by
  rw [exec, activeWordRe, matchK_cat_cons, matchK_chr_cons, if_pos rfl, matchK_cat_cons]
  refine matchK_group_plus_cls_run _ _ _ 1 hne ha ?_ ?_
  · intro d hd
    obtain rfl : d = ']' := by simpa using hd.symm
    exact isWordChar_bracket
  · rw [matchK_cat_cons, matchK_chr_cons, if_pos rfl]
    rfl

/-- **A bracketed word with a plus sign in it is not found**: no run of word characters from the
bracket ends in front of the other one. -/
theorem exec_activeWordRe_plus (ha : ∀ c ∈ a, isOptionChar c = true) (hplus : '+' ∈ a)
    (t : PyStr) : activeWordRe.exec ('[' :: (a ++ ']' :: t)) = none := by
  obtain ⟨l, r, rfl⟩ := List.append_of_mem hplus
  -- after a run of word characters from within the word comes a character of it
  have hstop : ∀ m u, l ++ '+' :: (r ++ ']' :: t) = m ++ u → (∀ c ∈ m, isWordChar c = true) →
      ∃ c u', u = c :: u' ∧ c ≠ ']' := by
    intro m u heq hm
    rcases List.append_eq_append_iff.1 heq with ⟨m', rfl, hu⟩ | ⟨l', rfl, rfl⟩
    · rcases m' with - | ⟨c, m'⟩
      · exact ⟨'+', _, hu.symm, by decide⟩
      · have hc : c = '+' := (List.cons.inj hu).1.symm
        rw [hc] at hm
        have := hm '+' (List.mem_append_right _ List.mem_cons_self)
        rw [isWordChar_plus] at this
        cases this
    · rcases l' with - | ⟨c, l'⟩
      · exact ⟨'+', _, rfl, by decide⟩
      · refine ⟨c, _, rfl, ?_⟩
        rintro rfl
        have := ha ']' (by simp)
        exact absurd this (by decide)
  have hk : ∀ (g : List (ℕ × PyStr)) (m u : PyStr), l ++ '+' :: (r ++ ']' :: t) = m ++ u →
      (∀ c ∈ m, isWordChar c = true) → matchK (cat [chr ']']) ⟨g, u⟩ some = none := by
    intro g m u heq hm
    obtain ⟨c, u', rfl, hc⟩ := hstop m u heq hm
    rw [matchK_cat_cons, matchK_chr_cons, if_neg hc]
  rw [exec, activeWordRe, matchK_cat_cons, matchK_chr_cons, if_pos rfl, matchK_cat_cons,
    matchK_group, List.append_assoc, List.cons_append]
  exact matchK_plus_cls_eq_none _ _ _ fun m u heq hm ↦ hk _ m u heq hm

/-- The search over options that are not active passes over them. -/
theorem search_mark_of_ne {o : PyStr} (ho : ∀ c ∈ o, isOptionChar c = true) (hne : o ≠ a)
    (t : PyStr) : activeWordRe.search (File.mark a o ++ t) = activeWordRe.search t := by
  rw [File.mark, if_neg hne]
  refine search_skip activeWordRe fun c hc s ↦ exec_activeWordRe_of_ne ?_ s
  rintro rfl
  exact absurd (ho '[' hc) (by decide)

theorem search_blank (t : PyStr) : activeWordRe.search (' ' :: t) = activeWordRe.search t := by
  rw [search, exec_activeWordRe_of_ne (by decide), Option.none_or]

/-- **The active word is found** where it consists of word characters. -/
theorem search_joinWords {os : List PyStr} (hos : ∀ o ∈ os, ∀ c ∈ o, isOptionChar c = true)
    (hmem : a ∈ os) (hne : a ≠ []) (hplus : '+' ∉ a) :
    ∃ t, activeWordRe.search (File.joinWords (os.map (File.mark a))) = some ⟨[(1, a)], t⟩ := by
  have ha : ∀ c ∈ a, isWordChar c = true := fun c hc ↦
    isWordChar_of_isOptionChar (hos a hmem c hc) fun h ↦ hplus (h ▸ hc)
  induction os with
  | nil => exact absurd hmem List.not_mem_nil
  | cons o os ih =>
    obtain ⟨ho, hos⟩ := List.forall_mem_cons.1 hos
    rcases eq_or_ne o a with rfl | hoa
    · obtain ⟨t, ht⟩ := File.joinWords_cons (File.mark o o) (os.map (File.mark o))
      refine ⟨t, ?_⟩
      rw [List.map_cons, ht, File.mark, if_pos rfl]
      refine search_of_exec activeWordRe ?_
      rw [← exec_activeWordRe hne ha t]
      simp
    · have hmem' : a ∈ os := (List.mem_cons.1 hmem).resolve_left (Ne.symm hoa)
      rcases os with - | ⟨o', os⟩
      · exact absurd hmem' List.not_mem_nil
      · rw [List.map_cons, List.map_cons, File.joinWords, search_mark_of_ne ho hoa, search_blank]
        exact ih hos hmem'

/-- **No word is found** where the active one has a plus sign in it. -/
theorem search_joinWords_plus {os : List PyStr} (hos : ∀ o ∈ os, ∀ c ∈ o, isOptionChar c = true)
    (hplus : '+' ∈ a) : activeWordRe.search (File.joinWords (os.map (File.mark a))) = none := by
  have hword : ∀ o ∈ os, ∀ t, activeWordRe.search t = none →
      activeWordRe.search (File.mark a o ++ t) = none := by
    intro o ho t ht
    rcases eq_or_ne o a with rfl | hoa
    · have hskip : activeWordRe.search ((o ++ [']']) ++ t) = activeWordRe.search t := by
        refine search_skip activeWordRe fun c hc s ↦ exec_activeWordRe_of_ne ?_ s
        rintro rfl
        rcases List.mem_append.1 hc with hc | hc
        · exact absurd (hos o ho '[' hc) (by decide)
        · exact absurd (List.mem_singleton.1 hc) (by decide)
      have hnone := exec_activeWordRe_plus (hos o ho) hplus t
      rw [File.mark, if_pos rfl]
      show activeWordRe.search ('[' :: ((o ++ [']']) ++ t)) = none
      rw [search, hskip, ht, Option.or_none, List.append_assoc]
      exact hnone
    · rw [search_mark_of_ne (hos o ho) hoa, ht]
  have hnil : activeWordRe.search [] = none := rfl
  induction os with
  | nil => exact hnil
  | cons o os ih =>
    rcases os with - | ⟨o', os⟩
    · have := hword o List.mem_cons_self [] hnil
      rwa [List.append_nil] at this
    · rw [List.map_cons, List.map_cons, File.joinWords]
      refine hword o List.mem_cons_self _ ?_
      rw [search_blank]
      exact ih (fun p hp ↦ hos p (List.mem_cons_of_mem _ hp))
        fun p hp ↦ hword p (List.mem_cons_of_mem _ hp)

/-- **What is written back of a selector**: the active word, or all that was shown. -/
theorem restoredWord_line (s : Selector) : restoredWord (File.selector s).line =
    if '+' ∈ s.active then (File.selector s).line else s.active := by
  rw [restoredWord, File.line]
  split_ifs with hplus
  · rw [search_joinWords_plus s.options_word hplus]
  · obtain ⟨t, ht⟩ := search_joinWords s.options_word s.active_mem
      (s.options_ne _ s.active_mem) hplus
    rw [ht]
    rfl

end ActiveWord

/-! ### What writes do -/

namespace File

/-- The options of a selector. -/
def options : File → Option (List PyStr)
  | selector s => some s.options
  | number _ _ => none

/-- A file with the given options accepts the text. -/
def Accepts (os : Option (List PyStr)) (text : PyStr) : Prop :=
  os.elim (isNumeral text = true) (text ∈ ·)

/-- A write goes through where the text is accepted; it changes the setting and nothing else. -/
theorem write_spec (f : File) (text : PyStr) :
    (Accepts f.options text → (f.write text).isSome) ∧
    ∀ f', f.write text = some f' →
      Accepts f.options text ∧ f'.options = f.options ∧ f'.value = text := by
  rcases f with s | ⟨n, hn⟩
  · rw [write]
    split_ifs with h
    · exact ⟨fun _ ↦ rfl, fun f' hf ↦ by rw [← Option.some.inj hf]; exact ⟨h, rfl, rfl⟩⟩
    · exact ⟨fun h' ↦ absurd h' h, fun f' hf ↦ by cases hf⟩
  · rw [write]
    split_ifs with h
    · exact ⟨fun _ ↦ rfl, fun f' hf ↦ by rw [← Option.some.inj hf]; exact ⟨h, rfl, rfl⟩⟩
    · exact ⟨fun h' ↦ absurd h' h, fun f' hf ↦ by cases hf⟩

/-- What a file shows depends on its options and its setting only. -/
theorem shown_congr {f f' : File} (ho : f.options = f'.options) (hv : f.value = f'.value) :
    f.shown = f'.shown := by
  rcases f with s | ⟨n, hn⟩ <;> rcases f' with s' | ⟨n', hn'⟩
  · have ho : s.options = s'.options := Option.some.inj ho
    have hv : s.active = s'.active := hv
    rw [shown, shown, line, line, ho, hv]
  · cases ho
  · cases ho
  · have hv : n = n' := hv
    rw [shown, shown, line, line, hv]

end File

namespace Kernel

/-- The options behind a tunable, where the file exists. -/
def options (K : Kernel) (t : Tunable) : Option (Option (List PyStr)) := (K.file t).map File.options

/-- The file exists and accepts the text. -/
def Accepts (K : Kernel) (t : Tunable) (text : PyStr) : Prop :=
  ∃ os, K.options t = some os ∧ File.Accepts os text

theorem Accepts.congr {K K' : Kernel} {t : Tunable} {text : PyStr}
    (h : K.options t = K'.options t) : K.Accepts t text ↔ K'.Accepts t text := by
  rw [Accepts, Accepts, h]

/-- **One write**: where it is accepted it changes the setting of its file and nothing else. -/
theorem value_write {K K' : Kernel} {t : Tunable} {text : PyStr} (h : K.write t text = some K') :
    K.Accepts t text ∧ (∀ t', K'.options t' = K.options t') ∧
      ∀ t', K'.value t' = if t' = t then some text else K.value t' := by
  obtain ⟨f, f', hf, hw, hfile⟩ := write_eq_some h
  obtain ⟨hacc, hopts, hval⟩ := (f.write_spec text).2 f' hw
  refine ⟨⟨f.options, by rw [options, hf]; rfl, hacc⟩, fun t' ↦ ?_, fun t' ↦ ?_⟩
  · rw [options, options, hfile]
    rcases eq_or_ne t' t with rfl | ht
    · rw [Function.update_self, hf, Option.map_some, Option.map_some, hopts]
    · rw [Function.update_of_ne ht]
  · rw [value, value, hfile]
    rcases eq_or_ne t' t with rfl | ht
    · rw [Function.update_self, if_pos rfl, Option.map_some, hval]
    · rw [Function.update_of_ne ht, if_neg ht]

theorem isSome_write {K : Kernel} {t : Tunable} {text : PyStr} :
    (K.write t text).isSome ↔ K.Accepts t text := by
  constructor
  · intro h
    obtain ⟨K', hK⟩ := Option.isSome_iff_exists.1 h
    exact (value_write hK).1
  · rintro ⟨os, hos, hacc⟩
    rw [options, Option.map_eq_some_iff] at hos
    obtain ⟨f, hf, rfl⟩ := hos
    obtain ⟨f', hw⟩ := Option.isSome_iff_exists.1 ((f.write_spec text).1 hacc)
    obtain ⟨K', hK⟩ := exists_write hf hw
    rw [hK]
    rfl

end Kernel

/-- A write goes through. -/
def Goes (sh : Shell) (faults : Faults) (K : Kernel) (w : Tunable × PyStr) : Prop :=
  faults.write w.1 = false ∧ K.Accepts w.1 (sh.echo w.2)

section WriteAll

variable {sh : Shell} {faults : Faults} {K K' : Kernel}

theorem Goes.congr {w : Tunable × PyStr} (h : ∀ t, K'.options t = K.options t) :
    Goes sh faults K' w ↔ Goes sh faults K w :=
  and_congr_right fun _ ↦ Kernel.Accepts.congr (h w.1)

theorem sysfsWrite_eq_none {w : Tunable × PyStr} :
    sysfsWrite sh faults K w = none ↔ ¬ Goes sh faults K w := by
  rw [sysfsWrite, Goes, ← Kernel.isSome_write]
  split_ifs with hf
  · simp [hf]
  · simp [hf, Option.isSome_iff_ne_none]

/-- **A list of writes** to different files: those before the first that does not go through are
done, and nothing else is changed. -/
theorem writeAll_eq (ws : Writes) (hnd : (ws.map Prod.fst).Nodup) :
    ∃ done rest, ws = done ++ rest ∧ (∀ w ∈ done, Goes sh faults K w) ∧
      (∀ w ∈ rest.head?, ¬ Goes sh faults K w) ∧
      ((writeAll sh faults K ws).2 = true ↔ rest = []) ∧
      (∀ t, (writeAll sh faults K ws).1.options t = K.options t) ∧
      (∀ w ∈ done, (writeAll sh faults K ws).1.value w.1 = some (sh.echo w.2)) ∧
      ∀ t, t ∉ done.map Prod.fst → (writeAll sh faults K ws).1.value t = K.value t := by
  induction ws generalizing K with
  | nil => exact ⟨[], [], rfl, by simp, by simp, by simp [writeAll], fun _ ↦ rfl, by simp,
      fun _ _ ↦ rfl⟩
  | cons w ws ih =>
    obtain ⟨hw, hnd⟩ := List.nodup_cons.1 hnd
    rw [writeAll]
    rcases hstep : sysfsWrite sh faults K w with - | K₁
    · have hstop := sysfsWrite_eq_none.1 hstep
      exact ⟨[], w :: ws, rfl, by simp, by simpa using hstop, by simp, fun _ ↦ rfl, by simp,
        fun _ _ ↦ rfl⟩
    · have hgoes : Goes sh faults K w := by
        by_contra hnot
        cases (sysfsWrite_eq_none.2 hnot).symm.trans hstep
      have hwrite : K.write w.1 (sh.echo w.2) = some K₁ := by
        rwa [sysfsWrite, if_neg (by rw [hgoes.1]; exact Bool.false_ne_true)] at hstep
      obtain ⟨-, hopts, hval⟩ := Kernel.value_write hwrite
      obtain ⟨done, rest, rfl, hdone, hrest, hok, hopts', hval', hkeep⟩ := ih hnd (K := K₁)
      have hnot : w.1 ∉ done.map Prod.fst := fun h ↦ hw (by
        rw [List.map_append]
        exact List.mem_append_left _ h)
      refine ⟨w :: done, rest, rfl, List.forall_mem_cons.2 ⟨hgoes, fun v hv ↦
        (Goes.congr hopts).1 (hdone v hv)⟩, fun v hv ↦ mt (Goes.congr hopts).2 (hrest v hv), hok,
        fun t ↦ (hopts' t).trans (hopts t), List.forall_mem_cons.2 ⟨?_, hval'⟩, fun t ht ↦ ?_⟩
      · dsimp only
        rw [hkeep _ hnot, hval, if_pos rfl]
      · obtain ⟨htw, ht⟩ := List.ne_and_not_mem_of_not_mem_cons ht
        dsimp only
        rw [hkeep t ht, hval, if_neg htw]

/-- A list of writes goes through where each of them does. -/
theorem writeAll_ok_iff {ws : Writes} (hnd : (ws.map Prod.fst).Nodup) :
    (writeAll sh faults K ws).2 = true ↔ ∀ w ∈ ws, Goes sh faults K w := by
  obtain ⟨done, rest, hws, hdone, hrest, hok, -⟩ := @writeAll_eq sh faults K ws hnd
  rw [hok]
  constructor
  · rintro rfl
    rwa [hws, List.append_nil]
  · intro hgoes
    rcases rest with - | ⟨w, rest⟩
    · rfl
    · exact absurd (hgoes w (by rw [hws]; exact List.mem_append_right _ List.mem_cons_self))
        (hrest w rfl)

/-- A list of writes that all go through. -/
theorem writeAll_of_goes {ws : Writes} (hnd : (ws.map Prod.fst).Nodup)
    (hgoes : ∀ w ∈ ws, Goes sh faults K w) : (writeAll sh faults K ws).2 = true ∧
      (∀ t, (writeAll sh faults K ws).1.options t = K.options t) ∧
      (∀ w ∈ ws, (writeAll sh faults K ws).1.value w.1 = some (sh.echo w.2)) ∧
      ∀ t, t ∉ ws.map Prod.fst → (writeAll sh faults K ws).1.value t = K.value t := by
  obtain ⟨done, rest, hws, -, -, hok, hopts, hval, hkeep⟩ := @writeAll_eq sh faults K ws hnd
  have hnil := hok.1 ((writeAll_ok_iff hnd).2 hgoes)
  rw [hnil, List.append_nil] at hws
  rw [← hws] at hval hkeep
  exact ⟨hok.2 hnil, hopts, hval, hkeep⟩

end WriteAll

/-! ### The lists of writes -/

/-- The files, in the order in which they are written. -/
def allTunables : List Tunable :=
  [.thp, .thpDefrag, .khugepagedSleep, .numaBalancing, .swappiness, .overcommit,
    .compactionProactiveness, .ksm]

theorem mem_allTunables (t : Tunable) : t ∈ allTunables := by
  rcases t <;> decide

/-- The writes of one text into each of some files. -/
def writesOf (text : Tunable → Option PyStr) : Writes :=
  allTunables.filterMap fun t ↦ (text t).map (t, ·)

theorem mem_writesOf {text : Tunable → Option PyStr} {w : Tunable × PyStr} :
    w ∈ writesOf text ↔ text w.1 = some w.2 := by
  rw [writesOf, List.mem_filterMap]
  constructor
  · rintro ⟨t, -, ht⟩
    obtain ⟨v, hv, rfl⟩ := Option.map_eq_some_iff.1 ht
    exact hv
  · intro h
    exact ⟨w.1, mem_allTunables _, by rw [h]; rfl⟩

theorem nodup_writesOf (text : Tunable → Option PyStr) :
    ((writesOf text).map Prod.fst).Nodup := by
  have hmap : (writesOf text).map Prod.fst = allTunables.filter fun t ↦ (text t).isSome := by
    rw [writesOf]
    generalize allTunables = ts
    induction ts with
    | nil => rfl
    | cons t ts ih =>
      rcases ht : text t with - | v
      · rw [List.filterMap_cons_none (by rw [ht]; rfl), List.filter_cons_of_neg (by simp [ht]), ih]
      · rw [List.filterMap_cons_some (by rw [ht]; rfl), List.filter_cons_of_pos (by simp [ht]),
          List.map_cons, ih]
  rw [hmap]
  exact List.Nodup.filter _ (by decide)

/-- What is saved of a tunable. -/
def SystemConfig.saved (config : SystemConfig) : Tunable → Option PyStr
  | .thp => some config.thpEnabled
  | .thpDefrag => some config.thpDefrag
  | .khugepagedSleep => some config.khugepagedScanSleepMs
  | .numaBalancing => some config.numaBalancing
  | .swappiness => some config.swappiness
  | .overcommit => some config.overcommitMemory
  | .compactionProactiveness => config.compactionProactiveness
  | .ksm => config.ksmRun

/-- What the setup writes into a file. -/
def setting : Tunable → PyStr
  | .thp => "always".toList
  | .thpDefrag => "never".toList
  | .khugepagedSleep => "4294967295".toList
  | .overcommit => "1".toList
  | _ => "0".toList

theorem setupWrites_eq (config : SystemConfig) :
    setupWrites config = writesOf fun t ↦ (config.saved t).map fun _ ↦ setting t := by
  rcases config with ⟨-, -, -, -, -, -, - | v, - | v'⟩ <;> rfl

/-- What the teardown writes back of what was saved. -/
def restored [Python] (t : Tunable) (raw : PyStr) : PyStr :=
  if t.isSelector then restoredWord raw else raw

theorem teardownWrites_eq [Python] (config : SystemConfig) :
    teardownWrites config = writesOf fun t ↦ (config.saved t).map (restored t) := by
  rcases config with ⟨-, -, -, -, -, -, - | v, - | v'⟩ <;> rfl

section Snapshot

variable {faults : Faults} {K : Kernel} {t : Tunable}

theorem readTunable_eq_some {v : PyStr} (h : readTunable faults K t = some v) :
    faults.read t = false ∧ (K.file t).map File.line = some v := by
  rw [readTunable] at h
  split_ifs at h with hf
  rw [Kernel.shown, Option.map_map] at h
  refine ⟨Bool.eq_false_iff.2 hf, ?_⟩
  rw [← h]
  exact congrArg (Option.map · _) (funext fun f ↦ f.strip_shown.symm)

theorem readOptional_eq_some {v : Option PyStr} (h : readOptional faults K t = some v) :
    ((K.file t).isSome → faults.read t = false) ∧ (K.file t).map File.line = v := by
  rw [readOptional] at h
  split_ifs at h with hf
  · obtain ⟨v', hv, rfl⟩ := Option.map_eq_some_iff.1 h
    obtain ⟨hread, hv⟩ := readTunable_eq_some hv
    exact ⟨fun _ ↦ hread, hv⟩
  · refine ⟨fun h' ↦ absurd h' hf, ?_⟩
    rw [Option.not_isSome_iff_eq_none.1 hf]
    exact Option.some.inj h

/-- **The snapshot** holds what every file shows, without the line feed, and read all of them. -/
theorem saved_of_snapshot {config : SystemConfig} (h : snapshot faults K = some config)
    (t : Tunable) : config.saved t = (K.file t).map File.line ∧
      ((K.file t).isSome → faults.read t = false) := by
  simp only [snapshot, Option.bind_eq_bind, Option.bind_eq_some_iff, Option.pure_def,
    Option.some.injEq] at h
  obtain ⟨_, h1, _, h2, _, h3, _, h4, _, h5, _, h6, _, h7, _, h8, rfl⟩ := h
  rcases t
  · exact ⟨(readTunable_eq_some h1).2.symm, fun _ ↦ (readTunable_eq_some h1).1⟩
  · exact ⟨(readTunable_eq_some h2).2.symm, fun _ ↦ (readTunable_eq_some h2).1⟩
  · exact ⟨(readTunable_eq_some h3).2.symm, fun _ ↦ (readTunable_eq_some h3).1⟩
  · exact ⟨(readTunable_eq_some h4).2.symm, fun _ ↦ (readTunable_eq_some h4).1⟩
  · exact ⟨(readTunable_eq_some h5).2.symm, fun _ ↦ (readTunable_eq_some h5).1⟩
  · exact ⟨(readTunable_eq_some h6).2.symm, fun _ ↦ (readTunable_eq_some h6).1⟩
  · exact ⟨(readOptional_eq_some h7).2.symm, (readOptional_eq_some h7).1⟩
  · exact ⟨(readOptional_eq_some h8).2.symm, (readOptional_eq_some h8).1⟩

/-- After the snapshot the setup writes, and returns the snapshot where all writes went through. -/
theorem setupSystem_of_snapshot (sh : Shell) {config : SystemConfig}
    (h : snapshot faults K = some config) : setupSystem sh faults K =
      ((writeAll sh faults K (setupWrites config)).1,
        if (writeAll sh faults K (setupWrites config)).2 then some config else none) := by
  rw [setupSystem, h]

/-- The snapshot succeeds where no read of an existing file raises. -/
theorem exists_snapshot (h : ∀ t, (K.file t).isSome → faults.read t = false) :
    ∃ config, snapshot faults K = some config := by
  have hread : ∀ t, t.isOptional = false → ∃ v, readTunable faults K t = some v := by
    intro t ht
    obtain ⟨f, hf⟩ := Option.isSome_iff_exists.1 (K.present t ht)
    rw [readTunable, h t (by rw [hf]; rfl), Kernel.shown, hf]
    exact ⟨_, rfl⟩
  have hoptional : ∀ t, ∃ v, readOptional faults K t = some v := by
    intro t
    rw [readOptional]
    split_ifs with hf
    · obtain ⟨f, hf'⟩ := Option.isSome_iff_exists.1 hf
      rw [readTunable, h t hf, Kernel.shown, hf']
      exact ⟨_, rfl⟩
    · exact ⟨_, rfl⟩
  obtain ⟨_, h1⟩ := hread .thp rfl
  obtain ⟨_, h2⟩ := hread .thpDefrag rfl
  obtain ⟨_, h3⟩ := hread .khugepagedSleep rfl
  obtain ⟨_, h4⟩ := hread .numaBalancing rfl
  obtain ⟨_, h5⟩ := hread .swappiness rfl
  obtain ⟨_, h6⟩ := hread .overcommit rfl
  obtain ⟨_, h7⟩ := hoptional .compactionProactiveness
  obtain ⟨_, h8⟩ := hoptional .ksm
  rw [snapshot, h1, h2, h3, h4, h5, h6, h7, h8]
  exact ⟨_, rfl⟩

/-- The writes of the setup, by the files that exist. -/
def settingsOf (K : Kernel) : Writes :=
  writesOf fun t ↦ (K.file t).map fun _ ↦ setting t

theorem nodup_settingsOf (K : Kernel) : ((settingsOf K).map Prod.fst).Nodup := nodup_writesOf _

theorem mem_settingsOf {w : Tunable × PyStr} :
    w ∈ settingsOf K ↔ ∃ f, K.file w.1 = some f ∧ w.2 = setting w.1 := by
  rw [settingsOf, mem_writesOf, Option.map_eq_some_iff]
  exact exists_congr fun f ↦ and_congr_right fun _ ↦ eq_comm

/-- The setup writes into the files that exist. -/
theorem setupWrites_of_snapshot {config : SystemConfig} (h : snapshot faults K = some config) :
    setupWrites config = settingsOf K := by
  rw [setupWrites_eq, settingsOf]
  refine congrArg writesOf (funext fun t ↦ ?_)
  rw [(saved_of_snapshot h t).1, Option.map_map]
  rfl

theorem nodup_teardownWrites [Python] (config : SystemConfig) :
    ((teardownWrites config).map Prod.fst).Nodup := by
  rw [teardownWrites_eq]
  exact nodup_writesOf _

/-- The teardown writes into each file that existed what it takes for the old setting. -/
theorem mem_teardownWrites [Python] {config : SystemConfig} (h : snapshot faults K = some config)
    {w : Tunable × PyStr} :
    w ∈ teardownWrites config ↔ ∃ f, K.file w.1 = some f ∧ w.2 = restored w.1 f.line := by
  rw [teardownWrites_eq, mem_writesOf, (saved_of_snapshot h w.1).1, Option.map_map,
    Option.map_eq_some_iff]
  exact exists_congr fun f ↦ and_congr_right fun _ ↦ eq_comm

end Snapshot

/-! ### Teardown undoes setup -/

section RoundTrip

variable [Python] {sh : Shell} {faults : Faults} {K K₁ : Kernel}

omit [Python] in
/-- Files with the same options and settings show the same. -/
theorem Kernel.shown_congr {t : Tunable} (ho : K₁.options t = K.options t)
    (hv : K₁.value t = K.value t) : K₁.shown t = K.shown t := by
  rw [options, options] at ho
  rw [value, value] at hv
  rw [shown, shown]
  rcases hf₁ : K₁.file t with - | f₁ <;> rcases hf : K.file t with - | f <;> rw [hf₁, hf] at ho hv
  · cases ho
  · cases ho
  · exact congrArg some (File.shown_congr (Option.some.inj ho) (Option.some.inj hv))

omit [Python] in
/-- A missing file has no setting, whatever is written. -/
theorem Kernel.value_eq_none {t : Tunable} (ho : K₁.options t = K.options t)
    (hf : K.file t = none) : K₁.value t = none := by
  rw [options, options, hf, Option.map_none, Option.map_eq_none_iff] at ho
  rw [value, ho, Option.map_none]

/-- The active word of a selector has a plus sign in it. -/
def File.HasPlus : File → Prop
  | .selector s => '+' ∈ s.active
  | .number _ _ => False

/-- **What teardown writes back is the old setting**, where the active word has no plus sign. -/
theorem echo_restored {t : Tunable} {f : File} (hf : K.file t = some f) (hplus : ¬ f.HasPlus) :
    sh.echo (restored t f.line) = f.value ∧ File.Accepts f.options f.value := by
  rcases f with s | ⟨n, hn⟩
  · have ht : t.isSelector = true := (K.kind t _ hf).symm
    have hactive := s.active_mem
    have hnot : '+' ∉ s.active := hplus
    rw [restored, if_pos ht, restoredWord_line, if_neg hnot]
    exact ⟨sh.echo_word _ (s.options_ne _ hactive) (s.options_word _ hactive), hactive⟩
  · have ht : t.isSelector = false := (K.kind t _ hf).symm
    rw [restored, if_neg (by rw [ht]; exact Bool.false_ne_true)]
    exact ⟨sh.echo_number n hn, hn⟩

/-- **Teardown restores** what a snapshot saved, whatever the settings are meanwhile, where no
active word had a plus sign in it. -/
theorem teardownSystem_eq (sh : Shell) {config : SystemConfig}
    (hsnap : snapshot faults K = some config) (hopts : ∀ t, K₁.options t = K.options t)
    (hplus : ∀ t f, K.file t = some f → ¬ f.HasPlus) {faults' : Faults}
    (hwrite : ∀ t, faults'.write t = false) :
    (teardownSystem sh faults' K₁ config).2 = true ∧
      ∀ t, (teardownSystem sh faults' K₁ config).1.options t = K.options t ∧
        (teardownSystem sh faults' K₁ config).1.value t = K.value t := by
  rw [teardownSystem]
  have hgoes : ∀ w ∈ teardownWrites config, Goes sh faults' K₁ w := by
    intro w hw
    obtain ⟨f, hf, hrestored⟩ := (mem_teardownWrites hsnap).1 hw
    obtain ⟨hecho, hacc⟩ := @echo_restored _ sh K w.1 f hf (hplus _ f hf)
    refine ⟨hwrite _, f.options, ?_, ?_⟩
    · rw [hopts, Kernel.options, hf, Option.map_some]
    · rwa [hrestored, hecho]
  obtain ⟨hok, hopts', hval, -⟩ := writeAll_of_goes (nodup_teardownWrites config) hgoes
  refine ⟨hok, fun t ↦ ⟨(hopts' t).trans (hopts t), ?_⟩⟩
  rcases hf : K.file t with - | f
  · rw [Kernel.value_eq_none ((hopts' t).trans (hopts t)) hf, Kernel.value, hf, Option.map_none]
  · have hw : (t, restored t f.line) ∈ teardownWrites config :=
      (mem_teardownWrites hsnap).2 ⟨f, hf, rfl⟩
    rw [hval _ hw, (echo_restored hf (hplus t f hf)).1, Kernel.value, hf, Option.map_some]

omit [Python] in
theorem isNumeral_setting {t : Tunable} (ht : t.isSelector = false) :
    isNumeral (setting t) = true := by
  revert ht
  rcases t <;> decide

omit [Python] in
theorem plus_not_mem_setting (t : Tunable) : '+' ∉ setting t := by
  rcases t <;> decide

omit [Python] in
/-- What the setup writes arrives as it is. -/
theorem echo_setting (t : Tunable) : sh.echo (setting t) = setting t := by
  rcases t
  · exact sh.echo_word _ (by decide) (List.all_iff_forall_prop.1 (by decide))
  · exact sh.echo_word _ (by decide) (List.all_iff_forall_prop.1 (by decide))
  all_goals exact sh.echo_number _ (isNumeral_setting rfl)

omit [Python] in
/-- The setup's write of a file goes through where the file is no selector or offers the word. -/
theorem accepts_setting {t : Tunable} {f : File} (hf : K.file t = some f) :
    K.Accepts t (sh.echo (setting t)) ↔ ∀ s, f = .selector s → setting t ∈ s.options := by
  have hopts : K.Accepts t (sh.echo (setting t)) ↔ File.Accepts f.options (setting t) := by
    rw [echo_setting, Kernel.Accepts, Kernel.options, hf, Option.map_some]
    simp
  rw [hopts]
  rcases f with s | ⟨n, hn⟩
  · exact ⟨fun h s' hs ↦ File.selector.inj hs ▸ h, fun h ↦ h s rfl⟩
  · have ht : t.isSelector = false := (K.kind t _ hf).symm
    exact iff_of_true (isNumeral_setting ht) fun s hs ↦ by cases hs

omit [Python] in
/-- What the setup writes into existing files arrives as it is. -/
theorem echo_of_mem_settingsOf {w : Tunable × PyStr} (hw : w ∈ settingsOf K) :
    sh.echo w.2 = w.2 := by
  obtain ⟨f, -, hset⟩ := mem_settingsOf.1 hw
  rw [hset, echo_setting]

omit [Python] in
/-- **The setup goes through** where every selector offers the word that it selects. -/
theorem writeAll_settingsOf_iff :
    (writeAll sh .none K (settingsOf K)).2 = true ↔
      ∀ t s, K.file t = some (.selector s) → setting t ∈ s.options := by
  rw [writeAll_ok_iff (nodup_settingsOf K)]
  constructor
  · intro hgoes t s hf
    have hw : (t, setting t) ∈ settingsOf K := mem_settingsOf.2 ⟨_, hf, rfl⟩
    exact (accepts_setting hf).1 (hgoes _ hw).2 s rfl
  · intro hoffers w hw
    obtain ⟨f, hf, hset⟩ := mem_settingsOf.1 hw
    refine ⟨rfl, ?_⟩
    rw [hset]
    exact (accepts_setting hf).2 fun s hs ↦ hoffers w.1 s (hs ▸ hf)

omit [Python] in
/-- Writing back all that a selector showed is rejected: two words arrive. -/
theorem not_accepts_line {s : Selector} {o : PyStr} (ho : o ∈ s.options) (hne : o ≠ s.active) :
    sh.echo (File.selector s).line ∉ s.options := by
  have hblank : ' ' ∈ sh.echo (File.selector s).line := by
    refine sh.echo_words _ ?_ (fun w hw ↦ (File.mark_spec s hw).1)
      fun w hw ↦ (File.mark_spec s hw).2
    obtain ⟨l, r, hlr⟩ := List.append_of_mem s.active_mem
    have hmem : o ∈ l ++ r := by
      rw [hlr] at ho
      rcases List.mem_append.1 ho with h | h
      · exact List.mem_append_left _ h
      · exact List.mem_append_right _ ((List.mem_cons.1 h).resolve_left hne)
    have hpos := List.length_pos_of_mem hmem
    rw [List.length_map, hlr, List.length_append, List.length_cons]
    rw [List.length_append] at hpos
    omega
  intro hmem
  exact absurd (s.options_word _ hmem ' ' hblank) (by decide)

/-- `setup_system` and then `teardown_system` with what it returned; `none` where either raises. -/
def roundTrip (sh : Shell) (K : Kernel) : Option Kernel :=
  match setupSystem sh .none K with
  | (_, none) => none
  | (K₁, some config) =>
    let r := teardownSystem sh .none K₁ config
    if r.2 then some r.1 else none

omit [Python] in
/-- Each selector offers the word that the setup selects, and its active word has no plus sign. -/
def Restorable (K : Kernel) : Prop :=
  ∀ t s, K.file t = some (.selector s) → setting t ∈ s.options ∧ '+' ∉ s.active

/-- **Teardown undoes setup exactly for the files that are restorable.** -/
theorem roundTrip_iff (sh : Shell) (K : Kernel) :
    (∃ K', roundTrip sh K = some K' ∧ ∀ t, K'.shown t = K.shown t) ↔ Restorable K := by
  obtain ⟨config, hsnap⟩ := @exists_snapshot .none K fun _ _ ↦ rfl
  obtain ⟨-, -, -, -, -, -, hopts, -⟩ := @writeAll_eq sh .none K (settingsOf K) (nodup_settingsOf K)
  rw [roundTrip, setupSystem_of_snapshot sh hsnap, setupWrites_of_snapshot hsnap]
  constructor
  · rintro ⟨K', hround, -⟩
    rcases hok : (writeAll sh .none K (settingsOf K)).2 with - | -
    · rw [hok] at hround
      cases hround
    · simp only [hok, if_true] at hround
      split_ifs at hround with hdown
      have hoffers := writeAll_settingsOf_iff.1 hok
      refine fun t s hf ↦ ⟨hoffers t s hf, fun hplus ↦ ?_⟩
      have ht : t.isSelector = true := (K.kind t _ hf).symm
      rw [teardownSystem, writeAll_ok_iff (nodup_teardownWrites config)] at hdown
      have hw : (t, restored t (File.selector s).line) ∈ teardownWrites config :=
        (mem_teardownWrites hsnap).2 ⟨_, hf, rfl⟩
      obtain ⟨-, os, hos, hacc⟩ := hdown _ hw
      rw [hopts, Kernel.options, hf] at hos
      rw [← Option.some.inj hos, restored, if_pos ht, restoredWord_line, if_pos hplus] at hacc
      refine not_accepts_line (hoffers t s hf) (fun h ↦ ?_) hacc
      exact plus_not_mem_setting t (h ▸ hplus)
  · intro hres
    have hok := (@writeAll_settingsOf_iff sh K).2 fun t s hf ↦ (hres t s hf).1
    have hplus : ∀ t f, K.file t = some f → ¬ f.HasPlus := by
      intro t f hf hplus
      rcases f with s | ⟨n, hn⟩
      · exact (hres t s hf).2 hplus
      · exact hplus
    obtain ⟨hdown, hback⟩ := @teardownSystem_eq _ _ _ _ sh _ hsnap hopts hplus .none fun _ ↦ rfl
    simp only [hok, if_true, hdown]
    exact ⟨_, rfl, fun t ↦ Kernel.shown_congr (hback t).1 (hback t).2⟩

end RoundTrip

/-- A shell in a directory where no file matches. -/
def plainShell : Shell where
  echo w := w
  echo_word _ _ _ := rfl
  echo_number _ _ := rfl
  echo_words ws hlen _ _ := by
    rcases ws with - | ⟨w, - | ⟨w', ws⟩⟩
    · exact absurd hlen (by decide)
    · exact absurd hlen (by rw [List.length_singleton]; decide)
    · exact List.mem_append_right _ List.mem_cons_self

theorem isOptionChar_of_all {os : List PyStr} (h : (os.all fun o ↦ o.all isOptionChar) = true) :
    ∀ o ∈ os, ∀ c ∈ o, isOptionChar c = true :=
  fun o ho ↦ List.all_eq_true.1 (List.all_eq_true.1 h o ho)

/-- The selector of the kernel for defragmentation, with `defer+madvise` active. -/
def deferSelector : Selector where
  options := [['a', 'l', 'w', 'a', 'y', 's'], ['d', 'e', 'f', 'e', 'r'],
    ['d', 'e', 'f', 'e', 'r', '+', 'm', 'a', 'd', 'v', 'i', 's', 'e'],
    ['m', 'a', 'd', 'v', 'i', 's', 'e'], ['n', 'e', 'v', 'e', 'r']]
  active := ['d', 'e', 'f', 'e', 'r', '+', 'm', 'a', 'd', 'v', 'i', 's', 'e']
  active_mem := by decide
  options_ne := by decide
  options_word := isOptionChar_of_all (by decide)

/-- The selector of the kernel for huge pages, with `madvise` active. -/
def madviseSelector : Selector where
  options := [['a', 'l', 'w', 'a', 'y', 's'], ['m', 'a', 'd', 'v', 'i', 's', 'e'],
    ['n', 'e', 'v', 'e', 'r']]
  active := ['m', 'a', 'd', 'v', 'i', 's', 'e']
  active_mem := by decide
  options_ne := by decide
  options_word := isOptionChar_of_all (by decide)

/-- A kernel whose numbers are 1, with given selectors. -/
def kernelWith (thp defrag : Selector) : Kernel where
  file
    | .thp => some (.selector thp)
    | .thpDefrag => some (.selector defrag)
    | _ => some (.number ['1'] rfl)
  kind t f hf := by
    rcases t <;> rw [← Option.some.inj hf] <;> rfl
  present t _ := by
    rcases t <;> rfl

/-- The text `always defer [defer+madvise] madvise never` is written back and rejected. -/
theorem not_restored_defer : ¬ ∃ K', @roundTrip Python.ascii plainShell
      (kernelWith madviseSelector deferSelector) = some K' ∧
    ∀ t, K'.shown t = (kernelWith madviseSelector deferSelector).shown t := by
  have hnone : (@roundTrip Python.ascii plainShell
      (kernelWith madviseSelector deferSelector)).isNone = true := by
    decide +kernel
  rintro ⟨K', hK, -⟩
  rw [hK] at hnone
  cases hnone

/-! ### `run_benchmark` -/

/-- A call of the benchmark loop that may raise. -/
inductive BenchmarkStep where
  /-- `restore_snapshot`, by combination and run. -/
  | restoreSnapshot (idx run : ℕ)
  /-- `memory_purge`. -/
  | memoryPurge (idx run : ℕ)
  /-- `replay`. -/
  | replay (idx run : ℕ)
  /-- Writing the results. -/
  | writeResults
  deriving DecidableEq

/-- The calls of the loop, in order, for a number of combinations and the argument `runs`. -/
def benchmarkSteps (nCombos : ℕ) (runs : ℤ) : List BenchmarkStep :=
  ((List.range nCombos).flatMap fun idx ↦ (List.range' 1 runs.toNat).flatMap fun run ↦
    [.restoreSnapshot idx run, .memoryPurge idx run, .replay idx run]) ++ [.writeResults]

/-- What raises in a benchmark. -/
structure BenchmarkFaults where
  /-- In the setup. -/
  setup : Faults
  /-- In the loop and after it. -/
  step : BenchmarkStep → Bool
  /-- In the teardown. -/
  teardown : Faults

/-- How `run_benchmark` ends. -/
inductive BenchmarkExit where
  /-- It returns. -/
  | returns
  /-- `setup_system` raised. -/
  | setupRaised
  /-- A call of the loop raised. -/
  | stepRaised (step : BenchmarkStep)
  /-- `teardown_system` raised. -/
  | teardownRaised
  deriving DecidableEq

section Benchmark

variable [Python]

/-- `run_benchmark`, as far as the kernel's files: the setup, and then the loop in a block that ends
with the teardown. -/
def runBenchmark (sh : Shell) (faults : BenchmarkFaults) (K : Kernel) (nCombos : ℕ) (runs : ℤ) :
    Kernel × BenchmarkExit :=
  match setupSystem sh faults.setup K with
  | (K₁, none) => (K₁, .setupRaised)
  | (K₁, some config) =>
    let raised := (benchmarkSteps nCombos runs).find? faults.step
    let r := teardownSystem sh faults.teardown K₁ config
    (r.1, if r.2 then raised.elim .returns .stepRaised else .teardownRaised)

omit [Python] in
/-- The setup does no harm where it fails: a read raises, or each write before the first that raises
sets what is set already. -/
def HarmlessSetup (sh : Shell) (faults : Faults) (K : Kernel) : Prop :=
  (∃ t, (K.file t).isSome ∧ faults.read t = true) ∨
  ∀ done w rest, settingsOf K = done ++ w :: rest → (∀ v ∈ done, Goes sh faults K v) →
    ¬ Goes sh faults K w → ∀ v ∈ done, K.value v.1 = some v.2

/-- **A benchmark leaves every tunable as it was exactly where its setup does no harm**, whatever
else raises, provided that the restoring writes succeed. -/
theorem runBenchmark_restores_iff (sh : Shell) (faults : BenchmarkFaults) (K : Kernel)
    (nCombos : ℕ) (runs : ℤ) (hteardown : ∀ t, faults.teardown.write t = false)
    (hword : ∀ t f, K.file t = some f → ¬ f.HasPlus) :
    (∀ t, (runBenchmark sh faults K nCombos runs).1.value t = K.value t) ↔
      HarmlessSetup sh faults.setup K := by
  rcases hsnap : snapshot faults.setup K with - | config
  · -- a read raised before anything was written
    refine iff_of_true (fun t ↦ by rw [runBenchmark, setupSystem, hsnap]) (Or.inl ?_)
    by_contra hnot
    obtain ⟨config, hsome⟩ := @exists_snapshot faults.setup K fun t ht ↦
      Bool.eq_false_iff.2 fun hread ↦ hnot ⟨t, ht, hread⟩
    cases hsnap.symm.trans hsome
  have hnoread : ¬ ∃ t, (K.file t).isSome ∧ faults.setup.read t = true := by
    rintro ⟨t, ht, hread⟩
    rw [(saved_of_snapshot hsnap t).2 ht] at hread
    cases hread
  obtain ⟨done, rest, hws, hdone, hrest, hok, hopts, hval, hkeep⟩ :=
    @writeAll_eq sh faults.setup K (settingsOf K) (nodup_settingsOf K)
  rw [HarmlessSetup, or_iff_right hnoread, runBenchmark, setupSystem_of_snapshot sh hsnap,
    setupWrites_of_snapshot hsnap]
  have hecho : ∀ v ∈ done, sh.echo v.2 = v.2 := fun v hv ↦
    echo_of_mem_settingsOf (by rw [hws]; exact List.mem_append_left _ hv)
  rcases rest with - | ⟨w, rest⟩
  · -- the setup went through, so the teardown restores
    rw [List.append_nil] at hws
    simp only [hok.2 rfl, if_true]
    refine iff_of_true (fun t ↦ ((teardownSystem_eq sh hsnap hopts hword hteardown).2 t).2) ?_
    rintro done' w rest' hsplit - hw
    refine absurd (hdone w ?_) hw
    rw [← hws, hsplit]
    exact List.mem_append_right _ List.mem_cons_self
  · -- the setup raised, and nothing is restored
    have hraised : (writeAll sh faults.setup K (settingsOf K)).2 = false :=
      Bool.eq_false_iff.2 fun h ↦ by cases hok.1 h
    simp only [hraised, Bool.false_eq_true, if_false]
    constructor
    · intro h done' w' rest' hsplit hdone' hw' v hv
      obtain rfl := eq_of_first_failing (hws.symm.trans hsplit) hdone (hrest w rfl) hdone' hw'
      rw [← h, hval v hv, hecho v hv]
    · intro h t
      have hsame := h done w rest hws hdone (hrest w rfl)
      by_cases ht : t ∈ done.map Prod.fst
      · obtain ⟨v, hv, rfl⟩ := List.mem_map.1 ht
        rw [hval v hv, hsame v hv, hecho v hv]
      · exact hkeep t ht

end Benchmark

/-- Only the command that writes one file exits with an error. -/
def failingWrite (t : Tunable) : BenchmarkFaults where
  setup := ⟨fun _ ↦ false, fun t' ↦ t' = t⟩
  step _ := false
  teardown := .none

/-- Only the first replay raises. -/
def failingReplay : BenchmarkFaults where
  setup := .none
  step s := s = .replay 0 1
  teardown := .none

theorem not_hasPlus_madvise (t : Tunable) (f : File)
    (hf : (kernelWith madviseSelector madviseSelector).file t = some f) : ¬ f.HasPlus := by
  rcases t <;> rw [← Option.some.inj hf]
  · exact (by decide : '+' ∉ madviseSelector.active)
  · exact (by decide : '+' ∉ madviseSelector.active)
  all_goals exact id

/-- Where only a replay raises, the tunables are restored if the setup does no harm. -/
theorem restores_failingReplay :
    (∀ t, (@runBenchmark Python.ascii plainShell failingReplay
      (kernelWith madviseSelector madviseSelector) 1 3).1.value t =
        (kernelWith madviseSelector madviseSelector).value t) ↔
    HarmlessSetup plainShell failingReplay.setup (kernelWith madviseSelector madviseSelector) :=
  @runBenchmark_restores_iff Python.ascii plainShell failingReplay
    (kernelWith madviseSelector madviseSelector) 1 3 (fun _ ↦ rfl) not_hasPlus_madvise

/-- The write to the second file fails, and the first one keeps its new setting. -/
theorem not_restores_failingWrite :
    ¬ ∀ t, (@runBenchmark Python.ascii plainShell (failingWrite .thpDefrag)
      (kernelWith madviseSelector madviseSelector) 1 3).1.value t =
        (kernelWith madviseSelector madviseSelector).value t := by
  intro h
  exact absurd (h .thp) (by decide +kernel)

end Replay
