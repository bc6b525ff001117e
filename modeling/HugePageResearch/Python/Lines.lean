import HugePageResearch.Python.Text

/-!
# Lines and their fields

What stripping and splitting do to text that was put together from fields: a key, a separator and a
value, or words between white space.
-/

namespace PyStr

variable {s ws : PyStr} {c sep : Char}

/-! ### Stripping -/

theorem isSpace_replicate (k : ℕ) : ∀ c ∈ List.replicate k ' ', isSpace c = true :=
  fun _ hc ↦ List.eq_of_mem_replicate hc ▸ rfl

theorem isSpace_blank : ∀ c ∈ [' '], isSpace c = true := isSpace_replicate 1

/-- **Text that begins and ends with other characters than white space.** -/
theorem strip_eq_self (hfirst : ∀ c ∈ s.head?, isSpace c = false)
    (hlast : ∀ c ∈ s.getLast?, isSpace c = false) : strip s = s := by
  have hleft : s.dropWhile isSpace = s := by
    rw [List.dropWhile_eq_self_iff]
    intro hlen hspace
    rw [hfirst _ (by rw [List.head?_eq_getElem?]; exact List.getElem?_eq_getElem hlen)] at hspace
    exact Bool.false_ne_true hspace
  rw [strip, hleft, List.rdropWhile_eq_self_iff]
  intro hne hspace
  rw [hlast _ (List.getLast?_eq_some_getLast hne)] at hspace
  exact Bool.false_ne_true hspace

/-- Text without white space. -/
theorem strip_of_forall_not (h : ∀ c ∈ s, isSpace c = false) : strip s = s :=
  strip_eq_self (fun c hc ↦ h c (List.mem_of_mem_head? hc))
    fun c hc ↦ h c (List.mem_of_getLast? hc)

/-- White space before a text. -/
theorem strip_space_append (hws : ∀ c ∈ ws, isSpace c = true) (s : PyStr) :
    strip (ws ++ s) = strip s := by
  rw [strip, List.dropWhile_append_of_pos hws, strip]

/-- White space after a text. -/
theorem strip_append_space (hws : ∀ c ∈ ws, isSpace c = true) (s : PyStr) :
    strip (s ++ ws) = strip s := by
  have hright : ∀ t : PyStr, (t ++ ws).rdropWhile isSpace = t.rdropWhile isSpace := fun t ↦ by
    rw [List.rdropWhile, List.reverse_append,
      List.dropWhile_append_of_pos fun c hc ↦ hws c (List.mem_reverse.1 hc), List.rdropWhile]
  have hblank : ws.dropWhile isSpace = [] := List.dropWhile_eq_nil_iff.2 hws
  rw [strip, strip, List.dropWhile_append]
  split_ifs with hempty
  · rw [hblank, List.isEmpty_iff.1 hempty]
  · exact hright _

/-- **Stripping keeps the first character** that is not white space. -/
theorem exists_strip_cons (hc : isSpace c = false) (s : PyStr) : ∃ t, strip (c :: s) = c :: t := by
  have hleft : (c :: s).dropWhile isSpace = c :: s :=
    List.dropWhile_cons_of_neg (by rw [hc]; exact Bool.false_ne_true)
  rw [strip, hleft]
  rcases hright : (c :: s).rdropWhile isSpace with - | ⟨d, t⟩
  · have hall := List.rdropWhile_eq_nil_iff.1 hright c List.mem_cons_self
    rw [hc] at hall
    exact absurd hall Bool.false_ne_true
  · have hpre := List.rdropWhile_prefix isSpace (c :: s)
    rw [hright] at hpre
    exact ⟨t, by rw [(List.cons_prefix_cons.1 hpre).1]⟩

theorem length_strip_le (s : PyStr) : (strip s).length ≤ s.length :=
  (List.IsPrefix.length_le (List.rdropWhile_prefix isSpace _)).trans
    (List.IsSuffix.length_le (List.dropWhile_suffix isSpace))

/-- Stripped text does not start with white space. -/
theorem isSpace_of_strip_cons (h : strip (c :: s) = c :: s) : isSpace c = false := by
  by_contra hspace
  have hws : ∀ d ∈ [c], isSpace d = true := fun d hd ↦
    List.mem_singleton.1 hd ▸ eq_true_of_ne_false hspace
  have hstrip : strip (c :: s) = strip s := strip_space_append hws s
  have hlen := length_strip_le s
  rw [← hstrip, h, List.length_cons] at hlen
  omega

theorem mem_of_mem_strip (hc : c ∈ strip s) : c ∈ s :=
  (List.dropWhile_sublist isSpace).subset
    ((List.rdropWhile_prefix isSpace (s.dropWhile isSpace)).subset hc)

/-- **Stripping once is enough.** -/
theorem strip_strip (s : PyStr) : strip (strip s) = strip s := by
  refine strip_eq_self (fun c hc ↦ ?_) fun c hc ↦ ?_
  · obtain ⟨t, ht⟩ : ∃ t, s.dropWhile isSpace = c :: t := by
      obtain ⟨t, ht⟩ := List.rdropWhile_prefix isSpace (s.dropWhile isSpace)
      obtain ⟨u, hu⟩ := List.head?_eq_some_iff.1 hc
      rw [strip] at hu
      exact ⟨u ++ t, by rw [← ht, hu, List.cons_append]⟩
    have hfirst := List.head?_dropWhile_not isSpace s
    rw [ht] at hfirst
    exact hfirst
  · obtain ⟨hne, hlast⟩ := List.mem_getLast?_eq_getLast hc
    rw [hlast]
    exact eq_false_of_ne_true (List.rdropWhile_last_not isSpace _ hne)

/-- A line break is white space. -/
theorem isLineBreak_of_isSpace (h : isSpace c = false) : isLineBreak c = false := by
  simp only [isSpace, Bool.or_eq_false_iff, Bool.and_eq_false_iff, decide_eq_false_iff_not,
    beq_eq_false_iff_ne] at h
  simp only [isLineBreak, Bool.or_eq_false_iff, Bool.and_eq_false_iff, decide_eq_false_iff_not,
    beq_eq_false_iff_ne]
  omega

/-! ### Splitting once -/

/-- `s.split(sep, maxsplit=1)`, where it has two parts. -/
def splitOnce (sep : Char) (s : PyStr) : Option (PyStr × PyStr) :=
  if sep ∈ s then some (s.takeWhile (· ≠ sep), (s.dropWhile (· ≠ sep)).tail) else none

/-- The first separator splits. -/
theorem splitOnce_append (h : sep ∉ s) (t : PyStr) :
    splitOnce sep (s ++ sep :: t) = some (s, t) := by
  have hne : ∀ c ∈ s, decide (c ≠ sep) = true := fun c hc ↦
    decide_eq_true fun heq ↦ h (heq ▸ hc)
  rw [splitOnce, if_pos (List.mem_append_right _ List.mem_cons_self),
    List.takeWhile_append_of_pos hne, List.takeWhile_cons_of_neg (by simp), List.append_nil,
    List.dropWhile_append_of_pos hne, List.dropWhile_cons_of_neg (by simp)]
  rfl

/-! ### Lines -/

theorem splitlinesFrom_append (h : ∀ c ∈ s, isLineBreak c = false) (cur t : PyStr) :
    splitlinesFrom cur (s ++ '\n' :: t) = (cur.reverse ++ s) :: splitlinesFrom [] t := by
  induction s generalizing cur with
  | nil =>
    rw [List.append_nil, List.nil_append, splitlinesFrom]
    · exact if_pos rfl
    · exact fun _ hr ↦ absurd hr (by decide)
  | cons c s ih =>
    obtain ⟨hc, hs⟩ := List.forall_mem_cons.1 h
    have hcr : c ≠ '\r' := by
      rintro rfl
      exact absurd hc (by decide)
    rw [List.cons_append, splitlinesFrom, hc, if_neg Bool.false_ne_true, ih hs, List.reverse_cons,
      List.append_assoc, List.singleton_append]
    exact fun _ hr ↦ absurd hr hcr

/-- **Lines that were ended by line feeds** are read back. -/
theorem splitlines_flatMap {ls : List PyStr} (h : ∀ l ∈ ls, ∀ c ∈ l, isLineBreak c = false) :
    splitlines (ls.flatMap (· ++ ['\n'])) = ls := by
  induction ls with
  | nil => rfl
  | cons l ls ih =>
    obtain ⟨hl, hls⟩ := List.forall_mem_cons.1 h
    rw [List.flatMap_cons, List.append_assoc, List.singleton_append, splitlines,
      splitlinesFrom_append hl, List.reverse_nil, List.nil_append]
    exact congrArg (l :: ·) (ih hls)

/-- A last line that no line feed ends. -/
theorem splitlinesFrom_last (h : ∀ c ∈ s, isLineBreak c = false) {cur : PyStr}
    (hne : cur.reverse ++ s ≠ []) : splitlinesFrom cur s = [cur.reverse ++ s] := by
  induction s generalizing cur with
  | nil =>
    have hcur : cur ≠ [] := fun hnil ↦ hne (by rw [hnil]; rfl)
    rw [splitlinesFrom, if_neg hcur, List.append_nil]
  | cons c s ih =>
    obtain ⟨hc, hs⟩ := List.forall_mem_cons.1 h
    have hcr : c ≠ '\r' := by
      rintro rfl
      exact absurd hc (by decide)
    have hsplit : (c :: cur).reverse ++ s = cur.reverse ++ c :: s := by
      rw [List.reverse_cons, List.append_assoc]
      rfl
    rw [splitlinesFrom, hc, if_neg Bool.false_ne_true, ih hs (hsplit ▸ hne), hsplit]
    exact fun _ hr ↦ absurd hr hcr

/-- **The last line feed may be missing**, where the last line is not empty. -/
theorem splitlines_flatMap_append {ls : List PyStr} {l : PyStr}
    (h : ∀ l ∈ ls, ∀ c ∈ l, isLineBreak c = false) (hl : ∀ c ∈ l, isLineBreak c = false)
    (hne : l ≠ []) : splitlines (ls.flatMap (· ++ ['\n']) ++ l) = ls ++ [l] := by
  induction ls with
  | nil => exact splitlinesFrom_last hl hne
  | cons l' ls ih =>
    obtain ⟨hl', hls⟩ := List.forall_mem_cons.1 h
    rw [List.flatMap_cons, List.append_assoc, List.append_assoc, List.singleton_append, splitlines,
      splitlinesFrom_append hl', List.reverse_nil, List.nil_append]
    exact congrArg (l' :: ·) (ih hls)

/-- **The lines of a text have no line break.** -/
theorem isLineBreak_of_mem_splitlinesFrom {cur l : PyStr} (hcur : ∀ c ∈ cur, isLineBreak c = false)
    (hl : l ∈ splitlinesFrom cur s) (hc : c ∈ l) : isLineBreak c = false := by
  fun_induction splitlinesFrom cur s with
  | case1 => exact absurd hl List.not_mem_nil
  | case2 cur hne =>
    obtain rfl := List.mem_singleton.1 hl
    exact hcur c (List.mem_reverse.1 hc)
  | case3 cur s ih =>
    rcases List.mem_cons.1 hl with rfl | hl
    · exact hcur c (List.mem_reverse.1 hc)
    · exact ih (fun _ hd ↦ absurd hd List.not_mem_nil) hl
  | case4 cur d s hcrlf hbreak ih =>
    rcases List.mem_cons.1 hl with rfl | hl
    · exact hcur c (List.mem_reverse.1 hc)
    · exact ih (fun _ hd ↦ absurd hd List.not_mem_nil) hl
  | case5 cur d s hcrlf hbreak ih =>
    exact ih (List.forall_mem_cons.2 ⟨eq_false_of_ne_true hbreak, hcur⟩) hl

theorem isLineBreak_of_mem_splitlines {l : PyStr} (hl : l ∈ splitlines s) :
    ∀ c ∈ l, isLineBreak c = false := fun _ hc ↦
  isLineBreak_of_mem_splitlinesFrom (fun _ hd ↦ absurd hd List.not_mem_nil) hl hc

/-! ### Words -/

/-- White space before the words. -/
theorem split_space_append (hws : ∀ c ∈ ws, isSpace c = true) (s : PyStr) :
    split (ws ++ s) = split s := by
  induction ws with
  | nil => rfl
  | cons c ws ih =>
    obtain ⟨hc, hws⟩ := List.forall_mem_cons.1 hws
    rw [List.cons_append, split, List.splitOnP_cons_eq_if_modifyHead, if_pos hc,
      List.filter_cons_of_neg (by simp)]
    exact ih hws

/-- **The first word.** -/
theorem split_word_append (hne : s ≠ []) (hs : ∀ c ∈ s, isSpace c = false)
    (hc : isSpace c = true) (t : PyStr) : split (s ++ c :: t) = s :: split t := by
  rw [split, List.splitOnP_append_cons_of_forall_mem hs c hc,
    List.filter_cons_of_pos (by simpa using hne), split]

/-- One word. -/
theorem split_word (hne : s ≠ []) (hs : ∀ c ∈ s, isSpace c = false) : split s = [s] := by
  rw [split, List.splitOnP_eq_singleton hs, List.filter_cons_of_pos (by simpa using hne),
    List.filter_nil]

theorem infix_of_mem_splitOnPPrepend {acc w : PyStr} (hw : w ∈ s.splitOnPPrepend isSpace acc) :
    w <:+: acc.reverse ++ s := by
  induction s generalizing acc with
  | nil =>
    rw [List.splitOnPPrepend_nil, List.mem_singleton] at hw
    rw [hw, List.append_nil]
  | cons c s ih =>
    by_cases hc : isSpace c = true
    · rw [List.splitOnPPrepend_cons_pos hc, List.mem_cons] at hw
      rcases hw with rfl | hw
      · exact (List.prefix_append _ _).isInfix
      · exact (@ih [] hw).trans
          ((List.suffix_cons c s).trans (List.suffix_append _ _)).isInfix
    · rw [List.splitOnPPrepend_cons_neg (eq_false_of_ne_true hc)] at hw
      have hinfix := ih hw
      rwa [List.reverse_cons, List.append_assoc] at hinfix

theorem isSpace_of_mem_splitOnPPrepend {acc w : PyStr} (hacc : ∀ c ∈ acc, isSpace c = false)
    (hw : w ∈ s.splitOnPPrepend isSpace acc) : ∀ c ∈ w, isSpace c = false := by
  induction s generalizing acc with
  | nil =>
    rw [List.splitOnPPrepend_nil, List.mem_singleton] at hw
    exact fun c hc ↦ hacc c (List.mem_reverse.1 (hw ▸ hc))
  | cons c s ih =>
    by_cases hc : isSpace c = true
    · rw [List.splitOnPPrepend_cons_pos hc, List.mem_cons] at hw
      rcases hw with rfl | hw
      · exact fun c hc ↦ hacc c (List.mem_reverse.1 hc)
      · exact @ih [] (fun _ hd ↦ absurd hd List.not_mem_nil) hw
    · rw [List.splitOnPPrepend_cons_neg (eq_false_of_ne_true hc)] at hw
      exact ih (List.forall_mem_cons.2 ⟨eq_false_of_ne_true hc, hacc⟩) hw

/-- **A word stands in the text**, and has no white space. -/
theorem word_of_mem_split {w : PyStr} (hw : w ∈ split s) :
    w <:+: s ∧ ∀ c ∈ w, isSpace c = false := by
  have hmem : w ∈ s.splitOnPPrepend isSpace [] := (List.mem_filter.1 hw).1
  exact ⟨infix_of_mem_splitOnPPrepend hmem,
    isSpace_of_mem_splitOnPPrepend (fun _ hd ↦ absurd hd List.not_mem_nil) hmem⟩
/-- `s.split(None, n)`: at most `n` words, and then what is left, which no white space starts. -/
def splitMax : ℕ → PyStr → List PyStr
  | 0, s => if s.dropWhile isSpace = [] then [] else [s.dropWhile isSpace]
  | n + 1, s =>
    if s.dropWhile isSpace = [] then []
    else (s.dropWhile isSpace).takeWhile (fun c ↦ !isSpace c) ::
      splitMax n ((s.dropWhile isSpace).dropWhile fun c ↦ !isSpace c)

/-- White space before what is split. -/
theorem splitMax_space_append (hws : ∀ c ∈ ws, isSpace c = true) (n : ℕ) (s : PyStr) :
    splitMax n (ws ++ s) = splitMax n s := by
  have hdrop : (ws ++ s).dropWhile isSpace = s.dropWhile isSpace :=
    List.dropWhile_append_of_pos hws
  cases n with
  | zero => rw [splitMax, splitMax, hdrop]
  | succ n => rw [splitMax, splitMax, hdrop]

/-- What is left after the last split. -/
theorem splitMax_zero (hc : isSpace c = false) (s : PyStr) : splitMax 0 (c :: s) = [c :: s] := by
  rw [splitMax, List.dropWhile_cons_of_neg (by rw [hc]; exact Bool.false_ne_true),
    if_neg (List.cons_ne_nil c s)]

/-- The first word is what no white space interrupts. -/
theorem splitMax_succ {rest : PyStr} (hne : s ≠ []) (hs : ∀ c ∈ s, isSpace c = false)
    (hrest : ∀ c, rest.head? = some c → isSpace c = true) (n : ℕ) :
    splitMax (n + 1) (s ++ rest) = s :: splitMax n rest := by
  obtain ⟨d, u, rfl⟩ := List.exists_cons_of_ne_nil hne
  have hword : ∀ c ∈ d :: u, (!isSpace c) = true := fun c h ↦ by rw [hs c h, Bool.not_false]
  have hdrop : (d :: u ++ rest).dropWhile isSpace = d :: u ++ rest :=
    List.dropWhile_cons_of_neg (by rw [hs d List.mem_cons_self]; exact Bool.false_ne_true)
  have hstop : rest.takeWhile (fun c ↦ !isSpace c) = [] ∧
      rest.dropWhile (fun c ↦ !isSpace c) = rest := by
    cases rest with
    | nil => exact ⟨rfl, rfl⟩
    | cons c rest => simp [hrest c rfl]
  rw [splitMax, hdrop, if_neg (List.append_ne_nil_of_left_ne_nil hne rest),
    List.takeWhile_append_of_pos hword, List.dropWhile_append_of_pos hword, hstop.1, hstop.2,
    List.append_nil]

/-- **The first word is split off.** -/
theorem splitMax_word_append (hne : s ≠ []) (hs : ∀ c ∈ s, isSpace c = false)
    (hc : isSpace c = true) (n : ℕ) (t : PyStr) :
    splitMax (n + 1) (s ++ c :: t) = s :: splitMax n t := by
  have hws : ∀ d ∈ [c], isSpace d = true := fun d hd ↦ List.mem_singleton.1 hd ▸ hc
  have hrest : ∀ d, (c :: t).head? = some d → isSpace d = true := fun d hd ↦ Option.some.inj hd ▸ hc
  rw [splitMax_succ hne hs hrest]
  exact congrArg (s :: ·) (splitMax_space_append hws n t)

/-- What is split has no other characters. -/
theorem mem_of_mem_splitMax {n : ℕ} {w : PyStr} (hw : w ∈ splitMax n s) (hc : c ∈ w) : c ∈ s := by
  induction n generalizing s with
  | zero =>
    rw [splitMax] at hw
    split_ifs at hw
    · exact absurd hw List.not_mem_nil
    · obtain rfl := List.mem_singleton.1 hw
      exact (List.dropWhile_sublist isSpace).subset hc
  | succ n ih =>
    have hsub := (List.dropWhile_sublist (l := s) isSpace).subset
    rw [splitMax] at hw
    split_ifs at hw
    · exact absurd hw List.not_mem_nil
    · rcases List.mem_cons.1 hw with rfl | hw
      · exact hsub ((List.takeWhile_prefix _).subset hc)
      · exact hsub ((List.dropWhile_sublist _).subset (ih hw))
/-! ### Keys -/

/-- **A key is one of two keys that start alike** only if it is the whole of it. -/
theorem startswith_append {t p : PyStr} (hs : sep ∉ s) (hp : sep ∉ p) :
    startswith (s ++ sep :: t) (p ++ [sep]) = true ↔ s = p := by
  rw [startswith, List.isPrefixOf_iff_prefix]
  induction s generalizing p with
  | nil =>
    cases p with
    | nil => simp
    | cons d p =>
      have hne : d ≠ sep := fun h ↦ hp (h ▸ List.mem_cons_self)
      simp [hne]
  | cons c s ih =>
    have hne : c ≠ sep := fun h ↦ hs (h ▸ List.mem_cons_self)
    cases p with
    | nil => simp [hne.symm]
    | cons d p =>
      rw [List.cons_append, List.cons_append, List.cons_prefix_cons,
        ih (List.not_mem_of_not_mem_cons hs) (List.not_mem_of_not_mem_cons hp), List.cons.injEq,
        eq_comm (a := c)]

theorem removeAll_append {pat u : PyStr} (s : PyStr) :
    removeAll pat u.length (u ++ s) = removeAll pat 0 s := by
  induction u with
  | nil => rfl
  | cons c u ih =>
    rw [List.cons_append, List.length_cons, removeAll]
    exact ih

/-- Text without a character of the pattern. -/
theorem removeAll_of_not_mem {pat : PyStr} (hc : c ∈ pat) (hs : c ∉ s) : removeAll pat 0 s = s := by
  induction s with
  | nil => rfl
  | cons d s ih =>
    have hnot : pat.isPrefixOf (d :: s) = false := by
      rw [← Bool.not_eq_true, List.isPrefixOf_iff_prefix]
      exact fun h ↦ hs (h.subset hc)
    rw [removeAll, hnot, if_neg Bool.false_ne_true, ih (List.not_mem_of_not_mem_cons hs)]

/-- **The pattern is removed** from before text without one of its characters. -/
theorem removeAll_pattern_append {pat : PyStr} (hc : c ∈ pat) (hs : c ∉ s) :
    removeAll pat 0 (pat ++ s) = s := by
  obtain ⟨d, p, rfl⟩ := List.exists_cons_of_ne_nil (List.ne_nil_of_mem hc)
  have hpre : (d :: p).isPrefixOf (d :: (p ++ s)) = true :=
    List.isPrefixOf_iff_prefix.2 (List.prefix_append (d :: p) s)
  rw [List.cons_append, removeAll, hpre, if_pos rfl, List.length_cons, Nat.add_sub_cancel,
    removeAll_append, removeAll_of_not_mem hc hs]

end PyStr
