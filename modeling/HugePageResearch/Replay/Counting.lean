import HugePageResearch.Replay.Replayer

/-!
# The generator and the replayer count alike

A breakpoint is a number of accesses, counted by `parse_log` when it is drawn up and by `replay`
when it is compared. The two read a line of the log in different ways: one tests a prefix of the
line and scans the whole of it for quoted tokens, the other takes the line apart and scans what
follows the bracket. On a line of the log (`LogLine`) both read the first argument
(`primaryKey_eq`, `map_key_parseLine`), so over a whole log the counts agree, at every line of it
(`count_replay`).
-/

namespace Replay

open PyStr Regex

/-! ### The lines of a log -/

/-- A line that iterating over a log yields, up to the white space that ends it, with its first
argument: a MONITOR line with quoted tokens that hold no line feed, an answer `OK`, or a blank
line. -/
inductive LogLine : PyStr → Option PyStr → Prop where
  /-- A line of MONITOR. -/
  | monitor (h : LineHeader) (haddr : '"' ∉ h.addr) {verb : PyStr} {args : List PyStr}
    (hquoted : ∀ m ∈ verb :: args, QuotedText m)
    (hline : ∀ c ∈ joinQuoted (verb :: args), c ≠ '\n') {ws : PyStr}
    (hws : ∀ c ∈ ws, isSpace c = true) :
    LogLine (h.text ++ joinQuoted (verb :: args) ++ ws) args.head?
  /-- An answer. -/
  | ok {ws : PyStr} (hws : ∀ c ∈ ws, isSpace c = true) : LogLine (['O', 'K'] ++ ws) none
  /-- A blank line. -/
  | blank {ws : PyStr} (hws : ∀ c ∈ ws, isSpace c = true) : LogLine ws none

/-- A line of a log. -/
def IsLogLine (raw : PyStr) : Prop := ∃ arg, LogLine raw arg

theorem strip_blank {ws : PyStr} (hws : ∀ c ∈ ws, isSpace c = true) : strip ws = [] := by
  rw [strip, List.dropWhile_eq_nil_iff.2 hws]
  rfl

theorem strip_ok {ws : PyStr} (hws : ∀ c ∈ ws, isSpace c = true) :
    strip (['O', 'K'] ++ ws) = ['O', 'K'] :=
  @strip_append ['O', 'K'] ws 'O' 'K' ['K'] ['O'] rfl rfl (by decide) (by decide) hws

/-! ### The generator's reading of a line -/

section Lines

variable [Python]

theorem isDecimal_point : isDecimal '.' = false := by
  rw [isDecimal, Python.decimal_ascii '.' (by decide)]
  rfl

/-- **The generator's line pattern** matches a line of MONITOR. -/
theorem isSome_exec_logLineRe (h : LineHeader) (s : PyStr) :
    (logLineRe.exec (h.text ++ s)).isSome := by
  have hspace : isSpace ' ' = true := by decide
  -- `.+?\]\s+` on what follows the bracket
  have hlazy : (matchK (cat [lazyPlus (cls (· != '\n')), chr ']', plus (cls isSpace)])
      ⟨[], (h.db ++ ' ' :: h.addr) ++ ']' :: ' ' :: s⟩ some).isSome := by
    rw [matchK_cat_cons]
    refine isSome_matchK_lazyPlus_cls _ _ _ (by simp) (fun c hc ↦ ?_) ?_
    · rw [bne_iff_ne]
      rintro rfl
      rcases List.mem_append.1 hc with hc | hc
      · exact absurd (h.db_digits _ hc) (by decide)
      · rcases List.mem_cons.1 hc with hc | hc
        · exact absurd hc (by decide)
        · exact absurd (h.addr_noSpace _ hc) (by decide)
    · rw [matchK_cat_cons, matchK_chr_cons, if_pos rfl, matchK_cat_cons, matchK_plus,
        matchK_cls_cons, if_pos hspace]
      exact isSome_matchK_star _ _ _ rfl
  obtain ⟨b, hb⟩ := Option.isSome_iff_exists.1 hlazy
  refine Option.isSome_iff_exists.2 ⟨b, ?_⟩
  have htext : h.text ++ s = h.sec ++ '.' :: (h.frac ++ (' ' :: '[' ::
      ((h.db ++ ' ' :: h.addr) ++ ']' :: ' ' :: s))) := by
    rw [h.text_append, LineHeader.timestamp]
    simp
  rw [htext, exec, logLineRe]
  -- `\d+\.\d+`
  rw [matchK_cat_cons]
  refine matchK_plus_cls_run _ _ _ h.sec_ne (fun d hd ↦ isDecimal_of_isDigit (h.sec_digits d hd))
    ?_ ?_
  · intro d hd
    obtain rfl : d = '.' := by simpa using hd.symm
    exact isDecimal_point
  rw [matchK_cat_cons, matchK_chr_cons, if_pos rfl, matchK_cat_cons]
  refine matchK_plus_cls_run _ _ _ h.frac_ne (fun d hd ↦ isDecimal_of_isDigit (h.frac_digits d hd))
    ?_ ?_
  · intro d hd
    obtain rfl : d = ' ' := by simpa using hd.symm
    exact isDecimal_space
  -- `\s+\[`
  rw [matchK_cat_cons]
  refine matchK_plus_cls_run (m := [' ']) _ _ _ (by simp) (by simp [hspace]) ?_ ?_
  · intro d hd
    obtain rfl : d = '[' := by simpa using hd.symm
    decide
  rw [matchK_cat_cons, matchK_chr_cons, if_pos rfl]
  exact hb

omit [Python] in
/-- Nothing in front of the tokens is a quote. -/
theorem LineHeader.ne_quote_of_mem_text {h : LineHeader} (haddr : '"' ∉ h.addr) {c : Char}
    (hc : c ∈ h.text) : c ≠ '"' := by
  rintro rfl
  rw [LineHeader.text, List.mem_append] at hc
  rcases hc with hc | hc
  · rcases LineHeader.mem_timestamp hc with hc | hc <;> exact absurd hc (by decide)
  · simp only [List.mem_cons, List.mem_append, List.not_mem_nil, or_false] at hc
    rcases hc with hc | hc | hc | hc | hc | hc | hc
    · exact absurd hc (by decide)
    · exact absurd hc (by decide)
    · exact absurd (h.db_digits _ hc) (by decide)
    · exact absurd hc (by decide)
    · exact haddr hc
    · exact absurd hc (by decide)
    · exact absurd hc (by decide)

omit [Python] in
/-- **Scanning the whole line** finds the tokens and nothing in front of them. -/
theorem findall_line {h : LineHeader} (haddr : '"' ∉ h.addr) {ms : List PyStr}
    (hquoted : ∀ m ∈ ms, QuotedText m) :
    quotedTokenRe.findall 1 (h.text ++ joinQuoted ms) = ms := by
  rw [findall, findallFrom_skip quotedTokenRe
    (fun c hc s ↦ exec_quotedTokenRe_of_ne (LineHeader.ne_quote_of_mem_text haddr hc) s)
    (by rw [List.length_append]; omega)]
  exact findallFrom_joinQuoted hquoted (by rw [List.length_append]; omega)

/-- An answer is no command. -/
theorem parseLine_ok {ws : PyStr} (hws : ∀ c ∈ ws, isSpace c = true) :
    parseLine (['O', 'K'] ++ ws) = none := by
  have hdecimal : isDecimal 'O' = false := by
    rw [isDecimal, Python.decimal_ascii 'O' (by decide)]
    rfl
  have hexec : monitorLineRe.exec ['O', 'K'] = none := by
    simp [monitorLineRe, exec, hdecimal]
  rw [parseLine, strip_ok hws, if_neg (List.cons_ne_nil _ _), hexec]

/-- **The generator reads the first argument** of every line of a log. -/
theorem primaryKey_eq {raw : PyStr} {arg : Option PyStr} (h : LogLine raw arg) :
    primaryKey raw = arg := by
  rcases h with ⟨h, haddr, hquoted, hline, hws⟩ | hws | hws
  · rename_i verb args ws
    obtain ⟨t, ht⟩ := joinQuoted_cons verb args
    have hne : h.text ++ joinQuoted (verb :: args) ≠ [] := by simp [ht]
    obtain ⟨a, as, hsec⟩ := List.exists_cons_of_ne_nil h.sec_ne
    have hok : startswith (h.text ++ joinQuoted (verb :: args)) "OK".toList = false := by
      have ha : a ≠ 'O' := by
        rintro rfl
        exact absurd (h.sec_digits 'O' (by rw [hsec]; exact List.mem_cons_self)) (by decide)
      rw [LineHeader.text, LineHeader.timestamp, hsec, startswith]
      exact Bool.eq_false_iff.2 fun hpre ↦
        ha (List.cons_prefix_cons.1 (List.isPrefixOf_iff_prefix.1 hpre)).1.symm
    rw [primaryKey, h.strip_line verb args hws]
    have hskip : ¬ (h.text ++ joinQuoted (verb :: args) = [] ∨
        startswith (h.text ++ joinQuoted (verb :: args)) "OK".toList = true) := by
      rw [hok]
      exact fun hc ↦ hc.elim hne Bool.false_ne_true
    have hmatch : ¬ (logLineRe.exec (h.text ++ joinQuoted (verb :: args))).isNone = true := by
      obtain ⟨q, hq⟩ := Option.isSome_iff_exists.1
        (isSome_exec_logLineRe h (joinQuoted (verb :: args)))
      rw [hq]
      exact Bool.false_ne_true
    rw [if_neg hskip, if_neg hmatch, findall_line haddr hquoted]
    rcases args with - | ⟨key, args⟩ <;> rfl
  · rw [primaryKey, strip_ok hws]
    rfl
  · rw [primaryKey, strip_blank hws]
    rfl

/-- **So does the replayer**: a command's key is the first argument, or empty. -/
theorem map_key_parseLine {raw : PyStr} {arg : Option PyStr} (h : LogLine raw arg) :
    (parseLine raw).map RedisCommand.key = arg ∨
      arg = none ∧ (parseLine raw).map RedisCommand.key = some [] := by
  rcases h with ⟨h, haddr, hquoted, hline, hws⟩ | hws | hws
  · rename_i verb args ws
    rw [parseLine_line h hquoted hline hws]
    rcases args with - | ⟨key, args⟩
    · exact Or.inr ⟨rfl, rfl⟩
    · exact Or.inl rfl
  · rw [parseLine_ok hws]
    exact Or.inl rfl
  · rw [parseLine, strip_blank hws]
    exact Or.inl rfl

section Keys

variable {lines : List PyStr} {args : List (Option PyStr)} (h : List.Forall₂ LogLine lines args)

include h in
/-- What the generator counts over the lines of a log. -/
theorem countP_primaryKey (k : PyStr) :
    (lines.filterMap primaryKey).countP (· = k) = args.countP (· = some k) := by
  induction h with
  | nil => rfl
  | @cons raw arg lines args hraw _ ih =>
    have hkey := primaryKey_eq hraw
    rw [List.countP_cons, ← ih]
    rcases arg with - | key
    · rw [List.filterMap_cons_none hkey]
      rfl
    · rw [List.filterMap_cons_some hkey, List.countP_cons]
      simp only [decide_eq_true_eq, Option.some.injEq]

include h in
/-- What the replayer counts over them, for a key that is not empty. -/
theorem countP_key {k : PyStr} (hk : k ≠ []) :
    ((lines.filterMap parseLine).countP fun cmd ↦ cmd.key = k) = args.countP (· = some k) := by
  induction h with
  | nil => rfl
  | @cons raw arg lines args hraw _ ih =>
    rw [List.countP_cons, ← ih]
    rcases hparse : parseLine raw with - | cmd
    · have harg : arg = none := by
        rcases map_key_parseLine hraw with harg | ⟨harg, -⟩
        · rw [← harg, hparse]
          rfl
        · exact harg
      rw [List.filterMap_cons_none hparse, harg]
      rfl
    · rw [List.filterMap_cons_some hparse, List.countP_cons]
      refine congrArg _ (if_congr ?_ rfl rfl)
      rw [decide_eq_true_eq, decide_eq_true_eq]
      rcases map_key_parseLine hraw with harg | ⟨rfl, harg⟩
      · rw [← harg, hparse, Option.map_some, Option.some.injEq]
      · rw [hparse, Option.map_some, Option.some.injEq] at harg
        exact iff_of_false (fun hkey ↦ hk (hkey.symm.trans harg)) fun h ↦ (by cases h)

end Keys

end Lines

/-! ### A replay that is stopped at a line -/

section Prefix

variable [Python] (srv : Server) (breakpoints : Dict PyStr ℤ)

omit [Python] in
theorem Ended.andThen_assoc (r : Ended) (f g : Replayed → Ended) :
    (r.andThen f).andThen g = r.andThen fun s ↦ (f s).andThen g := by
  rcases r with ⟨s, - | e⟩ <;> rfl

theorem replayLines_append (pid : ℤ) (s : Replayed) (ls ls' : List (PyStr × ℕ)) :
    replayLines srv breakpoints pid s (ls ++ ls') =
      (replayLines srv breakpoints pid s ls).andThen
        fun s ↦ replayLines srv breakpoints pid s ls' := by
  induction ls generalizing s with
  | nil => rfl
  | cons e ls ih =>
    rw [List.cons_append, replayLines, replayLines, Ended.andThen_assoc]
    exact congrArg _ (funext ih)

/-- **Replay goes over a trace line by line**: the state in which it turns to the lines after a
first part of the trace is the one in which the replay of that part ends. -/
theorem replayFrom_append (lines lines' : List PyStr) :
    replayFrom srv breakpoints (lines ++ lines') =
      (replayFrom srv breakpoints lines).andThen fun s ↦
        match srv.getRedisPid with
        | .error e => (s, some e)
        | .ok pid =>
          replayLines srv breakpoints pid s (lines'.zipIdx (1 + lines.length)) := by
  rw [replayFrom, replayFrom]
  rcases srv.getRedisPid with e | pid
  · rfl
  · dsimp only
    rw [Ended.andThen_assoc, List.zipIdx_append]
    exact congrArg _ (funext fun s ↦ replayLines_append srv breakpoints pid _ _ _)

end Prefix

/-! ### The counts agree -/

section Count

variable [Python] {srv : Server} {breakpoints : Dict PyStr ℤ}

omit [Python] in
theorem successes_eq_accesses {cs : List (RedisCommand × ℕ)}
    (hexec : ∀ c ∈ cs, succeeds srv c = true) (k : PyStr) : successes srv cs k = accesses cs k := by
  refine List.countP_congr fun c hc ↦ ?_
  rw [hexec c hc, Bool.and_true]

theorem accesses_commandsOf (lines : List PyStr) (n : ℕ) (k : PyStr) :
    accesses (commandsOf (lines.zipIdx n)) k =
      (lines.filterMap parseLine).countP fun cmd ↦ cmd.key = k := by
  induction lines generalizing n with
  | nil => rfl
  | cons raw lines ih =>
    rw [List.zipIdx_cons, commandsOf]
    rcases hparse : parseLine raw with - | cmd
    · rw [List.filterMap_cons_none (by rw [hparse]; rfl), List.filterMap_cons_none hparse]
      exact ih (n + 1)
    · rw [List.filterMap_cons_some (by rw [hparse]; rfl), List.filterMap_cons_some hparse, accesses,
        List.countP_cons, List.countP_cons]
      exact congrArg (· + _) (ih (n + 1))

/-- What a replay that raised nothing has counted. -/
theorem count_replayFrom {lines : List PyStr}
    (hexec : ∀ c ∈ commandsOf (lines.zipIdx 1), succeeds srv c = true)
    (hrun : (replayFrom srv breakpoints lines).2 = none) {k : PyStr} (hk : k ≠ []) :
    (replayFrom srv breakpoints lines).1.accessCounts.count k =
      (lines.filterMap parseLine).countP fun cmd ↦ cmd.key = k := by
  rcases replayFrom_cases srv breakpoints lines with ⟨-, hraise, -⟩ | ⟨pid, -, -, -, hcounts⟩
  · exact absurd hrun hraise
  · rw [hcounts hrun k hk, successes_eq_accesses hexec, accesses_commandsOf]

end Count

/-- The lines of a log have their first arguments. -/
theorem exists_forall₂_logLine {lines : List PyStr} (h : ∀ raw ∈ lines, IsLogLine raw) :
    ∃ args, List.Forall₂ LogLine lines args := by
  induction lines with
  | nil => exact ⟨[], .nil⟩
  | cons raw lines ih =>
    obtain ⟨⟨arg, hraw⟩, hlines⟩ := List.forall_mem_cons.1 h
    obtain ⟨args, hargs⟩ := ih hlines
    exact ⟨arg :: args, .cons hraw hargs⟩

/-- **The generator and the replayer count accesses alike**: over a log every line of which is one,
a replay that returns ends with the counts that `parse_log` finds, for every split target, and at
each line it has counted the lines before it whose first argument is the key. -/
theorem count_replay [Python] (srv : Server) (log : PyStr) (breakpoints : Option (Dict PyStr ℤ))
    (hlog : ∀ raw ∈ fileLines log, IsLogLine raw)
    (hexec : ∀ c ∈ traceCommands log, succeeds srv c = true)
    (hrun : (replay srv log breakpoints).2 = none) {k : PyStr}
    (hk : isReplaySplitTarget k = true) :
    (replay srv log breakpoints).1.accessCounts.count k = (parseLog log).count k ∧
    ∀ before raw after, fileLines log = before ++ raw :: after →
      ∀ args, List.Forall₂ LogLine before args →
        (replayFrom srv (breakpoints.getD Dict.empty) before).1.accessCounts.count k =
          args.countP (· = some k) := by
  have hne : k ≠ [] := by
    rintro rfl
    exact absurd hk (by decide)
  refine ⟨?_, fun before raw after hsplit args hargs ↦ ?_⟩
  · obtain ⟨args, hargs⟩ := exists_forall₂_logLine hlog
    rw [count_parseLog log hk, countP_primaryKey hargs, ← countP_key hargs hne]
    exact count_replayFrom hexec hrun hne
  · rw [replay, hsplit, replayFrom_append] at hrun
    have hstop : (replayFrom srv (breakpoints.getD Dict.empty) before).2 = none := by
      rcases hr : replayFrom srv (breakpoints.getD Dict.empty) before with ⟨s, - | e⟩
      · rfl
      · rw [hr] at hrun
        cases hrun
    rw [← countP_key hargs hne]
    refine count_replayFrom (fun c hc ↦ hexec c ?_) hstop hne
    rw [traceCommands, hsplit, List.zipIdx_append, commandsOf, List.filterMap_append]
    exact List.mem_append_left _ hc

/-- A log with an answer, a read of `user1` and a blank line. -/
def mixedLog : PyStr := ['O', 'K', '\n'] ++ oneRead ++ ['\n']

theorem isLogLine_mixedLog : ∀ raw ∈ fileLines mixedLog, IsLogLine raw := by
  have hnewline : ∀ c ∈ ['\n'], isSpace c = true := List.all_iff_forall_prop.1 (by decide)
  have hlines : fileLines mixedLog = [['O', 'K', '\n'], oneRead, ['\n']] := by decide +kernel
  have hquoted : ∀ m ∈ [['G', 'E', 'T'], user1], QuotedText m := by
    intro m hm
    rcases List.mem_pair.1 hm with rfl | rfl <;>
      repeat' first | exact .nil | refine .plain (by decide) (by decide) ?_
  rw [hlines]
  refine List.forall_mem_cons.2 ⟨⟨none, .ok hnewline⟩, List.forall_mem_cons.2 ⟨⟨some user1, ?_⟩,
    List.forall_mem_singleton.2 ⟨none, .blank hnewline⟩⟩⟩
  exact .monitor shortHeader (by decide) hquoted (List.all_iff_forall_prop.1 (by decide)) hnewline

theorem count_replay_mixedLog :
    (@replay Python.ascii (failingAt []) mixedLog none).1.accessCounts.count user1 =
      (@parseLog Python.ascii mixedLog).count user1 :=
  (@count_replay Python.ascii (failingAt []) mixedLog none isLogLine_mixedLog (by decide +kernel)
    (by decide +kernel) user1 (by decide)).1

end Replay
