import HugePageResearch.Python.Regex

/-!
# Reading a MONITOR log

`data_collection/replay_trace.py` replays the log that `redis-cli monitor` printed. This module
embeds its two patterns and `parse_line`, and sets beside them the printer they read from: a line of
Redis' `MONITOR` command, in which every argument is quoted and escaped.

`parseLine_monitorLine` says what `parse_line` makes of a printed line, for every command: the
tokens are found and told apart exactly, and each is handed over **as it was printed**, escapes
included. So what is replayed is what was captured exactly when nothing had to be escaped.
-/

namespace Replay

open PyStr Regex

/-! ### `parse_line` -/

/-- A single parsed command of the log. -/
structure RedisCommand where
  /-- The command verb. -/
  command : PyStr
  /-- All arguments after the verb. -/
  args : List PyStr := []
  /-- The key operated on: the first argument, or the empty string. -/
  key : PyStr := []
  deriving DecidableEq

section Patterns

variable [Python]

/-- `\d`. -/
def isDecimal (c : Char) : Bool :=
  (Python.decimal c).isSome

/-- `_MONITOR_LINE_RE`, with its groups `timestamp`, `db_id`, `client_addr` and `tokens` numbered
1 to 4. -/
def monitorLineRe : Regex :=
  cat [group 1 (plus (cls fun c ↦ isDecimal c || c == '.')),
    plus (cls isSpace), chr '[', group 2 (plus (cls isDecimal)),
    plus (cls isSpace), group 3 (plus (cls fun c ↦ !isSpace c)), chr ']',
    plus (cls isSpace), group 4 (plus (cls (· != '\n'))), eos]

end Patterns

/-- The body of a quoted token: `[^"\\]` or `\\.`. -/
def tokenUnitRe : Regex :=
  alt (cls fun c ↦ c != '"' && c != '\\') (seq (chr '\\') (cls (· != '\n')))

/-- `_QUOTED_TOKEN_RE`. -/
def quotedTokenRe : Regex :=
  cat [chr '"', group 1 (star tokenUnitRe), chr '"']

/-- `parse_line`. -/
def parseLine [Python] (line : PyStr) : Option RedisCommand :=
  let line := strip line
  if line = [] then none
  else
    match monitorLineRe.exec line with
    | none => none
    | some m =>
      match quotedTokenRe.findall 1 ((m.group 4).getD []) with
      | [] => none
      | command :: args => some { command, args, key := args.headD [] }

/-! ### What Redis prints -/

/-- The bytes that C's `isprint` accepts. -/
def isPrint (b : UInt8) : Bool :=
  32 ≤ b.toNat && b.toNat ≤ 126

/-- The printed form of one byte of an argument. -/
def reprByte (b : UInt8) : PyStr :=
  let c := Char.ofNat b.toNat
  if c = '"' ∨ c = '\\' then ['\\', c]
  else if b = 10 then ['\\', 'n']
  else if b = 13 then ['\\', 'r']
  else if b = 9 then ['\\', 't']
  else if b = 7 then ['\\', 'a']
  else if b = 8 then ['\\', 'b']
  else if isPrint b then [c]
  else ['\\', 'x', Nat.digitChar (b.toNat / 16), Nat.digitChar (b.toNat % 16)]

/-- The printed form of an argument, without its quotes. -/
def reprArg (bs : List UInt8) : PyStr :=
  bs.flatMap reprByte

/-- What precedes the arguments of a line. -/
structure MonitorHeader where
  /-- Seconds of the time stamp. -/
  sec : ℕ
  /-- Microseconds of the time stamp. -/
  usec : ℕ
  /-- The database the command ran on. -/
  db : ℕ
  /-- The address of the client. -/
  addr : PyStr
  /-- Redis always prints an address. -/
  addr_ne : addr ≠ []
  /-- An address holds no white space. -/
  addr_noSpace : ∀ c ∈ addr, isSpace c = false

/-- `<sec>.<usec>`, the microseconds padded to six digits. -/
def MonitorHeader.timestamp (h : MonitorHeader) : PyStr :=
  Nat.toDigits 10 h.sec ++ '.' :: List.leftpad 6 '0' (Nat.toDigits 10 h.usec)

/-- What precedes the tokens of a line of the log, as text. -/
structure LineHeader where
  /-- The digits before the point of the time stamp. -/
  sec : PyStr
  /-- The digits after it. -/
  frac : PyStr
  /-- The database the command ran on. -/
  db : PyStr
  /-- The address of the client. -/
  addr : PyStr
  /-- There are digits before the point. -/
  sec_ne : sec ≠ []
  /-- They are digits. -/
  sec_digits : ∀ c ∈ sec, c.isDigit = true
  /-- There are digits after the point. -/
  frac_ne : frac ≠ []
  /-- They are digits. -/
  frac_digits : ∀ c ∈ frac, c.isDigit = true
  /-- The database has a number. -/
  db_ne : db ≠ []
  /-- It consists of digits. -/
  db_digits : ∀ c ∈ db, c.isDigit = true
  /-- There is an address. -/
  addr_ne : addr ≠ []
  /-- An address holds no white space. -/
  addr_noSpace : ∀ c ∈ addr, isSpace c = false

/-- `<sec>.<frac>`. -/
def LineHeader.timestamp (h : LineHeader) : PyStr :=
  h.sec ++ '.' :: h.frac

/-- `<sec>.<frac> [<db> <addr>] `, with the blank after the bracket. -/
def LineHeader.text (h : LineHeader) : PyStr :=
  h.timestamp ++ (' ' :: '[' :: (h.db ++ ' ' :: (h.addr ++ [']', ' '])))

theorem LineHeader.text_append (h : LineHeader) (s : PyStr) : h.text ++ s =
    h.timestamp ++ (' ' :: '[' :: (h.db ++ ' ' :: (h.addr ++ ']' :: ' ' :: s))) := by
  simp [text]

theorem toDigits_ten_isDigit (n : ℕ) : ∀ c ∈ Nat.toDigits 10 n, c.isDigit = true :=
  fun _ hc ↦ Nat.isDigit_of_mem_toDigits (by decide) (by decide) hc

/-- What Redis prints in front of the arguments is such a text. -/
def MonitorHeader.lineHeader (h : MonitorHeader) : LineHeader where
  sec := Nat.toDigits 10 h.sec
  frac := List.leftpad 6 '0' (Nat.toDigits 10 h.usec)
  db := Nat.toDigits 10 h.db
  addr := h.addr
  sec_ne := Nat.toDigits_ne_nil
  sec_digits := toDigits_ten_isDigit h.sec
  frac_ne := List.append_ne_nil_of_right_ne_nil _ Nat.toDigits_ne_nil
  frac_digits c hc := by
    rcases List.mem_append.1 hc with hc | hc
    · rw [List.eq_of_mem_replicate hc]
      rfl
    · exact toDigits_ten_isDigit h.usec c hc
  db_ne := Nat.toDigits_ne_nil
  db_digits := toDigits_ten_isDigit h.db
  addr_ne := h.addr_ne
  addr_noSpace := h.addr_noSpace

/-- A token in its quotes. -/
def quoted (m : PyStr) : PyStr :=
  '"' :: m ++ ['"']

/-- The quoted tokens, one blank apart. -/
def joinQuoted : List PyStr → PyStr
  | [] => []
  | [m] => quoted m
  | m :: m' :: ms => quoted m ++ ' ' :: joinQuoted (m' :: ms)

/-- The line that `MONITOR` prints for a command, given as its verb and its arguments. -/
def monitorLine (h : MonitorHeader) (verb : List UInt8) (args : List (List UInt8)) : PyStr :=
  h.timestamp ++ (' ' :: '[' :: (Nat.toDigits 10 h.db ++ ' ' :: (h.addr ++ ']' :: ' ' ::
    joinQuoted ((verb :: args).map reprArg))))

/-! ### Quoted text -/

/-- Text that may stand between two quotes: plain characters, and a backslash with any one character
but a line feed after it. -/
inductive QuotedText : PyStr → Prop where
  | nil : QuotedText []
  | plain {c : Char} {m : PyStr} (hq : c ≠ '"') (hb : c ≠ '\\') (hm : QuotedText m) :
    QuotedText (c :: m)
  | escape {c : Char} {m : PyStr} (hn : c ≠ '\n') (hm : QuotedText m) : QuotedText ('\\' :: c :: m)

theorem QuotedText.append {m m' : PyStr} (hm : QuotedText m) (hm' : QuotedText m') :
    QuotedText (m ++ m') := by
  induction hm with
  | nil => exact hm'
  | plain hq hb _ ih => exact .plain hq hb ih
  | escape hn _ ih => exact .escape hn ih

variable {β : Type*} {g : List (ℕ × PyStr)} {k : Pos → Option β} {b : β}

theorem matchK_tokenUnitRe_plain {c : Char} (hq : c ≠ '"') (hb : c ≠ '\\') (t : PyStr) :
    matchK tokenUnitRe ⟨g, c :: t⟩ k = k ⟨g, t⟩ := by
  simp [tokenUnitRe, hq, hb]

theorem matchK_tokenUnitRe_escape {c : Char} (hn : c ≠ '\n') (t : PyStr) :
    matchK tokenUnitRe ⟨g, '\\' :: c :: t⟩ k = k ⟨g, t⟩ := by
  simp [tokenUnitRe, hn]

theorem matchK_tokenUnitRe_quote (t : PyStr) : matchK tokenUnitRe ⟨g, '"' :: t⟩ k = none := by
  simp [tokenUnitRe]

/-- The repetition inside a quoted token consumes quoted text up to where it can go on. -/
theorem QuotedText.matchK_star {m : PyStr} (hm : QuotedText m) {t : PyStr}
    (ht : matchK (star tokenUnitRe) ⟨g, t⟩ k = some b) :
    matchK (star tokenUnitRe) ⟨g, m ++ t⟩ k = some b := by
  induction hm with
  | nil => exact ht
  | plain hq hb _ ih =>
    rw [List.cons_append, Regex.matchK_star, matchK_tokenUnitRe_plain hq hb, ih]
    simp
  | escape hn _ ih =>
    rw [List.cons_append, List.cons_append, Regex.matchK_star, matchK_tokenUnitRe_escape hn, ih,
      if_pos (by simp only [List.length_cons]; omega), Option.some_or]

/-- The repetition stops at a closing quote. -/
theorem matchK_star_quote (t : PyStr) :
    matchK (star tokenUnitRe) ⟨g, '"' :: t⟩ k = k ⟨g, '"' :: t⟩ := by
  rw [Regex.matchK_star, matchK_tokenUnitRe_quote, Option.none_or]

/-- **One token.** At an opening quote the pattern takes the text up to its closing quote. -/
theorem exec_quotedTokenRe {m : PyStr} (hm : QuotedText m) (t : PyStr) :
    quotedTokenRe.exec (quoted m ++ t) = some ⟨[(1, m)], t⟩ := by
  have hstar : matchK (star tokenUnitRe) ⟨[], m ++ '"' :: t⟩
      (fun q ↦ matchK (cat [chr '"'])
        ⟨(1, (m ++ '"' :: t).take ((m ++ '"' :: t).length - q.rest.length)) :: q.groups, q.rest⟩
        some) = some ⟨[(1, m)], t⟩ := by
    refine hm.matchK_star ?_
    rw [matchK_star_quote]
    simp
  simpa [quotedTokenRe, exec, quoted] using hstar

theorem exec_quotedTokenRe_of_ne {c : Char} (hc : c ≠ '"') (t : PyStr) :
    quotedTokenRe.exec (c :: t) = none := by
  simp [quotedTokenRe, exec, hc]

/-- **All tokens.** The scan finds exactly the tokens that were joined, whatever they contain. -/
theorem findallFrom_joinQuoted {ms : List PyStr} (hms : ∀ m ∈ ms, QuotedText m) {fuel : ℕ}
    (hfuel : (joinQuoted ms).length ≤ fuel) :
    findallFrom quotedTokenRe 1 fuel (joinQuoted ms) = ms := by
  have hnil : quotedTokenRe.exec [] = none := rfl
  induction ms generalizing fuel with
  | nil => exact findallFrom_nil _ _ _ hnil
  | cons m ms ih =>
    have hm := hms m List.mem_cons_self
    have hrest : ∀ fuel, (joinQuoted ms).length ≤ fuel →
        findallFrom quotedTokenRe 1 fuel (joinQuoted ms) = ms :=
      fun _ hlen ↦ ih (fun m' h' ↦ hms m' (List.mem_cons_of_mem _ h')) hlen
    cases ms with
    | nil =>
      obtain ⟨fuel, rfl⟩ : ∃ n, fuel = n + 1 :=
        ⟨fuel - 1, by simp [joinQuoted, quoted] at hfuel; omega⟩
      have hexec := exec_quotedTokenRe hm []
      rw [List.append_nil] at hexec
      rw [joinQuoted, findallFrom_of_exec _ hexec rfl, findallFrom_nil _ _ _ hnil]
    | cons m' ms =>
      obtain ⟨fuel, rfl⟩ : ∃ n, fuel = n + 2 :=
        ⟨fuel - 2, by simp [joinQuoted, quoted] at hfuel; omega⟩
      have hlen : (joinQuoted (m' :: ms)).length ≤ fuel := by
        simp [joinQuoted, quoted] at hfuel ⊢
        omega
      rw [joinQuoted, findallFrom_of_exec _ (exec_quotedTokenRe hm _) rfl,
        findallFrom_of_not_exec _ (exec_quotedTokenRe_of_ne (by decide) _), List.tail_cons,
        hrest fuel hlen]

/-! ### The printed form of an argument -/

/-- A byte that is printed as the character it is. -/
def Plain (b : UInt8) : Prop :=
  isPrint b = true ∧ b ≠ 34 ∧ b ≠ 92

instance (b : UInt8) : Decidable (Plain b) :=
  inferInstanceAs (Decidable (_ ∧ _))

theorem toNat_ofNat_byte (b : UInt8) : (Char.ofNat b.toNat).toNat = b.toNat := by
  have hlt := b.toNat_lt
  have hv : b.toNat.isValidChar := Or.inl (by omega)
  rw [Char.ofNat, dif_pos hv]
  rfl

theorem ofNat_byte_eq_iff (b b' : UInt8) : Char.ofNat b.toNat = Char.ofNat b'.toNat ↔ b = b' := by
  constructor
  · intro h
    have := congrArg Char.toNat h
    rw [toNat_ofNat_byte, toNat_ofNat_byte] at this
    exact UInt8.toNat_inj.1 this
  · rintro rfl
    rfl

/-- Hexadecimal digits are plain characters. -/
theorem digitChar_plain : ∀ n < 16, Nat.digitChar n ≠ '"' ∧ Nat.digitChar n ≠ '\\' ∧
    48 ≤ (Nat.digitChar n).toNat ∧ (Nat.digitChar n).toNat ≤ 102 := by
  decide

theorem byte_div_lt (b : UInt8) : b.toNat / 16 < 16 := by
  have := b.toNat_lt
  omega

theorem byte_mod_lt (b : UInt8) : b.toNat % 16 < 16 :=
  Nat.mod_lt _ (by decide)

/-- **The three shapes of a printed byte**: itself, a two-character escape, or `\xNN`. -/
theorem reprByte_cases (b : UInt8) :
    (Plain b ∧ reprByte b = [Char.ofNat b.toNat]) ∨
    (¬ Plain b ∧ ∃ c : Char, reprByte b = ['\\', c] ∧ 32 ≤ c.toNat ∧ c.toNat ≤ 126) ∨
    (¬ Plain b ∧ reprByte b =
      ['\\', 'x', Nat.digitChar (b.toNat / 16), Nat.digitChar (b.toNat % 16)]) := by
  have hquote : Char.ofNat b.toNat = '"' ↔ b = 34 := ofNat_byte_eq_iff b 34
  have hback : Char.ofNat b.toNat = '\\' ↔ b = 92 := ofNat_byte_eq_iff b 92
  simp only [reprByte, hquote, hback]
  by_cases h : b = 34 ∨ b = 92
  · rcases h with rfl | rfl
    · exact Or.inr (Or.inl ⟨by decide, '"', rfl, by decide⟩)
    · exact Or.inr (Or.inl ⟨by decide, '\\', rfl, by decide⟩)
  · rw [if_neg h]
    obtain ⟨hq, hb⟩ := not_or.1 h
    -- the named control characters come before the test for printability
    split_ifs with h10 h13 h9 h7 h8 hp
    · subst h10
      exact Or.inr (Or.inl ⟨by decide, 'n', rfl, by decide⟩)
    · subst h13
      exact Or.inr (Or.inl ⟨by decide, 'r', rfl, by decide⟩)
    · subst h9
      exact Or.inr (Or.inl ⟨by decide, 't', rfl, by decide⟩)
    · subst h7
      exact Or.inr (Or.inl ⟨by decide, 'a', rfl, by decide⟩)
    · subst h8
      exact Or.inr (Or.inl ⟨by decide, 'b', rfl, by decide⟩)
    · exact Or.inl ⟨⟨hp, hq, hb⟩, rfl⟩
    · exact Or.inr (Or.inr ⟨fun hplain ↦ hp hplain.1, rfl⟩)

/-- Only printable ASCII is printed. -/
theorem reprByte_ascii (b : UInt8) : ∀ c ∈ reprByte b, 32 ≤ c.toNat ∧ c.toNat ≤ 126 := by
  rcases reprByte_cases b with ⟨⟨hp, -⟩, h⟩ | ⟨-, c, h, hc⟩ | ⟨-, h⟩ <;> rw [h]
  · rw [isPrint, Bool.and_eq_true, decide_eq_true_eq, decide_eq_true_eq] at hp
    simpa [toNat_ofNat_byte] using hp
  · intro d hd
    rcases List.mem_pair.1 hd with rfl | rfl
    · decide
    · exact hc
  · obtain ⟨-, -, h1, h1'⟩ := digitChar_plain _ (byte_div_lt b)
    obtain ⟨-, -, h2, h2'⟩ := digitChar_plain _ (byte_mod_lt b)
    intro d hd
    simp only [List.mem_cons, List.not_mem_nil, or_false] at hd
    rcases hd with rfl | rfl | rfl | rfl
    · decide
    · decide
    · omega
    · omega

theorem reprArg_ascii (bs : List UInt8) : ∀ c ∈ reprArg bs, 32 ≤ c.toNat ∧ c.toNat ≤ 126 := by
  intro c hc
  obtain ⟨b, -, hb⟩ := List.mem_flatMap.1 hc
  exact reprByte_ascii b c hb

theorem quotedText_reprByte (b : UInt8) : QuotedText (reprByte b) := by
  rcases reprByte_cases b with ⟨⟨-, hq, hb⟩, h⟩ | ⟨-, c, h, hc⟩ | ⟨-, h⟩ <;> rw [h]
  · have hquote : Char.ofNat b.toNat = '"' ↔ b = 34 := ofNat_byte_eq_iff b 34
    have hback : Char.ofNat b.toNat = '\\' ↔ b = 92 := ofNat_byte_eq_iff b 92
    exact .plain (mt hquote.1 hq) (mt hback.1 hb) .nil
  · refine .escape ?_ .nil
    rintro rfl
    exact absurd hc.1 (by decide)
  · obtain ⟨h1, h1', -⟩ := digitChar_plain _ (byte_div_lt b)
    obtain ⟨h2, h2', -⟩ := digitChar_plain _ (byte_mod_lt b)
    exact .escape (by decide) (.plain h1 h1' (.plain h2 h2' .nil))

/-- A printed argument is quoted text: no quote in it closes the token. -/
theorem quotedText_reprArg (bs : List UInt8) : QuotedText (reprArg bs) := by
  induction bs with
  | nil => exact .nil
  | cons b bs ih => exact (quotedText_reprByte b).append ih

theorem joinQuoted_cons (m : PyStr) (ms : List PyStr) :
    ∃ t, joinQuoted (m :: ms) = '"' :: t := by
  cases ms with
  | nil => exact ⟨m ++ ['"'], rfl⟩
  | cons m' ms => exact ⟨m ++ ['"'] ++ ' ' :: joinQuoted (m' :: ms), rfl⟩

theorem joinQuoted_getLast (m : PyStr) (ms : List PyStr) :
    ∃ t, joinQuoted (m :: ms) = t ++ ['"'] := by
  induction ms generalizing m with
  | nil => exact ⟨'"' :: m, rfl⟩
  | cons m' ms ih =>
    obtain ⟨t, ht⟩ := ih m'
    refine ⟨quoted m ++ ' ' :: t, ?_⟩
    rw [joinQuoted, ht]
    simp

/-- Nothing but printable ASCII stands between the first quote and the last. -/
theorem joinQuoted_ascii {ms : List PyStr} (hms : ∀ m ∈ ms, ∀ c ∈ m, 32 ≤ c.toNat ∧ c.toNat ≤ 126) :
    ∀ c ∈ joinQuoted ms, 32 ≤ c.toNat ∧ c.toNat ≤ 126 := by
  have hquoted : ∀ m ∈ ms, ∀ c ∈ quoted m, 32 ≤ c.toNat ∧ c.toNat ≤ 126 := by
    intro m hm c hc
    simp only [quoted, List.mem_append, List.mem_cons, List.not_mem_nil, or_false] at hc
    rcases hc with (rfl | hc) | rfl
    · decide
    · exact hms m hm c hc
    · decide
  induction ms with
  | nil => intro c hc; exact absurd hc List.not_mem_nil
  | cons m ms ih =>
    cases ms with
    | nil => exact hquoted m List.mem_cons_self
    | cons m' ms =>
      intro c hc
      rw [joinQuoted, List.mem_append, List.mem_cons] at hc
      rcases hc with hc | rfl | hc
      · exact hquoted m List.mem_cons_self c hc
      · decide
      · exact ih (fun x hx ↦ hms x (List.mem_cons_of_mem _ hx))
          (fun x hx ↦ hquoted x (List.mem_cons_of_mem _ hx)) c hc

/-! ### The line pattern on a printed line -/

section Header

variable [Python]

theorem isDecimal_of_isDigit {c : Char} (h : c.isDigit = true) : isDecimal c = true := by
  have hascii : c.toNat < 128 := by have := isDigit_iff.1 h; omega
  rw [isDecimal, Python.decimal_ascii c hascii, if_pos h]
  rfl

theorem isDecimal_space : isDecimal ' ' = false := by
  rw [isDecimal, Python.decimal_ascii ' ' (by decide)]
  rfl

omit [Python] in
theorem isSpace_of_isDigit {c : Char} (h : c.isDigit = true) : isSpace c = false := by
  obtain ⟨h1, h2⟩ := isDigit_iff.1 h
  simp [isSpace]
  omega

omit [Python] in
theorem LineHeader.timestamp_ne (h : LineHeader) : h.timestamp ≠ [] := by
  simp [timestamp]

omit [Python] in
/-- A time stamp consists of digits and one point. -/
theorem LineHeader.mem_timestamp {h : LineHeader} {c : Char} (hc : c ∈ h.timestamp) :
    c.isDigit = true ∨ c = '.' := by
  rw [timestamp, List.mem_append, List.mem_cons] at hc
  rcases hc with hc | rfl | hc
  · exact Or.inl (h.sec_digits c hc)
  · exact Or.inr rfl
  · exact Or.inl (h.frac_digits c hc)

theorem LineHeader.timestamp_class (h : LineHeader) :
    ∀ c ∈ h.timestamp, (isDecimal c || c == '.') = true := by
  intro c hc
  rcases mem_timestamp hc with hc | rfl
  · rw [isDecimal_of_isDigit hc, Bool.true_or]
  · exact Bool.or_true _

omit [Python] in
theorem LineHeader.timestamp_space (h : LineHeader) :
    ∀ c ∈ h.timestamp, isSpace c = false := by
  intro c hc
  rcases mem_timestamp hc with hc | rfl
  · exact isSpace_of_isDigit hc
  · decide

/-- **The line pattern** splits a line of the log into its four groups. The address takes part in
the only backtracking: `\S+` first swallows the closing bracket as well. -/
theorem exec_monitorLineRe (h : LineHeader) {toks : PyStr} {c : Char} {t : PyStr}
    (htoks : toks = c :: t) (hc : isSpace c = false) (hline : ∀ d ∈ toks, d ≠ '\n') :
    monitorLineRe.exec (h.text ++ toks) =
      some ⟨[(4, toks), (3, h.addr), (2, h.db), (1, h.timestamp)], []⟩ := by
  have hspace : isSpace ' ' = true := by decide
  rw [h.text_append, exec, monitorLineRe]
  -- `[\d.]+\s+\[`
  rw [matchK_cat_cons]
  refine matchK_group_plus_cls_run _ _ _ 1 h.timestamp_ne h.timestamp_class ?_ ?_
  · intro d hd
    obtain rfl : d = ' ' := by simpa using hd.symm
    rw [isDecimal_space]
    rfl
  rw [matchK_cat_cons]
  refine matchK_plus_cls_run (m := [' ']) _ _ _ (by simp) (by simp [hspace]) ?_ ?_
  · intro d hd
    obtain rfl : d = '[' := by simpa using hd.symm
    decide
  rw [matchK_cat_cons, matchK_chr_cons, if_pos rfl]
  -- `\d+\s+`
  rw [matchK_cat_cons]
  refine matchK_group_plus_cls_run _ _ _ 2 h.db_ne
    (fun d hd ↦ isDecimal_of_isDigit (h.db_digits d hd)) ?_ ?_
  · intro d hd
    obtain rfl : d = ' ' := by simpa using hd.symm
    exact isDecimal_space
  rw [matchK_cat_cons]
  obtain ⟨a, as, haddr⟩ := List.exists_cons_of_ne_nil h.addr_ne
  refine matchK_plus_cls_run (m := [' ']) _ _ _ (by simp) (by simp [hspace]) ?_ ?_
  · intro d hd
    obtain rfl : d = a := by simpa [haddr] using hd.symm
    exact h.addr_noSpace d (by rw [haddr]; exact List.mem_cons_self)
  -- `\S+\]`, which gives the bracket back
  rw [matchK_cat_cons]
  refine matchK_group_plus_cls_giveBack _ _ _ 3 h.addr_ne
    (fun d hd ↦ by rw [h.addr_noSpace d hd]; rfl) (by decide) ?_ ?_ ?_
  · intro d hd
    obtain rfl : d = ' ' := by simpa using hd.symm
    rw [hspace]
    rfl
  · intro gs
    rw [matchK_cat_cons, matchK_chr_cons, if_neg (by decide)]
  rw [matchK_cat_cons, matchK_chr_cons, if_pos rfl]
  -- `\s+.+$`
  rw [matchK_cat_cons]
  refine matchK_plus_cls_run (m := [' ']) _ _ _ (by simp) (by simp [hspace]) ?_ ?_
  · intro d hd
    obtain rfl : d = c := by simpa [htoks] using hd.symm
    exact hc
  rw [matchK_cat_cons]
  have hrun := matchK_group_plus_cls_run (· != '\n')
    [(3, h.addr), (2, h.db), (1, h.timestamp)]
    (fun q ↦ matchK (cat [eos]) q some) 4 (m := toks) (t := []) (by simp [htoks])
    (fun d hd ↦ by simpa using hline d hd) (by simp) (by simp; rfl)
  rwa [List.append_nil] at hrun

omit [Python] in
/-- Stripping a line of the log removes exactly the white space after its last quote. -/
theorem LineHeader.strip_line (h : LineHeader) (verb : PyStr) (args : List PyStr) {ws : PyStr}
    (hws : ∀ x ∈ ws, isSpace x = true) :
    strip (h.text ++ joinQuoted (verb :: args) ++ ws) = h.text ++ joinQuoted (verb :: args) := by
  obtain ⟨u, hu⟩ := joinQuoted_getLast verb args
  obtain ⟨a, as, hts⟩ := List.exists_cons_of_ne_nil h.timestamp_ne
  have ha : isSpace a = false := h.timestamp_space a (by rw [hts]; exact List.mem_cons_self)
  have hfirst : h.text ++ joinQuoted (verb :: args) = a :: (as ++ (' ' :: '[' ::
      (h.db ++ ' ' :: (h.addr ++ ']' :: ' ' :: joinQuoted (verb :: args))))) := by
    rw [h.text_append, hts, List.cons_append]
  have hlast : h.text ++ joinQuoted (verb :: args) = (h.text ++ u) ++ ['"'] := by
    rw [hu, List.append_assoc]
  exact strip_append hfirst hlast ha (by decide) hws

/-- **What `parse_line` makes of a line of the log**: the verb and every argument, found and told
apart exactly, each in its printed form. White space after the line makes no difference. -/
theorem parseLine_line (h : LineHeader) {verb : PyStr} {args : List PyStr}
    (hquoted : ∀ m ∈ verb :: args, QuotedText m)
    (hline : ∀ d ∈ joinQuoted (verb :: args), d ≠ '\n') {ws : PyStr}
    (hws : ∀ x ∈ ws, isSpace x = true) :
    parseLine (h.text ++ joinQuoted (verb :: args) ++ ws) = some ⟨verb, args, args.headD []⟩ := by
  have hfind : quotedTokenRe.findall 1 (joinQuoted (verb :: args)) = verb :: args :=
    findallFrom_joinQuoted hquoted le_rfl
  obtain ⟨t, ht⟩ := joinQuoted_cons verb args
  have hexec := exec_monitorLineRe h ht (by decide) hline
  have hne : h.text ++ joinQuoted (verb :: args) ≠ [] := by simp [ht]
  rw [parseLine, h.strip_line verb args hws, if_neg hne, hexec]
  show (match quotedTokenRe.findall 1 (joinQuoted (verb :: args)) with
    | [] => none
    | command :: args => some (⟨command, args, args.headD []⟩ : RedisCommand)) = _
  rw [hfind]

/-- **What `parse_line` makes of a printed line**: the verb and every argument, found and told apart
exactly, each in its printed form. Line feeds after the line make no difference. -/
theorem parseLine_monitorLine (h : MonitorHeader) (verb : List UInt8) (args : List (List UInt8))
    (n : ℕ) : parseLine (monitorLine h verb args ++ List.replicate n '\n') =
      some ⟨reprArg verb, args.map reprArg, (args.map reprArg).headD []⟩ := by
  have hmem : ∀ m ∈ (verb :: args).map reprArg, ∀ c ∈ m, 32 ≤ c.toNat ∧ c.toNat ≤ 126 := by
    intro m hm
    obtain ⟨bs, -, rfl⟩ := List.mem_map.1 hm
    exact reprArg_ascii bs
  have hquoted : ∀ m ∈ (verb :: args).map reprArg, QuotedText m := by
    intro m hm
    obtain ⟨bs, -, rfl⟩ := List.mem_map.1 hm
    exact quotedText_reprArg bs
  have hline : ∀ d ∈ joinQuoted ((verb :: args).map reprArg), d ≠ '\n' := by
    rintro d hd rfl
    exact absurd (joinQuoted_ascii hmem _ hd).1 (by decide)
  have htext : monitorLine h verb args =
      h.lineHeader.text ++ joinQuoted ((verb :: args).map reprArg) :=
    (h.lineHeader.text_append _).symm
  rw [htext]
  refine parseLine_line h.lineHeader hquoted hline fun x hx ↦ ?_
  rw [List.eq_of_mem_replicate hx]
  decide

end Header

/-! ### When the captured bytes come back -/

/-- A parsed command carries a captured one when encoding its fields gives the captured bytes. -/
def RedisCommand.Carries (r : RedisCommand) (verb : List UInt8) (args : List (List UInt8)) : Prop :=
  encode r.command = verb ∧ r.args.map encode = args ∧ encode r.key = args.headD []

theorem length_reprByte (b : UInt8) : 1 ≤ (reprByte b).length := by
  rcases reprByte_cases b with ⟨-, h⟩ | ⟨-, c, h, -⟩ | ⟨-, h⟩ <;> rw [h] <;> simp

theorem length_reprByte_of_not_plain {b : UInt8} (hb : ¬ Plain b) : 2 ≤ (reprByte b).length := by
  rcases reprByte_cases b with ⟨hp, -⟩ | ⟨-, c, h, -⟩ | ⟨-, h⟩
  · exact absurd hp hb
  · rw [h]; exact le_rfl
  · rw [h]; simp

theorem length_reprArg (bs : List UInt8) : bs.length ≤ (reprArg bs).length := by
  induction bs with
  | nil => exact le_rfl
  | cons b bs ih =>
    have hb := length_reprByte b
    rw [reprArg, List.flatMap_cons, List.length_append, List.length_cons]
    rw [reprArg] at ih
    omega

/-- An escape makes the printed form longer than the argument. -/
theorem length_reprArg_of_not_plain {bs : List UInt8} {b : UInt8} (hmem : b ∈ bs)
    (hb : ¬ Plain b) : bs.length < (reprArg bs).length := by
  obtain ⟨l, r, rfl⟩ := List.append_of_mem hmem
  have hl := length_reprArg l
  have hr := length_reprArg r
  have hmid := length_reprByte_of_not_plain hb
  rw [reprArg, List.flatMap_append, List.flatMap_cons, List.length_append, List.length_append,
    List.length_append, List.length_cons]
  rw [reprArg] at hl hr
  omega

/-- **The printed form is the argument exactly when nothing in it is escaped.** -/
theorem encode_reprArg_eq_iff (bs : List UInt8) :
    encode (reprArg bs) = bs ↔ ∀ b ∈ bs, Plain b := by
  constructor
  · intro h b hb
    by_contra hplain
    have hlen : (encode (reprArg bs)).length = (reprArg bs).length :=
      length_encode_ascii fun c hc ↦ by
        have := reprArg_ascii bs c hc
        omega
    have hlt := length_reprArg_of_not_plain hb hplain
    rw [h] at hlen
    omega
  · intro h
    induction bs with
    | nil => rfl
    | cons b bs ih =>
      have hb := h b List.mem_cons_self
      have hbyte : reprByte b = [Char.ofNat b.toNat] := by
        rcases reprByte_cases b with ⟨-, h⟩ | ⟨hn, -⟩ | ⟨hn, -⟩
        · exact h
        · exact absurd hb hn
        · exact absurd hb hn
      have hascii : (Char.ofNat b.toNat).toNat < 128 := by
        have := reprByte_ascii b (Char.ofNat b.toNat)
          (by rw [hbyte]; exact List.mem_singleton_self _)
        omega
      have hrest := ih fun x hx ↦ h x (List.mem_cons_of_mem _ hx)
      rw [reprArg, List.flatMap_cons, hbyte, List.singleton_append, encode_cons_ascii hascii,
        toNat_ofNat_byte, UInt8.ofNat_toNat]
      exact congrArg _ hrest

/-- **`parse_line` undoes the printing of a command exactly when no byte of it is escaped.** -/
theorem parseLine_carries_iff [Python] (h : MonitorHeader) (verb : List UInt8)
    (args : List (List UInt8)) (n : ℕ) :
    (∃ r, parseLine (monitorLine h verb args ++ List.replicate n '\n') = some r ∧
      r.Carries verb args) ↔ ∀ bs ∈ verb :: args, ∀ b ∈ bs, Plain b := by
  rw [parseLine_monitorLine]
  constructor
  · rintro ⟨r, hr, hverb, hargs, -⟩ bs hbs
    obtain rfl := Option.some.inj hr
    refine (encode_reprArg_eq_iff bs).1 ?_
    rcases List.mem_cons.1 hbs with rfl | hbs
    · exact hverb
    · have hid : args.map (encode ∘ reprArg) = args.map id := by
        rw [List.map_id, ← List.map_map]
        exact hargs
      exact List.map_inj_left.1 hid bs hbs
  · intro hplain
    have hself : ∀ bs ∈ verb :: args, encode (reprArg bs) = bs :=
      fun bs hbs ↦ (encode_reprArg_eq_iff bs).2 (hplain bs hbs)
    have hargs : (args.map reprArg).map encode = args := by
      rw [List.map_map]
      calc args.map (encode ∘ reprArg)
          = args.map id := List.map_inj_left.2 fun bs hbs ↦ hself bs (List.mem_cons_of_mem _ hbs)
        _ = args := List.map_id args
    refine ⟨_, rfl, hself verb List.mem_cons_self, hargs, ?_⟩
    show encode ((args.map reprArg).headD []) = args.headD []
    cases args with
    | nil => rfl
    | cons bs args => exact hself bs (List.mem_cons_of_mem _ List.mem_cons_self)

/-- A header with an IPv4 address. -/
def localHeader : MonitorHeader where
  sec := 1713370000
  usec := 123456
  db := 0
  addr := "127.0.0.1:50000".toList
  addr_ne := by decide
  addr_noSpace := List.all_iff_forall_prop.1 (by decide)

/-- `SET k "` is not carried: the value that comes out is a backslash and a quote. -/
theorem not_carries_quote :
    ¬ ∃ r, @parseLine Python.ascii (monitorLine localHeader [83, 69, 84] [[107], [34]]) = some r ∧
      r.Carries [83, 69, 84] [[107], [34]] := by
  have hparse : @parseLine Python.ascii (monitorLine localHeader [83, 69, 84] [[107], [34]]) =
      some ⟨['S', 'E', 'T'], [['k'], ['\\', '"']], ['k']⟩ := by
    decide +kernel
  rintro ⟨r, hr, -, hargs, -⟩
  rw [hparse] at hr
  obtain rfl := Option.some.inj hr
  exact absurd hargs (by decide)

end Replay
