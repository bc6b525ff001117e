import HugePageResearch.Python.Dict
import HugePageResearch.Python.Lines
import HugePageResearch.Python.Numbers
import Mathlib.Data.Int.Bitwise

/-!
# Raw hardware events

`perf_config.py`: the events that `showevtinfo` of libpfm4 prints, and the raw configuration of an
event with one of its unit masks. The mask is shifted by as many hexadecimal digits as were printed
of the event's code.

## The result

`configures_iff`: every event is parsed, and its configuration is `code | (umask << 8)` for each of
its masks, exactly where the code has two digits or no mask has a bit.
-/

namespace Perf

/-! ### The code -/

/-- A `ValueError`. -/
inductive ConfigError where
  | valueError
  deriving DecidableEq

/-- `CustomHWEventID`. -/
structure CustomHWEventID where
  name : PyStr
  umask : Option PyStr

/-- `CustomHWConfigUmask`. -/
structure CustomHWConfigUmask where
  id : PyStr
  code : ℤ
  source : PyStr
  name : PyStr
  flags : PyStr
  description : PyStr
  deriving DecidableEq

/-- `CustomHWConfig`. -/
structure CustomHWConfig where
  id : ℤ
  pmuName : PyStr
  name : PyStr
  equiv : Option PyStr
  flags : Option PyStr
  description : PyStr
  code : ℤ
  codeLengthHex : ℤ
  umasks : Dict PyStr CustomHWConfigUmask
  modifiers : List PyStr

/-- `s.upper()`, of ASCII text. -/
def upper (s : PyStr) : PyStr := s.map Char.toUpper

/-- `config`; a shift by a negative count is a `ValueError`. -/
def CustomHWConfig.config (c : CustomHWConfig) (id : CustomHWEventID) :
    Except ConfigError (Option ℤ) :=
  if upper id.name ≠ c.name then .ok none
  else
    match id.umask with
    | none => .ok (some c.code)
    | some umask =>
      match c.umasks.get? (upper umask) with
      | none => .ok none
      | some umask =>
        if c.codeLengthHex < 0 then .error .valueError
        else .ok (some (Int.lor c.code (umask.code * 2 ^ (4 * c.codeLengthHex.toNat))))

/-- The local variables of `from_evtinfo`. -/
structure EvtInfo where
  id : Option ℤ
  pmuName : Option PyStr
  name : Option PyStr
  equiv : Option PyStr
  flags : Option PyStr
  description : Option PyStr
  code : Option ℤ
  codeLengthHex : ℤ
  umasks : Dict PyStr CustomHWConfigUmask
  modifiers : List PyStr

/-- The variables before the first line. -/
def EvtInfo.init : EvtInfo := ⟨none, none, none, none, none, none, none, 2, .empty, []⟩

section Parsing

variable [Python]

/-- The conversions of texts that raise a `ValueError`. -/
def orRaise (n : Option ℤ) : Except ConfigError ℤ :=
  match n with
  | some n => .ok n
  | none => .error .valueError

/-- `from_evtline`; `none` is a line with too few fields. -/
def fromEvtline (evtLine : PyStr) : Except ConfigError (Option CustomHWConfigUmask) :=
  match (evtLine.splitOn ':').map PyStr.strip with
  | id :: code :: source :: name :: flags :: description :: _ =>
    (orRaise (PyStr.int0 code)).map fun code ↦
      some ⟨id, code, source, (name.drop 1).dropLast, flags, description⟩
  | _ => .ok none

/-- `None if value == "None" else value`. -/
def orNone (value : PyStr) : Option PyStr := if value = "None".toList then none else some value

/-- `match key`. -/
def matchKey (s : EvtInfo) (key value : PyStr) : Except ConfigError EvtInfo :=
  if key = "IDX".toList then
    (orRaise (PyStr.int 10 value)).map fun id ↦ { s with id := some id }
  else if key = "PMU name".toList then .ok { s with pmuName := some value }
  else if key = "Name".toList then .ok { s with name := some (upper value) }
  else if key = "Equiv".toList then .ok { s with equiv := orNone value }
  else if key = "Flags".toList then .ok { s with flags := orNone value }
  else if key = "Desc".toList then .ok { s with description := some value }
  else if key = "Code".toList then
    -- the digits after `0x`
    (orRaise (PyStr.int0 value)).map fun code ↦
      { s with code := some code, codeLengthHex := value.length - 2 }
  else .ok s

/-- The lines of unit masks and of modifiers; `none` is `return None`. -/
def addLine (s : EvtInfo) (key evtLine : PyStr) : Except ConfigError (Option EvtInfo) := do
  let s ← if PyStr.startswith key "Umask".toList then
      (fromEvtline evtLine).map fun umask ↦ umask.map fun umask ↦
        { s with umasks := s.umasks.set (upper umask.name) umask }
    else .ok (some s)
  return s.map fun s ↦
    if PyStr.startswith key "Modif".toList then { s with modifiers := s.modifiers ++ [evtLine] }
    else s

/-- One line of the loop; a line without a colon is skipped. -/
def parseEvtLine (s : EvtInfo) (evtLine : PyStr) : Except ConfigError (Option EvtInfo) :=
  match PyStr.splitOnce ':' evtLine with
  | none => .ok (some s)
  | some (key, value) =>
    (matchKey s (PyStr.strip key) (PyStr.strip value)).bind fun s ↦
      addLine s (PyStr.strip key) evtLine

/-- `for evt_line in evt_lines`. -/
def parseEvtLines : EvtInfo → List PyStr → Except ConfigError (Option EvtInfo)
  | s, [] => .ok (some s)
  | s, evtLine :: evtLines =>
    match parseEvtLine s evtLine with
    | .error e => .error e
    | .ok none => .ok none
    | .ok (some s) => parseEvtLines s evtLines

/-- What is returned after the loop. -/
def EvtInfo.result (s : EvtInfo) : Option CustomHWConfig :=
  match s.id, s.pmuName, s.name, s.description, s.code with
  | some id, some pmuName, some name, some description, some code =>
    some ⟨id, pmuName, name, s.equiv, s.flags, description, code, s.codeLengthHex, s.umasks,
      s.modifiers⟩
  | _, _, _, _, _ => none

/-- `from_evtinfo`. -/
def fromEvtinfo (evtLines : List PyStr) : Except ConfigError (Option CustomHWConfig) :=
  (parseEvtLines .init evtLines).map fun s ↦ s.bind EvtInfo.result

end Parsing

/-! ### What `showevtinfo` prints -/

/-- A unit mask of an event. -/
structure HwUmask where
  number : ℕ
  code : ℕ
  code_lt : code < 256
  name : PyStr
  ascii : ∀ c ∈ name, c.toNat < 128
  plain : ':' ∉ name
  flags : PyStr
  description : PyStr

/-- **A hardware event**, with all that is printed of it. -/
structure HwEvent where
  idx : ℕ
  pmuName : PyStr
  name : PyStr
  ascii : ∀ c ∈ name, c.toNat < 128
  stripped : PyStr.strip name = name
  equiv : PyStr
  flags : PyStr
  desc : PyStr
  code : ℕ
  code_lt : code < 256
  umasks : List HwUmask
  /-- No two masks have one name. -/
  distinct : (umasks.map fun u ↦ upper u.name).Nodup
  /-- What follows `Modif-` in the lines of the modifiers. -/
  modifs : List PyStr
  /-- The white space that is printed between a key and its colon. -/
  blank : PyStr → PyStr
  isSpace_blank : ∀ key, ∀ c ∈ blank key, PyStr.isSpace c = true

/-- A number with at least two digits. -/
def twoDigits (base n : ℕ) : PyStr :=
  PyStr.zeroFilled base (2 - (Nat.toDigits base n).length) n

/-- `Umask-NN`. -/
def HwUmask.key (u : HwUmask) : PyStr := "Umask-".toList ++ twoDigits 10 u.number

/-- `Umask-NN : 0xNN : PMU : [NAME] : flags : description`. -/
def HwUmask.line (u : HwUmask) : PyStr :=
  u.key ++ " : 0x".toList ++ twoDigits 16 u.code ++ " : PMU : [".toList ++ u.name ++
    "] : ".toList ++ u.flags ++ " : ".toList ++ u.description

namespace HwEvent

variable (e : HwEvent)

/-- `Key : value`. -/
def line (key value : PyStr) : PyStr := key ++ e.blank key ++ ':' :: ' ' :: value

/-- The digits of the code, without leading zeros. -/
def codeText : PyStr := '0' :: 'x' :: Nat.toDigits 16 e.code

/-- The lines before those of the masks. -/
def headerLines : List PyStr :=
  [e.line "IDX".toList (Nat.toDigits 10 e.idx), e.line "PMU name".toList e.pmuName,
    e.line "Name".toList e.name, e.line "Equiv".toList e.equiv, e.line "Flags".toList e.flags,
    e.line "Desc".toList e.desc, e.line "Code".toList e.codeText]

/-- The lines of an event. -/
def lines : List PyStr :=
  e.headerLines ++ (e.umasks.map HwUmask.line ++ e.modifs.map ("Modif-".toList ++ ·))

/-- **Configured as the kernel expects**: the event is parsed, and its configuration has the code in
the low byte and the mask in the next one. -/
def Configures [Python] : Prop :=
  ∃ c, fromEvtinfo e.lines = .ok (some c) ∧
    (∀ name, upper name = upper e.name → c.config ⟨name, none⟩ = .ok (some (e.code : ℤ))) ∧
    ∀ u ∈ e.umasks, ∀ name umask, upper name = upper e.name → upper umask = upper u.name →
      c.config ⟨name, some umask⟩ = .ok (some ((e.code ||| u.code <<< 8 : ℕ) : ℤ))

end HwEvent

/-! ### One line -/

section Lines

variable [Python] {s s' : EvtInfo} {l : PyStr} {ls ls' : List PyStr}

/-- The keys before the masks. -/
def headerKeys : List PyStr :=
  ["IDX".toList, "PMU name".toList, "Name".toList, "Equiv".toList, "Flags".toList, "Desc".toList,
    "Code".toList]

omit [Python] in
/-- The keys have no colon and nothing to strip, and are neither of masks nor of modifiers. -/
theorem headerKeys_plain {key : PyStr} (hkey : key ∈ headerKeys) :
    ':' ∉ key ∧ PyStr.strip key = key ∧ PyStr.startswith key "Umask".toList = false ∧
      PyStr.startswith key "Modif".toList = false := by
  have hall : ∀ key ∈ headerKeys, ':' ∉ key ∧ PyStr.strip key = key ∧
      PyStr.startswith key "Umask".toList = false ∧
        PyStr.startswith key "Modif".toList = false := by decide
  exact hall key hkey

/-- A line of a key and a value. -/
theorem parseEvtLine_line (e : HwEvent) {key : PyStr} (hkey : key ∈ headerKeys) (value : PyStr) :
    parseEvtLine s (e.line key value) =
      (matchKey s key (PyStr.strip value)).bind fun s ↦ .ok (some s) := by
  obtain ⟨hcolon, hstrip, humask, hmodif⟩ := headerKeys_plain hkey
  have hblank : ':' ∉ e.blank key := fun h ↦ absurd (e.isSpace_blank key _ h) (by decide)
  have hsplit : PyStr.splitOnce ':' (e.line key value) = some (key ++ e.blank key, ' ' :: value) :=
    PyStr.splitOnce_append (List.not_mem_append hcolon hblank) _
  have hvalue : PyStr.strip (' ' :: value) = PyStr.strip value :=
    PyStr.strip_space_append PyStr.isSpace_blank value
  have hadd : ∀ s : EvtInfo, addLine s key (e.line key value) = .ok (some s) := fun s ↦ by
    simp only [addLine, humask, hmodif, Bool.false_eq_true, if_false]
    rfl
  rw [parseEvtLine, hsplit]
  show (matchKey s (PyStr.strip (key ++ e.blank key)) (PyStr.strip (' ' :: value))).bind _ = _
  rw [PyStr.strip_append_space (e.isSpace_blank key), hstrip, hvalue]
  simp only [hadd]

/-- A parsed line is followed by the others. -/
theorem parseEvtLines_cons (h : parseEvtLine s l = .ok (some s')) :
    parseEvtLines s (l :: ls) = parseEvtLines s' ls := by
  rw [parseEvtLines, h]

theorem parseEvtLines_line (e : HwEvent) {key value : PyStr} (hkey : key ∈ headerKeys)
    (h : matchKey s key (PyStr.strip value) = .ok s') :
    parseEvtLines s (e.line key value :: ls) = parseEvtLines s' ls :=
  parseEvtLines_cons (by rw [parseEvtLine_line e hkey, h]; rfl)

theorem parseEvtLines_append (h : parseEvtLines s ls = .ok (some s')) :
    parseEvtLines s (ls ++ ls') = parseEvtLines s' ls' := by
  induction ls generalizing s with
  | nil =>
    obtain rfl := Option.some.inj (Except.ok.inj h)
    rfl
  | cons l ls ih =>
    rw [parseEvtLines] at h
    rw [List.cons_append, parseEvtLines]
    rcases hl : parseEvtLine s l with err | (- | t)
    · rw [hl] at h
      cases h
    · rw [hl] at h
      exact absurd (Except.ok.inj h) (Option.some_ne_none s').symm
    · rw [hl] at h
      exact ih h

omit [Python] in
/-- The key of a mask has no colon and nothing to strip. -/
theorem HwUmask.key_plain (u : HwUmask) :
    ':' ∉ u.key ∧ ∀ c ∈ u.key, PyStr.isSpace c = false := by
  have hdigits : ∀ c ∈ twoDigits 10 u.number, c.isAlphanum = true := fun c hc ↦
    PyStr.isAlphanum_of_mem_zeroFilled (by decide) (by decide) hc
  refine ⟨List.not_mem_append (by decide) fun h ↦ absurd (hdigits _ h) (by decide), fun c hc ↦ ?_⟩
  rcases List.mem_append.1 hc with hc | hc
  · have hall : ∀ c ∈ "Umask-".toList, PyStr.isSpace c = false :=
      List.all_iff_forall_prop.1 (by decide)
    exact hall c hc
  · exact PyStr.isSpace_of_isAlphanum (hdigits c hc)

omit [Python] in
/-- Text in brackets between blanks. -/
theorem strip_brackets (name : PyStr) :
    PyStr.strip (' ' :: '[' :: name ++ "] ".toList) = '[' :: (name ++ [']']) := by
  have hstrip : PyStr.strip ('[' :: name ++ [']'] ++ [' ']) = '[' :: name ++ [']'] :=
    PyStr.strip_append (List.cons_append) rfl (by decide) (by decide) PyStr.isSpace_blank
  have htext : ' ' :: '[' :: name ++ "] ".toList = [' '] ++ ('[' :: name ++ [']'] ++ [' ']) := by
    simp
  rw [htext, PyStr.strip_space_append PyStr.isSpace_blank, hstrip]
  rfl

omit [Python] in
/-- Text with a colon has at least two fields. -/
theorem two_fields (t u : PyStr) :
    ∃ a b rest, (t ++ ':' :: u).splitOn ':' = a :: b :: rest := by
  rw [List.splitOn_append_cons_self]
  obtain ⟨a, as, ha⟩ := List.exists_cons_of_ne_nil (List.splitOn_ne_nil ':' t)
  obtain ⟨b, bs, hb⟩ := List.exists_cons_of_ne_nil (List.splitOn_ne_nil ':' u)
  rcases as with - | ⟨a', as⟩
  · exact ⟨a, b, bs, by rw [ha, hb]; rfl⟩
  · exact ⟨a, a', as ++ b :: bs, by rw [ha, hb]; rfl⟩

/-- **A mask's line is parsed** to its code and its name. -/
theorem fromEvtline_line (u : HwUmask) :
    ∃ m, fromEvtline u.line = .ok (some m) ∧ m.name = u.name ∧ m.code = u.code := by
  have hcode : ':' ∉ " 0x".toList ++ twoDigits 16 u.code ++ [' '] := by
    refine List.not_mem_append (List.not_mem_append (by decide) fun h ↦ ?_) (by decide)
    exact absurd (PyStr.isAlphanum_of_mem_zeroFilled (by decide) (by decide) h) (by decide)
  have hname : ':' ∉ ' ' :: '[' :: u.name ++ "] ".toList :=
    List.not_mem_append (List.not_mem_cons_of_ne_of_not_mem (by decide)
      (List.not_mem_cons_of_ne_of_not_mem (by decide) u.plain)) (by decide)
  have hline : u.line = (u.key ++ [' ']) ++ ':' ::
      ((" 0x".toList ++ twoDigits 16 u.code ++ [' ']) ++ ':' :: (" PMU ".toList ++ ':' ::
        ((' ' :: '[' :: u.name ++ "] ".toList) ++ ':' ::
          (' ' :: u.flags ++ [' '] ++ ':' :: ' ' :: u.description)))) := by
    simp [HwUmask.line]
  obtain ⟨flags, description, rest, hrest⟩ := two_fields (' ' :: u.flags ++ [' '])
    (' ' :: u.description)
  have hkey : ':' ∉ u.key ++ [' '] := List.not_mem_append u.key_plain.1 (by decide)
  have hsplit : u.line.splitOn ':' =
      (u.key ++ [' ']) :: (" 0x".toList ++ twoDigits 16 u.code ++ [' ']) :: " PMU ".toList ::
        (' ' :: '[' :: u.name ++ "] ".toList) :: flags :: description :: rest := by
    rw [hline, List.splitOn_append_cons_self_of_not_mem hkey,
      List.splitOn_append_cons_self_of_not_mem hcode,
      List.splitOn_append_cons_self_of_not_mem (by decide),
      List.splitOn_append_cons_self_of_not_mem hname, hrest]
  have hstrip : PyStr.strip (" 0x".toList ++ twoDigits 16 u.code ++ [' ']) =
      '0' :: 'x' :: twoDigits 16 u.code := by
    have halnum : ∀ c ∈ '0' :: 'x' :: twoDigits 16 u.code, c.isAlphanum = true :=
      List.forall_mem_cons.2 ⟨by decide, List.forall_mem_cons.2 ⟨by decide, fun c hc ↦
        PyStr.isAlphanum_of_mem_zeroFilled (by decide) (by decide) hc⟩⟩
    rw [PyStr.strip_append_space PyStr.isSpace_blank]
    show PyStr.strip ([' '] ++ '0' :: 'x' :: twoDigits 16 u.code) = _
    rw [PyStr.strip_space_append PyStr.isSpace_blank,
      PyStr.strip_of_forall_not fun c hc ↦ PyStr.isSpace_of_isAlphanum (halnum c hc)]
  refine ⟨⟨PyStr.strip (u.key ++ [' ']), u.code, PyStr.strip " PMU ".toList, u.name,
    PyStr.strip flags, PyStr.strip description⟩, ?_, rfl, rfl⟩
  have hname' : (('[' :: (u.name ++ [']'])).drop 1).dropLast = u.name := by simp
  have hint : orRaise (PyStr.int0 ('0' :: 'x' :: twoDigits 16 u.code)) = .ok (u.code : ℤ) := by
    rw [twoDigits, PyStr.int0_hexadecimal]
    rfl
  simp only [fromEvtline, hsplit, List.map_cons, hstrip, strip_brackets, hint, hname']
  rfl

/-- Only the keys before the masks are matched. -/
theorem matchKey_of_not_mem {key : PyStr} (hkey : key ∉ headerKeys) (value : PyStr) :
    matchKey s key value = .ok s := by
  simp only [headerKeys, List.mem_cons, List.not_mem_nil, or_false, not_or] at hkey
  obtain ⟨hidx, hpmu, hname, hequiv, hflags, hdesc, hcode⟩ := hkey
  rw [matchKey, if_neg hidx, if_neg hpmu, if_neg hname, if_neg hequiv, if_neg hflags,
    if_neg hdesc, if_neg hcode]

/-- **One mask** is stored under its name. -/
theorem parseEvtLine_umask (s : EvtInfo) (u : HwUmask) :
    ∃ m : CustomHWConfigUmask, m.code = u.code ∧
      parseEvtLine s u.line = .ok (some { s with umasks := s.umasks.set (upper u.name) m }) := by
  obtain ⟨m, hm, hname, hcode⟩ := fromEvtline_line u
  obtain ⟨hcolon, hspace⟩ := u.key_plain
  obtain ⟨t, ht⟩ : ∃ t, u.line = (u.key ++ [' ']) ++ ':' :: t :=
    ⟨" 0x".toList ++ twoDigits 16 u.code ++ " : PMU : [".toList ++ u.name ++ "] : ".toList ++
      u.flags ++ " : ".toList ++ u.description, by simp [HwUmask.line]⟩
  have hsplit : PyStr.splitOnce ':' u.line = some (u.key ++ [' '], t) := by
    rw [ht]
    exact PyStr.splitOnce_append (List.not_mem_append hcolon (by decide)) t
  have hstrip : PyStr.strip (u.key ++ [' ']) = u.key := by
    rw [PyStr.strip_append_space PyStr.isSpace_blank, PyStr.strip_of_forall_not hspace]
  have humask : PyStr.startswith u.key "Umask".toList = true :=
    List.isPrefixOf_iff_prefix.2 ⟨'-' :: twoDigits 10 u.number, rfl⟩
  have hmodif : PyStr.startswith u.key "Modif".toList = false := rfl
  have hmem : u.key ∉ headerKeys := fun h ↦ by
    rw [(headerKeys_plain h).2.2.1] at humask
    exact Bool.false_ne_true humask
  refine ⟨m, hcode, ?_⟩
  rw [parseEvtLine, hsplit, ← hname]
  simp only [hstrip, matchKey_of_not_mem hmem, Except.bind, addLine, humask, hmodif, hm,
    Bool.false_eq_true, if_true, if_false]
  rfl

/-- One modifier is kept as it is printed. -/
theorem parseEvtLine_modif (s : EvtInfo) (text : PyStr) :
    ∃ modifiers, parseEvtLine s ("Modif-".toList ++ text) =
      .ok (some { s with modifiers := modifiers }) := by
  rcases hsplit : PyStr.splitOnce ':' ("Modif-".toList ++ text) with - | ⟨key, value⟩
  · exact ⟨s.modifiers, by rw [parseEvtLine, hsplit]⟩
  · obtain ⟨t, ht⟩ : ∃ t, PyStr.strip key = 'M' :: t := by
      rw [PyStr.splitOnce] at hsplit
      split_ifs at hsplit
      obtain ⟨rfl, -⟩ := Prod.mk.inj (Option.some.inj hsplit)
      exact PyStr.exists_strip_cons (by decide) _
    have hmem : PyStr.strip key ∉ headerKeys := fun h ↦ by
      have hall : ∀ key ∈ headerKeys, key.head? ≠ some 'M' := by decide
      exact hall _ h (by rw [ht]; rfl)
    have humask : PyStr.startswith (PyStr.strip key) "Umask".toList = false := by
      rw [ht]
      rfl
    simp only [parseEvtLine, hsplit, matchKey_of_not_mem hmem, Except.bind, addLine, humask,
      Bool.false_eq_true, if_false]
    cases PyStr.startswith (PyStr.strip key) "Modif".toList with
    | false => exact ⟨s.modifiers, rfl⟩
    | true => exact ⟨_, rfl⟩

/-! ### All lines -/

/-- **The masks** are stored under their names, and nothing else changes. -/
theorem parseEvtLines_umasks (s : EvtInfo) (us : List HwUmask)
    (hnd : (us.map fun u ↦ upper u.name).Nodup) :
    ∃ umasks : Dict PyStr CustomHWConfigUmask,
      parseEvtLines s (us.map HwUmask.line) = .ok (some { s with umasks := umasks }) ∧
      (∀ k, k ∉ us.map (fun u ↦ upper u.name) → umasks.get? k = s.umasks.get? k) ∧
      ∀ u ∈ us, ∃ m, umasks.get? (upper u.name) = some m ∧ m.code = u.code := by
  induction us generalizing s with
  | nil => exact ⟨s.umasks, rfl, fun _ _ ↦ rfl, fun u hu ↦ absurd hu List.not_mem_nil⟩
  | cons u us ih =>
    rw [List.map_cons, List.nodup_cons] at hnd
    obtain ⟨m, hcode, hline⟩ := parseEvtLine_umask s u
    obtain ⟨umasks, hlines, hkeep, hall⟩ :=
      ih { s with umasks := s.umasks.set (upper u.name) m } hnd.2
    -- no later mask has the name of this one, so that it stays
    refine ⟨umasks, ?_, fun k hk ↦ ?_, List.forall_mem_cons.2 ⟨⟨m, ?_, hcode⟩, hall⟩⟩
    · rw [List.map_cons, parseEvtLines_cons hline, hlines]
    · rw [List.map_cons, List.mem_cons, not_or] at hk
      rw [hkeep k hk.2, Dict.get?_set, if_neg fun h ↦ hk.1 h.symm]
    · rw [hkeep _ hnd.1, Dict.get?_set, if_pos rfl]

/-- The modifiers change nothing else. -/
theorem parseEvtLines_modifs (s : EvtInfo) (texts : List PyStr) :
    ∃ modifiers, parseEvtLines s (texts.map ("Modif-".toList ++ ·)) =
      .ok (some { s with modifiers := modifiers }) := by
  induction texts generalizing s with
  | nil => exact ⟨s.modifiers, rfl⟩
  | cons text texts ih =>
    obtain ⟨modifiers, hline⟩ := parseEvtLine_modif s text
    obtain ⟨modifiers', hlines⟩ := ih { s with modifiers := modifiers }
    exact ⟨modifiers', by rw [List.map_cons, parseEvtLines_cons hline, hlines]⟩

/-- What the lines before the masks say. -/
def HwEvent.header (e : HwEvent) : EvtInfo :=
  ⟨some e.idx, some (PyStr.strip e.pmuName), some (upper e.name), orNone (PyStr.strip e.equiv),
    orNone (PyStr.strip e.flags), some (PyStr.strip e.desc), some e.code,
    (Nat.toDigits 16 e.code).length, .empty, []⟩

/-- **The lines before the masks.** -/
theorem parseEvtLines_header (e : HwEvent) (ls : List PyStr) :
    parseEvtLines .init (e.headerLines ++ ls) = parseEvtLines e.header ls := by
  have hidx : PyStr.strip (Nat.toDigits 10 e.idx) = PyStr.zeroFilled 10 0 e.idx :=
    PyStr.strip_of_forall_not fun c hc ↦
      PyStr.isSpace_of_isAlphanum (PyStr.isAlphanum_of_mem_toDigits (by decide) (by decide) hc)
  have hcode : PyStr.strip e.codeText = '0' :: 'x' :: PyStr.zeroFilled 16 0 e.code := by
    refine PyStr.strip_of_forall_not fun c hc ↦ PyStr.isSpace_of_isAlphanum ?_
    rcases List.mem_cons.1 hc with rfl | hc
    · decide
    · rcases List.mem_cons.1 hc with rfl | hc
      · decide
      · exact PyStr.isAlphanum_of_mem_toDigits (by decide) (by decide) hc
  have hidx' : matchKey .init "IDX".toList (PyStr.strip (Nat.toDigits 10 e.idx)) =
      .ok { EvtInfo.init with id := some (e.idx : ℤ) } := by
    rw [hidx, matchKey, if_pos rfl, PyStr.int_decimal]
    rfl
  have hcode' : ∀ s : EvtInfo, matchKey s "Code".toList (PyStr.strip e.codeText) =
      .ok { s with code := some (e.code : ℤ), codeLengthHex := (Nat.toDigits 16 e.code).length } :=
    fun s ↦ by
    rw [hcode]
    show (orRaise (PyStr.int0 ('0' :: 'x' :: PyStr.zeroFilled 16 0 e.code))).map _ = _
    rw [PyStr.int0_hexadecimal]
    show Except.ok { s with code := _, codeLengthHex := _ } = _
    have hlen : (('0' :: 'x' :: PyStr.zeroFilled 16 0 e.code).length : ℤ) - 2 =
        (Nat.toDigits 16 e.code).length := by
      rw [PyStr.zeroFilled, List.replicate_zero, List.nil_append, List.length_cons,
        List.length_cons]
      omega
    rw [hlen]
  refine (parseEvtLines_line e (by decide) hidx').trans ?_
  refine (parseEvtLines_line e (by decide) rfl).trans ?_
  refine (parseEvtLines_line e (by decide) rfl).trans ?_
  refine (parseEvtLines_line e (by decide) rfl).trans ?_
  refine (parseEvtLines_line e (by decide) rfl).trans ?_
  refine (parseEvtLines_line e (by decide) rfl).trans ?_
  refine (parseEvtLines_line e (by decide) (hcode' _)).trans ?_
  rw [e.stripped]
  rfl

end Lines

/-! ### The result -/

namespace HwEvent

variable [Python] (e : HwEvent)

/-- **Every event is parsed.** -/
theorem exists_fromEvtinfo : ∃ c, fromEvtinfo e.lines = .ok (some c) ∧ c.name = upper e.name ∧
    c.code = e.code ∧ c.codeLengthHex = (Nat.toDigits 16 e.code).length ∧
      ∀ u ∈ e.umasks, ∃ m, c.umasks.get? (upper u.name) = some m ∧ m.code = u.code := by
  obtain ⟨umasks, humasks, -, hall⟩ := parseEvtLines_umasks e.header e.umasks e.distinct
  obtain ⟨modifiers, hmodifs⟩ :=
    parseEvtLines_modifs { e.header with umasks := umasks } e.modifs
  have hlines : parseEvtLines .init e.lines =
      .ok (some { e.header with umasks := umasks, modifiers := modifiers }) := by
    rw [lines, parseEvtLines_header, parseEvtLines_append humasks, hmodifs]
  refine ⟨⟨e.idx, PyStr.strip e.pmuName, upper e.name, orNone (PyStr.strip e.equiv),
    orNone (PyStr.strip e.flags), PyStr.strip e.desc, e.code, (Nat.toDigits 16 e.code).length,
    umasks, modifiers⟩, ?_, rfl, rfl, rfl, hall⟩
  rw [fromEvtinfo, hlines]
  rfl

omit [Python] in
/-- **The configuration that is returned** shifts a mask by the printed digits of the code. -/
theorem config_eq {c : CustomHWConfig} (hname : c.name = upper e.name) (hcode : c.code = e.code)
    (hlen : c.codeLengthHex = (Nat.toDigits 16 e.code).length) {m : CustomHWConfigUmask}
    {u : HwUmask} (hm : c.umasks.get? (upper u.name) = some m) (hu : m.code = u.code)
    {name umask : PyStr} (hname' : upper name = upper e.name)
    (humask : upper umask = upper u.name) :
    c.config ⟨name, some umask⟩ =
      .ok (some ((e.code ||| u.code <<< (4 * (Nat.toDigits 16 e.code).length) : ℕ) : ℤ)) := by
  have hmatch : ¬ upper name ≠ c.name := not_not_intro (hname'.trans hname.symm)
  have hpos : ¬ ((Nat.toDigits 16 e.code).length : ℤ) < 0 := by omega
  have hshift : (u.code : ℤ) * 2 ^ (4 * (Nat.toDigits 16 e.code).length) =
      ((u.code <<< (4 * (Nat.toDigits 16 e.code).length) : ℕ) : ℤ) := by
    rw [Nat.shiftLeft_eq, Nat.cast_mul, Nat.cast_pow]
    rfl
  simp only [CustomHWConfig.config, if_neg hmatch, humask, hm, hlen, if_neg hpos, hcode, hu,
    Int.toNat_natCast, hshift]
  rfl

/-- The configurations, of the shifted masks. -/
theorem configures_iff_shift : e.Configures ↔ ∀ u ∈ e.umasks,
    e.code ||| u.code <<< (4 * (Nat.toDigits 16 e.code).length) = e.code ||| u.code <<< 8 := by
  obtain ⟨c, hc, hname, hcode, hlen, hall⟩ := e.exists_fromEvtinfo
  constructor
  · rintro ⟨c', hc', -, humasks⟩ u hu
    obtain rfl : c = c' := Option.some.inj (Except.ok.inj (hc.symm.trans hc'))
    obtain ⟨m, hm, hmcode⟩ := hall u hu
    have heq := (e.config_eq hname hcode hlen hm hmcode rfl rfl).symm.trans
      (humasks u hu e.name u.name rfl rfl)
    exact Int.natCast_inj.1 (Option.some.inj (Except.ok.inj heq))
  · intro hshift
    refine ⟨c, hc, fun name hname' ↦ ?_, fun u hu name umask hname' humask ↦ ?_⟩
    · have hmatch : ¬ upper name ≠ c.name := not_not_intro (hname'.trans hname.symm)
      simp only [CustomHWConfig.config, if_neg hmatch, hcode]
    · obtain ⟨m, hm, hmcode⟩ := hall u hu
      rw [e.config_eq hname hcode hlen hm hmcode hname' humask, hshift u hu]

omit [Python] in
/-- A mask that is shifted by one digit instead of two. -/
theorem or_shift_eq_iff {code umask : ℕ} (hcode : code < 16) :
    code ||| umask <<< 4 = code ||| umask <<< 8 ↔ umask = 0 := by
  -- the code has no bit where the mask is shifted to, so that both sides are sums
  have hfour := Nat.shiftLeft_add_eq_or_of_lt (show code < 2 ^ 4 from hcode) umask
  have height := Nat.shiftLeft_add_eq_or_of_lt (show code < 2 ^ 8 by omega) umask
  rw [Nat.or_comm code, Nat.or_comm code, ← hfour, ← height, Nat.shiftLeft_eq, Nat.shiftLeft_eq]
  omega

omit [Python] in
/-- **The digits of a code.** -/
theorem length_toDigits_code :
    (Nat.toDigits 16 e.code).length = if e.code < 16 then 1 else 2 := by
  have hpos : 0 < (Nat.toDigits 16 e.code).length := Nat.length_toDigits_pos
  have hone := Nat.length_toDigits_le_iff (n := e.code) (show 1 < 16 by decide) Nat.one_pos
  have htwo := Nat.length_toDigits_le_iff (n := e.code) (show 1 < 16 by decide) Nat.two_pos
  have hcode := e.code_lt
  split_ifs with hlt
  · have hle := hone.2 (by omega)
    omega
  · have hle := htwo.2 (by omega)
    have hgt : ¬ (Nat.toDigits 16 e.code).length ≤ 1 := fun h ↦ hlt (by have := hone.1 h; omega)
    omega

/-- **The mask is in the next byte** exactly where the code has two digits or no mask has a bit. -/
theorem configures_iff : e.Configures ↔ 16 ≤ e.code ∨ ∀ u ∈ e.umasks, u.code = 0 := by
  rw [configures_iff_shift, length_toDigits_code]
  split_ifs with hlt
  · rw [or_iff_right (by omega)]
    exact forall₂_congr fun u _ ↦ or_shift_eq_iff hlt
  · exact iff_of_true (fun _ _ ↦ rfl) (.inl (by omega))

/-- `DTLB_LOAD_MISSES` with the code `0x8` and the mask `0x01`. -/
def dtlbLoadMisses : HwEvent where
  idx := 0
  pmuName := "core".toList
  name := "DTLB_LOAD_MISSES".toList
  ascii := List.all_iff_forall_prop.1 (by decide)
  stripped := by decide
  equiv := "None".toList
  flags := "None".toList
  desc := "DTLB load misses".toList
  code := 8
  code_lt := by decide
  umasks := [⟨0, 1, by decide, "ANY".toList, List.all_iff_forall_prop.1 (by decide), by decide,
    "[default]".toList, "All misses".toList⟩]
  distinct := by decide
  modifs := []
  blank _ := [' ']
  isSpace_blank _ := PyStr.isSpace_blank

end HwEvent

/-- The mask of a code with one digit is shifted by four bits. -/
theorem HwEvent.not_configures_dtlbLoadMisses :
    ¬ @HwEvent.Configures dtlbLoadMisses Python.ascii := by
  rw [@configures_iff_shift Python.ascii]
  exact fun h ↦ absurd (h _ List.mem_cons_self) (by decide)

end Perf
