import HugePageResearch.Python.Text
import Mathlib.Tactic.Common

/-!
# A backtracking matcher for regular expressions

The part of Python's `re` that line parsers use: character classes, concatenation, ordered
alternatives, greedy and lazy repetition, numbered groups and the end anchor. A pattern is data, so
that it can be compared with the text of the pattern it stands for. Matching is by continuations:
`matchK r p k` tries the ways in which `r` matches at `p`, in the engine's order, and returns the
first answer the continuation `k` gives.

## The rules

A proof about a concrete pattern never looks inside the matcher. It uses one equation for each
constructor (`matchK_seq`, `matchK_cls_cons`, …), the unfolding of a repetition (`matchK_star`),
and for a repeated class the greedy rule `matchK_star_cls_append`: characters of the class in front
of a suffix on which the repetition succeeds are simply consumed.

A repetition stops at an iteration that consumes nothing, and `findall` takes a pattern that
matches no empty string.
-/

/-- A regular expression. -/
inductive Regex where
  /-- The empty pattern. -/
  | empty
  /-- One character of a class. -/
  | cls (f : Char → Bool)
  /-- `rs`. -/
  | seq (r s : Regex)
  /-- `r|s`, with `r` tried first. -/
  | alt (r s : Regex)
  /-- `r*`, greedy. -/
  | star (r : Regex)
  /-- `r*?`, lazy. -/
  | lazyStar (r : Regex)
  /-- `(r)`, with its group number. -/
  | group (n : ℕ) (r : Regex)
  /-- `$`: the end of the text, or a line feed that ends it. -/
  | eos

namespace Regex

/-- One given character. -/
def chr (c : Char) : Regex :=
  cls (· == c)

/-- `r+`. -/
def plus (r : Regex) : Regex :=
  seq r (star r)

/-- `r+?`. -/
def lazyPlus (r : Regex) : Regex :=
  seq r (lazyStar r)

/-- A concatenation written as a list, as patterns are laid out. -/
def cat : List Regex → Regex
  | [] => empty
  | r :: rs => seq r (cat rs)

/-- The state of a match: the groups closed so far, last one first, and the text still ahead. -/
structure Pos where
  /-- The closed groups. -/
  groups : List (ℕ × PyStr)
  /-- The text ahead. -/
  rest : PyStr

/-- The text of group `n`, where it took part in the match. -/
def Pos.group (p : Pos) (n : ℕ) : Option PyStr :=
  p.groups.lookup n

variable {β : Type*}

/-- Up to `fuel` further iterations of `body`, as many as possible first, and then `k`. -/
def starFrom (body : Pos → (Pos → Option β) → Option β) (k : Pos → Option β) :
    ℕ → Pos → Option β
  | 0, p => k p
  | fuel + 1, p =>
    (body p fun q ↦ if q.rest.length < p.rest.length then starFrom body k fuel q else none).or (k p)

/-- Up to `fuel` further iterations of `body`, `k` before each of them. -/
def lazyStarFrom (body : Pos → (Pos → Option β) → Option β) (k : Pos → Option β) :
    ℕ → Pos → Option β
  | 0, p => k p
  | fuel + 1, p => (k p).or
    (body p fun q ↦ if q.rest.length < p.rest.length then lazyStarFrom body k fuel q else none)

/-- Match `r` at `p` and pass each way of doing so to `k`, until one succeeds. -/
def matchK : Regex → Pos → (Pos → Option β) → Option β
  | empty => fun p k ↦ k p
  | cls f => fun p k ↦
    match p.rest with
    | [] => none
    | c :: s => if f c then k ⟨p.groups, s⟩ else none
  | seq r s => fun p k ↦ matchK r p fun q ↦ matchK s q k
  | alt r s => fun p k ↦ (matchK r p k).or (matchK s p k)
  | star r => fun p k ↦ starFrom (matchK r) k p.rest.length p
  | lazyStar r => fun p k ↦ lazyStarFrom (matchK r) k p.rest.length p
  | group n r => fun p k ↦ matchK r p fun q ↦
      k ⟨(n, p.rest.take (p.rest.length - q.rest.length)) :: q.groups, q.rest⟩
  | eos => fun p k ↦ if p.rest = [] ∨ p.rest = ['\n'] then k p else none

/-- `re.match`: the first match that starts at the beginning of the text. -/
def exec (r : Regex) (s : PyStr) : Option Pos :=
  matchK r ⟨[], s⟩ some

/-- `re.search`: the match at the first position where there is one. -/
def search (r : Regex) : PyStr → Option Pos
  | [] => r.exec []
  | c :: s => (r.exec (c :: s)).or (search r s)

/-- The scan of `re.findall` for a pattern with one group: at each position a match, after which
the scan goes on, or the next position. -/
def findallFrom (r : Regex) (n : ℕ) : ℕ → PyStr → List PyStr
  | 0, _ => []
  | fuel + 1, s =>
    match r.exec s with
    | some q => (q.group n).getD [] :: findallFrom r n fuel q.rest
    | none => findallFrom r n fuel s.tail

/-- `re.findall`, reading group `n` of each match. -/
def findall (r : Regex) (n : ℕ) (s : PyStr) : List PyStr :=
  findallFrom r n s.length s

/-! ### One equation for each constructor -/

variable (r s : Regex) (f : Char → Bool) (g : List (ℕ × PyStr)) (p : Pos) (k : Pos → Option β)

@[simp] theorem matchK_seq : matchK (seq r s) p k = matchK r p fun q ↦ matchK s q k := rfl

@[simp] theorem matchK_alt : matchK (alt r s) p k = (matchK r p k).or (matchK s p k) := rfl

@[simp] theorem matchK_plus : matchK (plus r) p k = matchK r p fun q ↦ matchK (star r) q k := rfl

@[simp] theorem matchK_lazyPlus :
    matchK (lazyPlus r) p k = matchK r p fun q ↦ matchK (lazyStar r) q k := rfl

@[simp] theorem matchK_cat_nil : matchK (cat []) p k = k p := rfl

@[simp] theorem matchK_cat_cons (rs : List Regex) :
    matchK (cat (r :: rs)) p k = matchK r p fun q ↦ matchK (cat rs) q k := rfl

@[simp] theorem matchK_group (n : ℕ) : matchK (group n r) p k = matchK r p fun q ↦
    k ⟨(n, p.rest.take (p.rest.length - q.rest.length)) :: q.groups, q.rest⟩ := rfl

@[simp] theorem matchK_cls_nil : matchK (cls f) ⟨g, []⟩ k = none := rfl

@[simp] theorem matchK_cls_cons (c : Char) (t : PyStr) :
    matchK (cls f) ⟨g, c :: t⟩ k = if f c then k ⟨g, t⟩ else none := rfl

@[simp] theorem matchK_chr_cons (a c : Char) (t : PyStr) :
    matchK (chr a) ⟨g, c :: t⟩ k = if c = a then k ⟨g, t⟩ else none := by
  simp [chr]

@[simp] theorem matchK_chr_nil (a : Char) : matchK (chr a) ⟨g, []⟩ k = none := rfl

@[simp] theorem matchK_eos_nil : matchK eos ⟨g, []⟩ k = k ⟨g, []⟩ := by
  simp [matchK]

/-! ### Repetition -/

theorem starFrom_none (body : Pos → (Pos → Option β) → Option β)
    (hbody : ∀ p, (body p fun _ ↦ none) = none) (fuel : ℕ) (p : Pos) :
    starFrom body (fun _ ↦ none) fuel p = none := by
  induction fuel generalizing p with
  | zero => rfl
  | succ fuel ih => simp [starFrom, ih, hbody]

theorem lazyStarFrom_none (body : Pos → (Pos → Option β) → Option β)
    (hbody : ∀ p, (body p fun _ ↦ none) = none) (fuel : ℕ) (p : Pos) :
    lazyStarFrom body (fun _ ↦ none) fuel p = none := by
  induction fuel generalizing p with
  | zero => rfl
  | succ fuel ih => simp [lazyStarFrom, ih, hbody]

/-- A match cannot succeed when nothing that may follow it does. -/
theorem matchK_none : (matchK r p fun _ ↦ (none : Option β)) = none := by
  induction r generalizing p with
  | empty => rfl
  | cls f =>
    rcases p with ⟨g, - | ⟨c, t⟩⟩
    · rfl
    · simp
  | seq r s ihr ihs => simp [ihr, ihs]
  | alt r s ihr ihs => simp [ihr, ihs]
  | star r ih => exact starFrom_none _ ih _ _
  | lazyStar r ih => exact lazyStarFrom_none _ ih _ _
  | group n r ih => simp [ih]
  | eos => simp [matchK]

/-- Two amounts of fuel that both reach the length of the text ahead give the same answer: an
iteration consumes at least one character. -/
theorem starFrom_fuel {n m : ℕ} (hn : p.rest.length ≤ n) (hm : p.rest.length ≤ m) :
    starFrom (matchK r) k n p = starFrom (matchK r) k m p := by
  induction n generalizing m p with
  | zero =>
    have hlen : p.rest.length = 0 := by omega
    cases m with
    | zero => rfl
    | succ m => simp [starFrom, hlen, matchK_none]
  | succ n ih =>
    cases m with
    | zero =>
      have hlen : p.rest.length = 0 := by omega
      simp [starFrom, hlen, matchK_none]
    | succ m =>
      have hcont : (fun q : Pos ↦
            if q.rest.length < p.rest.length then starFrom (matchK r) k n q else none) =
          fun q : Pos ↦
            if q.rest.length < p.rest.length then starFrom (matchK r) k m q else none := by
        funext q
        split
        · exact ih q (by omega) (by omega)
        · rfl
      rw [starFrom, starFrom, hcont]

/-- **One unfolding of a repetition**: another iteration that consumes something, or go on. -/
theorem matchK_star : matchK (star r) p k =
    (matchK r p fun q ↦
      if q.rest.length < p.rest.length then matchK (star r) q k else none).or (k p) := by
  have hfuel : matchK (star r) p k = starFrom (matchK r) k (p.rest.length + 1) p :=
    starFrom_fuel r p k le_rfl (Nat.le_succ _)
  have hcont : (fun q : Pos ↦
        if q.rest.length < p.rest.length then starFrom (matchK r) k p.rest.length q else none) =
      fun q : Pos ↦ if q.rest.length < p.rest.length then matchK (star r) q k else none := by
    funext q
    split
    · exact starFrom_fuel r q k (by omega) le_rfl
    · rfl
  rw [hfuel, starFrom, hcont]

/-- A repetition succeeds where going on without it does. -/
theorem isSome_matchK_star (h : (k p).isSome) : (matchK (star r) p k).isSome := by
  rw [matchK_star, Option.isSome_or, h, Bool.or_true]

theorem matchK_star_cls_nil : matchK (star (cls f)) ⟨g, []⟩ k = k ⟨g, []⟩ := by
  rw [matchK_star]
  simp

theorem matchK_star_cls_cons (c : Char) (t : PyStr) :
    matchK (star (cls f)) ⟨g, c :: t⟩ k =
      if f c then (matchK (star (cls f)) ⟨g, t⟩ k).or (k ⟨g, c :: t⟩) else k ⟨g, c :: t⟩ := by
  rw [matchK_star]
  by_cases hc : f c <;> simp [hc]

/-- **Greed.** Characters of the class in front of a text on which the repetition succeeds are
consumed, and the answer is the one on that text. -/
theorem matchK_star_cls_append {m t : PyStr} {b : β} (hm : ∀ c ∈ m, f c = true)
    (ht : matchK (star (cls f)) ⟨g, t⟩ k = some b) :
    matchK (star (cls f)) ⟨g, m ++ t⟩ k = some b := by
  induction m with
  | nil => exact ht
  | cons c m ih =>
    rw [List.cons_append, matchK_star_cls_cons, if_pos (hm c List.mem_cons_self),
      ih fun d hd ↦ hm d (List.mem_cons_of_mem _ hd), Option.some_or]

/-- A repeated class consumes nothing where the next character is outside the class. -/
theorem matchK_star_cls_of_head (ht : ∀ c ∈ p.rest.head?, f c = false) :
    matchK (star (cls f)) p k = k p := by
  rcases p with ⟨g, - | ⟨c, t⟩⟩
  · exact matchK_star_cls_nil f g k
  · rw [matchK_star_cls_cons, ht c rfl]
    rfl

/-- A repeated class fails where nothing that may follow it succeeds after any run of the class. -/
theorem matchK_star_cls_eq_none {s : PyStr}
    (h : ∀ m t, s = m ++ t → (∀ c ∈ m, f c = true) → k ⟨g, t⟩ = none) :
    matchK (star (cls f)) ⟨g, s⟩ k = none := by
  induction s with
  | nil => rw [matchK_star_cls_nil, h [] [] rfl (by simp)]
  | cons c s ih =>
    have hstop := h [] (c :: s) rfl (by simp)
    rw [matchK_star_cls_cons]
    split_ifs with hc
    · rw [hstop, Option.or_none]
      exact ih fun m t hs hm ↦ h (c :: m) t (by rw [hs]; rfl) (List.forall_mem_cons.2 ⟨hc, hm⟩)
    · exact hstop

/-! ### A repeated class with at least one character -/

/-- The greedy rule for `[f]+`. -/
theorem matchK_plus_cls_append {m t : PyStr} {b : β} (hne : m ≠ []) (hm : ∀ c ∈ m, f c = true)
    (ht : matchK (star (cls f)) ⟨g, t⟩ k = some b) :
    matchK (plus (cls f)) ⟨g, m ++ t⟩ k = some b := by
  obtain ⟨c, m, rfl⟩ := List.exists_cons_of_ne_nil hne
  rw [matchK_plus, List.cons_append, matchK_cls_cons, if_pos (hm c List.mem_cons_self)]
  exact matchK_star_cls_append f g k (fun d hd ↦ hm d (List.mem_cons_of_mem _ hd)) ht

theorem matchK_plus_cls_eq_none {s : PyStr}
    (h : ∀ m t, s = m ++ t → (∀ c ∈ m, f c = true) → k ⟨g, t⟩ = none) :
    matchK (plus (cls f)) ⟨g, s⟩ k = none := by
  rcases s with - | ⟨c, s⟩
  · rfl
  · rw [matchK_plus, matchK_cls_cons]
    split_ifs with hc
    · exact matchK_star_cls_eq_none f g k fun m t hs hm ↦
        h (c :: m) t (by rw [hs]; rfl) (List.forall_mem_cons.2 ⟨hc, hm⟩)
    · rfl

/-- `[f]+` consumes exactly a non-empty run in front of a character outside the class. -/
theorem matchK_plus_cls_run {m t : PyStr} {b : β} (hne : m ≠ []) (hm : ∀ c ∈ m, f c = true)
    (ht : ∀ c ∈ t.head?, f c = false) (hk : k ⟨g, t⟩ = some b) :
    matchK (plus (cls f)) ⟨g, m ++ t⟩ k = some b :=
  matchK_plus_cls_append f g k hne hm (by rw [matchK_star_cls_of_head f ⟨g, t⟩ k ht, hk])

/-- `([f]+)` in front of a character outside the class records exactly the run. -/
theorem matchK_group_plus_cls_run (n : ℕ) {m t : PyStr} {b : β} (hne : m ≠ [])
    (hm : ∀ c ∈ m, f c = true) (ht : ∀ c ∈ t.head?, f c = false)
    (hk : k ⟨(n, m) :: g, t⟩ = some b) :
    matchK (group n (plus (cls f))) ⟨g, m ++ t⟩ k = some b := by
  rw [matchK_group]
  refine matchK_plus_cls_run f g _ hne hm ht ?_
  simpa using hk

/-- **Giving one character back.** `([f]+)` in front of `c :: t` with `c` in the class and `t` not:
the run first swallows `c`, and where what follows cannot go on at `t` it gives `c` back. -/
theorem matchK_group_plus_cls_giveBack (n : ℕ) {m t : PyStr} {c : Char} {b : β} (hne : m ≠ [])
    (hm : ∀ c ∈ m, f c = true) (hc : f c = true) (ht : ∀ d ∈ t.head?, f d = false)
    (hfail : ∀ gs, k ⟨gs, t⟩ = none) (hk : k ⟨(n, m) :: g, c :: t⟩ = some b) :
    matchK (group n (plus (cls f))) ⟨g, m ++ c :: t⟩ k = some b := by
  rw [matchK_group]
  refine matchK_plus_cls_append f g _ hne hm ?_
  rw [matchK_star_cls_cons, if_pos hc, matchK_star_cls_of_head f ⟨g, t⟩ _ ht]
  show (k ⟨_, t⟩).or (k ⟨(n, (m ++ c :: t).take ((m ++ c :: t).length - (c :: t).length)) :: g,
    c :: t⟩) = some b
  rw [hfail, Option.none_or, List.length_append, Nat.add_sub_cancel, List.take_left]
  exact hk

/-! ### Lazy repetition -/

/-- A lazy repetition of a class with enough fuel reaches what comes after a run of the class. -/
theorem isSome_lazyStarFrom_cls {m t : PyStr} {fuel : ℕ} (hfuel : m.length ≤ fuel)
    (hm : ∀ c ∈ m, f c = true) (ht : (k ⟨g, t⟩).isSome) :
    (lazyStarFrom (matchK (cls f)) k fuel ⟨g, m ++ t⟩).isSome := by
  induction m generalizing fuel with
  | nil =>
    cases fuel with
    | zero => exact ht
    | succ fuel => rw [lazyStarFrom, Option.isSome_or, List.nil_append, ht, Bool.true_or]
  | cons c m ih =>
    obtain ⟨fuel, rfl⟩ : ∃ n, fuel = n + 1 := ⟨fuel - 1, by rw [List.length_cons] at hfuel; omega⟩
    have hlen : m.length ≤ fuel := by rw [List.length_cons] at hfuel; omega
    have hrest := ih hlen fun d hd ↦ hm d (List.mem_cons_of_mem _ hd)
    rw [lazyStarFrom, Option.isSome_or, List.cons_append, matchK_cls_cons,
      if_pos (hm c List.mem_cons_self), if_pos (by simp), hrest, Bool.or_true]

/-- **Laziness** changes which match is found, not whether there is one: `[f]+?` in front of a text
on which the rest of the pattern succeeds. -/
theorem isSome_matchK_lazyPlus_cls {m t : PyStr} (hne : m ≠ []) (hm : ∀ c ∈ m, f c = true)
    (ht : (k ⟨g, t⟩).isSome) : (matchK (lazyPlus (cls f)) ⟨g, m ++ t⟩ k).isSome := by
  obtain ⟨c, m, rfl⟩ := List.exists_cons_of_ne_nil hne
  rw [matchK_lazyPlus, List.cons_append, matchK_cls_cons, if_pos (hm c List.mem_cons_self)]
  exact isSome_lazyStarFrom_cls f g k (by simp)
    (fun d hd ↦ hm d (List.mem_cons_of_mem _ hd)) ht

/-! ### Scanning -/

theorem findallFrom_nil (n fuel : ℕ) (hr : r.exec [] = none) : findallFrom r n fuel [] = [] := by
  induction fuel with
  | zero => rfl
  | succ fuel ih => simp [findallFrom, hr, ih]

theorem findallFrom_of_exec {n fuel : ℕ} {t m : PyStr} {q : Pos} (hq : r.exec t = some q)
    (hm : q.group n = some m) :
    findallFrom r n (fuel + 1) t = m :: findallFrom r n fuel q.rest := by
  simp [findallFrom, hq, hm]

theorem findallFrom_of_not_exec {n fuel : ℕ} {t : PyStr} (hq : r.exec t = none) :
    findallFrom r n (fuel + 1) t = findallFrom r n fuel t.tail := by
  simp [findallFrom, hq]

/-- A search passes over a text at no character of which the pattern matches. -/
theorem search_skip {m t : PyStr} (hm : ∀ c ∈ m, ∀ s, r.exec (c :: s) = none) :
    search r (m ++ t) = search r t := by
  induction m with
  | nil => rfl
  | cons c m ih =>
    rw [List.cons_append, search, hm c List.mem_cons_self, Option.none_or,
      ih fun d hd ↦ hm d (List.mem_cons_of_mem _ hd)]

theorem search_of_exec {s : PyStr} {q : Pos} (h : r.exec s = some q) : search r s = some q := by
  rcases s with - | ⟨c, s⟩
  · exact h
  · rw [search, h, Option.some_or]

/-- The scan passes over a text at no character of which the pattern can start. -/
theorem findallFrom_skip {n fuel : ℕ} {m t : PyStr}
    (hm : ∀ c ∈ m, ∀ s, r.exec (c :: s) = none) (hfuel : m.length ≤ fuel) :
    findallFrom r n fuel (m ++ t) = findallFrom r n (fuel - m.length) t := by
  induction m generalizing fuel with
  | nil => rfl
  | cons c m ih =>
    obtain ⟨fuel, rfl⟩ : ∃ k, fuel = k + 1 := ⟨fuel - 1, by rw [List.length_cons] at hfuel; omega⟩
    rw [List.cons_append, findallFrom_of_not_exec r (hm c List.mem_cons_self _), List.tail_cons,
      ih (fun d hd ↦ hm d (List.mem_cons_of_mem _ hd)) (by rw [List.length_cons] at hfuel; omega),
      List.length_cons, Nat.add_sub_add_right]

end Regex
