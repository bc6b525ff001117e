import HugePageResearch.Library.Lists
import Mathlib.Data.Nat.Notation

/-!
# Programs that call the outside

A program that starts processes, sends signals and sleeps is a `Script`: it returns, raises, or
makes a call and goes on with the answer. The answers come from outside, so that a run is taken
against an environment, which may answer a call in any way that depends on what has happened before.
What has happened is a history: the calls with their answers.

`Meets` is the weakest precondition of a script: every call is made at a moment at which it is
allowed, and the return or the exception finds what it should. It is computed along the script, with
one rule for each way of putting scripts together (`meets_bind`, `meets_forRange`), and
`Meets.run` says that it is enough, whatever the environment answers.
-/

/-- A program with calls `Cmd` and their answers `Ans`, exceptions `ε` and results `α`. -/
inductive Script (Cmd : Type) (Ans : Cmd → Type) (ε α : Type) : Type where
  /-- Return a result. -/
  | ret (a : α)
  /-- Raise an exception. -/
  | raise (e : ε)
  /-- Make a call and go on with the answer. -/
  | call (c : Cmd) (next : Ans c → Script Cmd Ans ε α)

namespace Script

variable {Cmd : Type} {Ans : Cmd → Type} {ε α β : Type}

/-- A call with its answer. -/
abbrev Event (Cmd : Type) (Ans : Cmd → Type) := (c : Cmd) × Ans c

/-- What has happened, in order. -/
abbrev History (Cmd : Type) (Ans : Cmd → Type) := List (Event Cmd Ans)

/-- How the outside answers, given what has happened. -/
abbrev Env (Cmd : Type) (Ans : Cmd → Type) := History Cmd Ans → (c : Cmd) → Ans c

/-! ### Putting scripts together -/

/-- One script after the other. -/
def bind : Script Cmd Ans ε α → (α → Script Cmd Ans ε β) → Script Cmd Ans ε β
  | ret a, f => f a
  | raise e, _ => raise e
  | call c next, f => call c fun a ↦ (next a).bind f

instance : Monad (Script Cmd Ans ε) where
  pure := ret
  bind := bind

/-- `c()`. -/
def exec (c : Cmd) : Script Cmd Ans ε (Ans c) := call c ret

/-- A call whose answer is used. -/
def ask (c : Cmd) : Script Cmd Ans ε (Ans c) := exec c

/-- A call whose answer is not used. -/
def tell (c : Cmd) : Script Cmd Ans ε Unit := (exec c).bind fun _ ↦ ret ()

/-- Raise unless `ok`. -/
def require (ok : Bool) (e : ε) : Script Cmd Ans ε Unit := if ok then ret () else raise e

/-- `if b: s`. -/
def when (b : Bool) (s : Script Cmd Ans ε Unit) : Script Cmd Ans ε Unit := if b then s else ret ()

/-- `try: s`, with the exception as a result. -/
def attempt {ε' : Type} : Script Cmd Ans ε α → Script Cmd Ans ε' (Except ε α)
  | ret a => ret (.ok a)
  | raise e => ret (.error e)
  | call c next => call c fun a ↦ (next a).attempt

/-- `for x in xs`, with the local variables that the body assigns. -/
def forEach {γ : Type} (body : γ → β → Script Cmd Ans ε β) : List γ → β → Script Cmd Ans ε β
  | [], b => ret b
  | x :: xs, b => (body x b).bind (forEach body xs)

/-- `for i in range(n)`, with the local variables that the body assigns. -/
def forRange (body : ℕ → β → Script Cmd Ans ε β) : ℕ → β → Script Cmd Ans ε β
  | 0, b => ret b
  | n + 1, b => (forRange body n b).bind (body n)

/-- The history and the end of a script that is run after a history. -/
def run (env : Env Cmd Ans) : Script Cmd Ans ε α → History Cmd Ans →
    History Cmd Ans × Except ε α
  | ret a, h => (h, .ok a)
  | raise e, h => (h, .error e)
  | call c next, h => (next (env h c)).run env (h ++ [⟨c, env h c⟩])

/-! ### Allowed calls -/

/-- Every call of the history was allowed when it was made. -/
def Safe (G : History Cmd Ans → Cmd → Prop) (h : History Cmd Ans) : Prop :=
  ∀ pre e post, h = pre ++ e :: post → G pre e.1

variable {G : History Cmd Ans → Cmd → Prop} {h : History Cmd Ans}

theorem safe_nil : Safe G [] := Lists.forall_splits_nil

theorem safe_concat {e : Event Cmd Ans} : Safe G (h ++ [e]) ↔ Safe G h ∧ G h e.1 :=
  Lists.forall_splits_concat

/-! ### Weakest preconditions -/

/-- After `h`, the script makes allowed calls only, returns to `Q` and raises to `E`. -/
def Meets (G : History Cmd Ans → Cmd → Prop) (Q : α → History Cmd Ans → Prop)
    (E : ε → History Cmd Ans → Prop) : Script Cmd Ans ε α → History Cmd Ans → Prop
  | ret a, h => Q a h
  | raise e, h => E e h
  | call c next, h => G h c ∧ ∀ a, (next a).Meets G Q E (h ++ [⟨c, a⟩])

variable {Q Q' : α → History Cmd Ans → Prop} {E E' : ε → History Cmd Ans → Prop}
  {s : Script Cmd Ans ε α}

@[simp] theorem meets_ret {a : α} : (ret a : Script Cmd Ans ε α).Meets G Q E h ↔ Q a h := Iff.rfl

@[simp] theorem meets_raise {e : ε} : (raise e : Script Cmd Ans ε α).Meets G Q E h ↔ E e h :=
  Iff.rfl

@[simp] theorem meets_call {c : Cmd} {next : Ans c → Script Cmd Ans ε α} :
    (call c next).Meets G Q E h ↔ G h c ∧ ∀ a, (next a).Meets G Q E (h ++ [⟨c, a⟩]) := Iff.rfl

/-- **A call** has to be allowed, and every answer has to do. -/
@[simp] theorem meets_exec {c : Cmd} {Q : Ans c → History Cmd Ans → Prop} :
    (exec c : Script Cmd Ans ε (Ans c)).Meets G Q E h ↔ G h c ∧ ∀ a, Q a (h ++ [⟨c, a⟩]) := Iff.rfl

/-- **One script after the other**: the second is met where the first returns. -/
@[simp] theorem meets_bind {f : α → Script Cmd Ans ε β} {Q : β → History Cmd Ans → Prop} :
    (s.bind f).Meets G Q E h ↔ s.Meets G (fun a ↦ (f a).Meets G Q E) E h := by
  induction s generalizing h with
  | ret a => exact Iff.rfl
  | raise e => exact Iff.rfl
  | call c next ih => exact and_congr_right fun _ ↦ forall_congr' fun a ↦ ih a

/-- **A branch without an else.** -/
@[simp] theorem meets_when {b : Bool} {s : Script Cmd Ans ε Unit}
    {Q : Unit → History Cmd Ans → Prop} :
    (when b s).Meets G Q E h ↔ if b then s.Meets G Q E h else Q () h := by
  cases b <;> exact Iff.rfl

/-- **A call whose answer is used.** -/
theorem meets_ask {c : Cmd} {f : Ans c → Script Cmd Ans ε α} : (ask c >>= f).Meets G Q E h ↔
    G h c ∧ ∀ a, (f a).Meets G Q E (h ++ [⟨c, a⟩]) := Iff.rfl

/-- **A call whose answer is not used.** -/
theorem meets_tell {c : Cmd} {f : Unit → Script Cmd Ans ε α} : (tell c >>= f).Meets G Q E h ↔
    G h c ∧ ∀ a : Ans c, (f ()).Meets G Q E (h ++ [⟨c, a⟩]) := Iff.rfl

/-- **The last call.** -/
theorem meets_last {c : Cmd} {Q : Unit → History Cmd Ans → Prop} :
    (tell c : Script Cmd Ans ε Unit).Meets G Q E h ↔
      G h c ∧ ∀ a : Ans c, Q () (h ++ [⟨c, a⟩]) := Iff.rfl

/-- **A check** that may raise. -/
theorem meets_require {ok : Bool} {e : ε} {Q : Unit → History Cmd Ans → Prop} :
    (require ok e : Script Cmd Ans ε Unit).Meets G Q E h ↔ if ok then Q () h else E e h := by
  cases ok <;> exact Iff.rfl

/-- What is met is met for weaker demands. -/
theorem Meets.mono (hs : s.Meets G Q E h) (hQ : ∀ a h, Q a h → Q' a h)
    (hE : ∀ e h, E e h → E' e h) : s.Meets G Q' E' h := by
  induction s generalizing h with
  | ret a => exact hQ a h hs
  | raise e => exact hE e h hs
  | call c next ih => exact ⟨hs.1, fun a ↦ ih a (hs.2 a)⟩

/-- Two demands that are met. -/
theorem Meets.and (hs : s.Meets G Q E h) (hs' : s.Meets G Q' E' h) :
    s.Meets G (fun a h ↦ Q a h ∧ Q' a h) (fun e h ↦ E e h ∧ E' e h) h := by
  induction s generalizing h with
  | ret a => exact ⟨hs, hs'⟩
  | raise e => exact ⟨hs, hs'⟩
  | call c next ih => exact ⟨hs.1, fun a ↦ ih a (hs.2 a) (hs'.2 a)⟩

/-- **One part after the other.** -/
theorem meets_seq {s : Script Cmd Ans ε β} {R : β → History Cmd Ans → Prop}
    {f : β → Script Cmd Ans ε α} (hs : s.Meets G R E h)
    (hf : ∀ b h, R b h → (f b).Meets G Q E h) : (s >>= f).Meets G Q E h :=
  meets_bind.2 (hs.mono hf fun _ _ he ↦ he)

/-- **An exception that is caught** is one of the ways to return. -/
theorem meets_attempt {ε' : Type} {Q : Except ε α → History Cmd Ans → Prop}
    {E : ε' → History Cmd Ans → Prop} :
    s.attempt.Meets G Q E h ↔ s.Meets G (fun a ↦ Q (.ok a)) (fun e ↦ Q (.error e)) h := by
  induction s generalizing h with
  | ret a => exact Iff.rfl
  | raise e => exact Iff.rfl
  | call c next ih => exact and_congr_right fun _ ↦ forall_congr' fun a ↦ ih a

/-- **A loop over a list keeps its invariant**, which is about the elements that are done. -/
theorem meets_forEach {γ : Type} {body : γ → β → Script Cmd Ans ε β}
    {I : List γ → β → History Cmd Ans → Prop} {xs : List γ}
    (hbody : ∀ done x rest, xs = done ++ x :: rest → ∀ b h, I done b h →
      (body x b).Meets G (I (done ++ [x])) E h) {b : β} (h0 : I [] b h) :
    (forEach body xs b).Meets G (I xs) E h := by
  have hsuffix : ∀ rest done, xs = done ++ rest → ∀ b h, I done b h →
      (forEach body rest b).Meets G (I xs) E h := by
    intro rest
    induction rest with
    | nil =>
      intro done hxs b h hI
      rw [List.append_nil] at hxs
      rw [forEach, hxs]
      exact hI
    | cons x rest ih =>
      intro done hxs b h hI
      rw [forEach, meets_bind]
      refine (hbody done x rest hxs b h hI).mono (fun b h hI ↦ ?_) fun _ _ he ↦ he
      exact ih (done ++ [x]) (by rw [hxs, List.append_assoc]; rfl) b h hI
  exact hsuffix xs [] rfl b h h0

/-- **A loop keeps its invariant**: it holds before the first turn, and a turn leads from it to it,
one further. -/
theorem meets_forRange {body : ℕ → β → Script Cmd Ans ε β} {I : ℕ → β → History Cmd Ans → Prop}
    {n : ℕ} (hbody : ∀ i < n, ∀ b h, I i b h → (body i b).Meets G (I (i + 1)) E h) {b : β}
    (h0 : I 0 b h) : (forRange body n b).Meets G (I n) E h := by
  induction n with
  | zero => exact h0
  | succ n ih =>
    rw [forRange, meets_bind]
    exact (ih fun i hi ↦ hbody i (Nat.lt_succ_of_lt hi)).mono (hbody n (Nat.lt_succ_self n))
      fun _ _ he ↦ he

/-! ### Scripts that make calls of one kind -/

/-- Every call of the script is of the kind `p`. -/
def Only (p : Cmd → Prop) : Script Cmd Ans ε α → Prop
  | ret _ => True
  | raise _ => True
  | call c next => p c ∧ ∀ a, (next a).Only p

variable {p : Cmd → Prop}

@[simp] theorem only_ret {a : α} : (ret a : Script Cmd Ans ε α).Only p := trivial

@[simp] theorem only_raise {e : ε} : (raise e : Script Cmd Ans ε α).Only p := trivial

@[simp] theorem only_exec {c : Cmd} : (exec c : Script Cmd Ans ε (Ans c)).Only p ↔ p c :=
  ⟨fun h ↦ h.1, fun h ↦ ⟨h, fun _ ↦ trivial⟩⟩

theorem only_ask {p : Cmd → Prop} {c : Cmd} {f : Ans c → Script Cmd Ans ε α} (hc : p c)
    (hf : ∀ a, (f a).Only p) : (ask c >>= f).Only p := ⟨hc, hf⟩

theorem only_tell {p : Cmd → Prop} {c : Cmd} {f : Unit → Script Cmd Ans ε α} (hc : p c)
    (hf : (f ()).Only p) : (tell c >>= f).Only p := ⟨hc, fun _ ↦ hf⟩

theorem only_require (ok : Bool) (e : ε) : (require ok e : Script Cmd Ans ε Unit).Only p := by
  cases ok <;> trivial

theorem Only.mono {q : Cmd → Prop} (hs : s.Only p) (hpq : ∀ c, p c → q c) : s.Only q := by
  induction s with
  | ret a => trivial
  | raise e => trivial
  | call c next ih => exact ⟨hpq c hs.1, fun a ↦ ih a (hs.2 a)⟩

theorem Only.bind {f : α → Script Cmd Ans ε β} (hs : s.Only p) (hf : ∀ a, (f a).Only p) :
    (s.bind f).Only p := by
  induction s with
  | ret a => exact hf a
  | raise e => trivial
  | call c next ih => exact ⟨hs.1, fun a ↦ ih a (hs.2 a)⟩

theorem Only.when {b : Bool} {s : Script Cmd Ans ε Unit} (hs : b = true → s.Only p) :
    (when b s).Only p := by
  cases b with
  | false => trivial
  | true => exact hs rfl

theorem Only.forEach {γ : Type} {body : γ → β → Script Cmd Ans ε β}
    (hbody : ∀ x b, (body x b).Only p) (xs : List γ) (b : β) : (forEach body xs b).Only p := by
  induction xs generalizing b with
  | nil => trivial
  | cons x xs ih => exact (hbody x b).bind fun b' ↦ ih b'

theorem Only.forRange {body : ℕ → β → Script Cmd Ans ε β} (hbody : ∀ i b, (body i b).Only p) (n : ℕ)
    (b : β) : (forRange body n b).Only p := by
  induction n with
  | zero => trivial
  | succ n ih => exact ih.bind (hbody n)

/-- **A script of one kind of calls** keeps what every call of that kind keeps. -/
theorem Only.meets (hs : s.Only p) {I : History Cmd Ans → Prop}
    (hallow : ∀ h c, p c → I h → G h c) (hkeep : ∀ h c a, p c → I h → I (h ++ [⟨c, a⟩]))
    (hI : I h) : s.Meets G (fun _ ↦ I) (fun _ ↦ I) h := by
  induction s generalizing h with
  | ret a => exact hI
  | raise e => exact hI
  | call c next ih => exact ⟨hallow h c hs.1 hI, fun a ↦ ih a (hs.2 a) (hkeep h c a hs.1 hI)⟩

/-! ### Soundness -/

/-- **Preconditions are sound**: whatever the environment answers, the calls are allowed and the end
is as demanded. -/
theorem Meets.run (hs : s.Meets G Q E h) (hsafe : Safe G h) (env : Env Cmd Ans) :
    Safe G (s.run env h).1 ∧
      (∀ a, (s.run env h).2 = .ok a → Q a (s.run env h).1) ∧
      ∀ e, (s.run env h).2 = .error e → E e (s.run env h).1 := by
  induction s generalizing h with
  | ret a =>
    refine ⟨hsafe, ?_, ?_⟩
    · intro a' ha
      obtain rfl := Except.ok.inj ha
      exact hs
    · intro e he
      cases he
  | raise e =>
    refine ⟨hsafe, ?_, ?_⟩
    · intro a ha
      cases ha
    · intro e' he
      obtain rfl := Except.error.inj he
      exact hs
  | call c next ih => exact ih _ (hs.2 _) (safe_concat.2 ⟨hsafe, hs.1⟩)

/-! ### Scripts that make marked calls in order -/

section Marks

variable {μ : Type} {mark : Cmd → Option μ} {ms ms' : List μ}

/-- The marks of the calls, in order. -/
def marks (mark : Cmd → Option μ) (h : History Cmd Ans) : List μ := h.filterMap fun e ↦ mark e.1

/-- **The script makes these marked calls in this order**, or the first of them, if it raises. -/
def Follows (mark : Cmd → Option μ) (ms : List μ) (s : Script Cmd Ans ε α) : Prop :=
  ∀ h, s.Meets (fun _ _ ↦ True) (fun _ h' ↦ marks mark h' = marks mark h ++ ms)
    (fun _ h' ↦ marks mark h' <+: marks mark h ++ ms) h

theorem marks_concat {e : Event Cmd Ans} :
    marks mark (h ++ [e]) = marks mark h ++ (mark e.1).toList := by
  rw [marks, marks, List.filterMap_append, List.filterMap_cons, List.filterMap_nil]
  cases mark e.1 <;> rfl

theorem follows_ret {a : α} : (ret a : Script Cmd Ans ε α).Follows mark [] := fun _ ↦
  (List.append_nil _).symm

theorem follows_raise {e : ε} : (raise e : Script Cmd Ans ε α).Follows mark ms := fun _ ↦
  List.prefix_append _ _

/-- **One part after the other.** -/
theorem Follows.bind {f : α → Script Cmd Ans ε β} (hs : s.Follows mark ms)
    (hf : ∀ a, (f a).Follows mark ms') : (s.bind f).Follows mark (ms ++ ms') := fun h ↦ by
  refine meets_bind.2 ((hs h).mono (fun a h₁ h₁marks ↦ ?_) fun _ h₁ h₁marks ↦ ?_)
  · rw [← List.append_assoc, ← h₁marks]
    exact hf a h₁
  · rw [← List.append_assoc]
    exact h₁marks.trans (List.prefix_append _ _)

theorem follows_exec (c : Cmd) :
    (exec c : Script Cmd Ans ε (Ans c)).Follows mark (mark c).toList := fun _ ↦
  ⟨trivial, fun _ ↦ marks_concat⟩

theorem follows_ask {c : Cmd} {f : Ans c → Script Cmd Ans ε α}
    (hf : ∀ a, (f a).Follows mark ms) : (ask c >>= f).Follows mark ((mark c).toList ++ ms) :=
  (follows_exec c).bind hf

theorem follows_require (ok : Bool) (e : ε) :
    (require ok e : Script Cmd Ans ε Unit).Follows mark [] := by
  cases ok with
  | true => exact follows_ret
  | false => exact follows_raise

/-- **Calls without a mark** do not count. -/
theorem Only.follows (hs : s.Only fun c ↦ mark c = none) : s.Follows mark [] := fun h ↦ by
  refine (hs.meets (I := fun h' ↦ marks mark h' = marks mark h) (fun _ _ _ _ ↦ trivial)
    (fun h' c a hc hI ↦ ?_) rfl).mono (fun _ h' hI ↦ ?_) fun _ h' hI ↦ ?_
  · rw [marks_concat, hc, hI]
    exact List.append_nil _
  · rw [hI, List.append_nil]
  · rw [hI]
    exact List.prefix_append _ _

theorem Follows.forEach {γ : Type} {body : γ → β → Script Cmd Ans ε β} {ms : γ → List μ}
    (hbody : ∀ x b, (body x b).Follows mark (ms x)) (xs : List γ) (b : β) :
    (forEach body xs b).Follows mark (xs.flatMap ms) := by
  induction xs generalizing b with
  | nil => exact follows_ret
  | cons x xs ih =>
    rw [List.flatMap_cons]
    exact (hbody x b).bind fun b' ↦ ih b'

/-- The script begins with a marked call, unless it returns without any. -/
def Starts (mark : Cmd → Option μ) : Script Cmd Ans ε α → Prop
  | ret _ => True
  | raise _ => False
  | call c _ => (mark c).isSome = true

theorem starts_ret {a : α} : (ret a : Script Cmd Ans ε α).Starts mark := trivial

theorem Starts.bind {f : α → Script Cmd Ans ε β} (hs : s.Starts mark)
    (hf : ∀ a, (f a).Starts mark) : (s.bind f).Starts mark := by
  cases s with
  | ret a => exact hf a
  | raise e => exact hs.elim
  | call c next => exact hs

theorem Starts.forEach {γ : Type} {body : γ → β → Script Cmd Ans ε β}
    (hbody : ∀ x b, (body x b).Starts mark) (xs : List γ) (b : β) :
    (forEach body xs b).Starts mark := by
  induction xs generalizing b with
  | nil => trivial
  | cons x xs ih => exact (hbody x b).bind fun b' ↦ ih b'

/-- What is marked stays. -/
theorem meets_marked (hne : marks mark h ≠ []) : s.Meets (fun _ _ ↦ True)
    (fun _ h' ↦ marks mark h' ≠ []) (fun _ h' ↦ marks mark h' ≠ []) h := by
  induction s generalizing h with
  | ret a => exact hne
  | raise e => exact hne
  | call c next ih =>
    refine ⟨trivial, fun a ↦ ih a ?_⟩
    rw [marks_concat]
    exact List.append_ne_nil_of_left_ne_nil hne _

/-- **A script that begins with a marked call** raises after one. -/
theorem Starts.meets (hs : s.Starts mark) (h : History Cmd Ans) :
    s.Meets (fun _ _ ↦ True) (fun _ _ ↦ True) (fun _ h' ↦ marks mark h' ≠ []) h := by
  cases s with
  | ret a => trivial
  | raise e => exact hs.elim
  | call c next =>
    obtain ⟨m, hm⟩ := Option.isSome_iff_exists.1 hs
    refine ⟨trivial, fun a ↦ (meets_marked ?_).mono (fun _ _ _ ↦ trivial) fun _ _ he ↦ he⟩
    rw [marks_concat, hm]
    exact List.append_ne_nil_of_right_ne_nil _ (List.cons_ne_nil m [])

end Marks

/-! ### Answers -/

/-- **What was answered in a run** was answered by the environment. -/
theorem exists_answered (s : Script Cmd Ans ε α) (env : Env Cmd Ans) (h : History Cmd Ans)
    {e : Event Cmd Ans} (he : e ∈ (s.run env h).1) : e ∈ h ∨ ∃ pre, e.2 = env pre e.1 := by
  induction s generalizing h with
  | ret a => exact .inl he
  | raise e => exact .inl he
  | call c next ih =>
    refine (ih _ _ he).elim (fun he ↦ ?_) .inr
    rcases List.mem_append.1 he with he | he
    · exact .inl he
    · obtain rfl := List.mem_singleton.1 he
      exact .inr ⟨h, rfl⟩

end Script
