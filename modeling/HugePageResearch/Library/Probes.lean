import HugePageResearch.Library.Hash
import HugePageResearch.Library.Run
import Mathlib.Data.List.Perm.Basic

/-!
# Two probes and a hash between them

An event of a thread passes two probes. The first one notes something under the thread, unless there
is a note already or no room for one; the second one takes the note and reports it together with
what it sees itself, or reports nothing where there is no note. Events of one thread may overlap, in
any way.

A finished run reports what it should if no event starts while another one of its thread is going
on, and there is always room (`reports_eq_expected`); if not, some event is not reported
(`length_reports_lt`). The argument counts: a note is reported at most once, so an event whose note
does not get into the hash leaves a report missing in the end, whoever takes the note that was there
(`Short`).
-/

namespace Probes

variable {κ α β γ : Type*} [DecidableEq κ]

/-- The probes and the events. -/
structure World (κ α γ : Type*) where
  /-- The notes. -/
  hash : Dict κ α
  /-- What was reported. -/
  reports : List γ
  /-- The events that are going on: the thread, and what is to be noted. -/
  opened : List (κ × α)
  /-- What should have been reported. -/
  expected : List γ

/-- Nothing has happened. -/
def World.init : World κ α γ := ⟨.empty, [], [], []⟩

/-- A probe is passed. -/
inductive Label (κ α β : Type*) where
  /-- The first one, which notes `note`. -/
  | enter (thread : κ) (note : α)
  /-- The second one, which sees `seen`, of the event that notes `note`. -/
  | leave (thread : κ) (note : α) (seen : β)

/-- The first probe, with a hash of `size` entries. -/
def enter (size : ℕ) (thread : κ) (note : α) (hash : Dict κ α) : Dict κ α :=
  Hash.insert size hash thread note

/-- The second probe, which makes a report of a note and of what it sees. -/
def leave (report : α → β → γ) (thread : κ) (seen : β) (hash : Dict κ α) (reports : List γ) :
    Dict κ α × List γ :=
  match hash.get? thread with
  | none => (hash, reports)
  | some note => (hash.erase thread, reports ++ [report note seen])

/-! ### The probes -/

section Probe

variable {size : ℕ} {hash : Dict κ α} {reports : List γ} {report : α → β → γ}
  {thread : κ} {note : α} {seen : β}

/-- A note with room, and without one before it, comes last. -/
theorem items_enter (hnew : thread ∉ hash.keys) (hroom : hash.items.length < size) :
    (enter size thread note hash).items = hash.items ++ [(thread, note)] := by
  rw [enter, Hash.insert, if_neg hnew, Hash.update, if_pos (.inr hroom),
    Dict.items_set_of_not_mem note hnew]

/-- **A note that does not get in** leaves the hash as it is. -/
theorem enter_of_not (h : ¬ (thread ∉ hash.keys ∧ hash.items.length < size)) :
    enter size thread note hash = hash := by
  rw [enter, Hash.insert]
  split_ifs with hk
  · rfl
  · rw [Hash.update, if_neg]
    rintro (hk' | hroom)
    · exact hk hk'
    · exact h ⟨hk, hroom⟩

theorem length_items_enter :
    (enter size thread note hash).items.length ≤ hash.items.length + 1 := by
  by_cases h : thread ∉ hash.keys ∧ hash.items.length < size
  · refine Nat.le_of_eq ?_
    rw [items_enter h.1 h.2, List.length_append, List.length_singleton]
  · rw [enter_of_not h]
    exact Nat.le_succ _

theorem leave_of_some (h : hash.get? thread = some note) :
    leave report thread seen hash reports = (hash.erase thread, reports ++ [report note seen]) := by
  rw [leave, h]

/-- Taking a note takes one entry out. -/
theorem items_erase [DecidableEq α] (h : hash.get? thread = some note) :
    (hash.erase thread).items = hash.items.erase (thread, note) := by
  have hnd : hash.items.Nodup := hash.nodupKeys.of_map
  show hash.items.filter (fun e ↦ e.1 ≠ thread) = _
  rw [hnd.erase_eq_filter]
  refine List.filter_congr fun e he ↦ ?_
  rw [Bool.eq_iff_iff, decide_eq_true_iff, bne_iff_ne, not_iff_not]
  constructor
  · rintro rfl
    exact Prod.ext rfl (Option.some.inj ((Dict.get?_eq_some.2 he).symm.trans h))
  · rintro rfl
    rfl

/-- **A report for each note that goes**, and none without one. -/
theorem length_leave [DecidableEq α] : (leave report thread seen hash reports).2.length +
    (leave report thread seen hash reports).1.items.length =
      reports.length + hash.items.length := by
  cases h : hash.get? thread with
  | none => rw [leave, h]
  | some note =>
    have hlen := List.length_erase_of_mem (Dict.get?_eq_some.1 h)
    have hpos := List.length_pos_of_mem (Dict.get?_eq_some.1 h)
    rw [leave_of_some h]
    show (reports ++ [report note seen]).length + (hash.erase thread).items.length = _
    rw [items_erase h, List.length_append, List.length_singleton]
    omega

end Probe

/-! ### Events -/

variable [DecidableEq α]

/-- A probe is passed; only an event that is going on reaches the second one. -/
def step (size : ℕ) (report : α → β → γ) (w : World κ α γ) :
    Label κ α β → Option (World κ α γ)
  | .enter thread note =>
    some { w with
      hash := enter size thread note w.hash
      opened := (thread, note) :: w.opened }
  | .leave thread note seen =>
    if (thread, note) ∈ w.opened then
      some { hash := (leave report thread seen w.hash w.reports).1
             reports := (leave report thread seen w.hash w.reports).2
             opened := w.opened.erase (thread, note)
             expected := w.expected ++ [report note seen] }
    else none

/-- An event starts alone on its thread, and there is room for its note. -/
def Alone (size : ℕ) (w : World κ α γ) : Label κ α β → Prop
  | .enter thread _ => thread ∉ w.opened.map Prod.fst ∧ w.hash.items.length < size
  | .leave _ _ _ => True

instance (size : ℕ) (w : World κ α γ) (l : Label κ α β) : Decidable (Alone size w l) :=
  match l with
  | .enter _ _ => inferInstanceAs (Decidable (_ ∧ _))
  | .leave _ _ _ => inferInstanceAs (Decidable True)

variable {size n : ℕ} {report : α → β → γ} {w w' t : World κ α γ} {l : Label κ α β}
  {ls : List (Label κ α β)}

/-! ### Runs without overlap -/

/-- Without overlap, the notes are those of the events that are going on. -/
structure Inv (w : World κ α γ) : Prop where
  notes : w.hash.items.Perm w.opened
  reports : w.reports = w.expected

omit [DecidableEq κ] [DecidableEq α] in
theorem inv_init : Inv (World.init : World κ α γ) := ⟨.nil, rfl⟩

omit [DecidableEq κ] [DecidableEq α] in
/-- A thread with an event has its note. -/
theorem Inv.mem_keys (hw : Inv w) {thread : κ} :
    thread ∈ w.hash.keys ↔ thread ∈ w.opened.map Prod.fst :=
  (hw.notes.map Prod.fst).mem_iff

/-- **A step without overlap** keeps the notes, and reports what it should. -/
theorem Inv.step (hw : Inv w) (halone : Alone size w l) (h : step size report w l = some w') :
    Inv w' := by
  cases l with
  | enter thread note =>
    obtain rfl := Option.some.inj h
    obtain ⟨hnew, hroom⟩ := halone
    refine ⟨?_, hw.reports⟩
    show (enter size thread note w.hash).items.Perm _
    rw [items_enter (fun hk ↦ hnew (hw.mem_keys.1 hk)) hroom]
    exact (List.perm_append_singleton _ _).trans (hw.notes.cons _)
  | leave thread note seen =>
    rw [Probes.step] at h
    split_ifs at h with hmem
    obtain rfl := Option.some.inj h
    have hnote : w.hash.get? thread = some note := Dict.get?_eq_some.2 (hw.notes.mem_iff.2 hmem)
    refine ⟨?_, ?_⟩
    · show (leave report thread seen w.hash w.reports).1.items.Perm _
      rw [leave_of_some hnote]
      show (w.hash.erase thread).items.Perm _
      rw [items_erase hnote]
      exact hw.notes.erase _
    · show (leave report thread seen w.hash w.reports).2 = w.expected ++ [report note seen]
      rw [leave_of_some hnote, hw.reports]

/-- **Without overlap every event is reported**, with its own note. -/
theorem reports_eq_expected (h : Run.exec (step size report) .init ls = some t)
    (halone : Run.Always (step size report) (Alone size) .init ls) : t.reports = t.expected :=
  have ht : Inv t :=
    Run.exec_invariant_of_always (fun _ _ _ hw hl hstep ↦ hw.step hl hstep) inv_init halone h
  ht.reports

/-! ### What is missing -/

/-- At least `n` reports are missing, whatever will happen to the notes. -/
def Short (n : ℕ) (w : World κ α γ) : Prop :=
  w.reports.length + w.hash.items.length + n ≤ w.expected.length + w.opened.length

/-- **What is missing stays missing.** -/
theorem Short.step (hw : Short n w) (h : step size report w l = some w') : Short n w' := by
  cases l with
  | enter thread note =>
    obtain rfl := Option.some.inj h
    have hlen : (enter size thread note w.hash).items.length ≤ w.hash.items.length + 1 :=
      length_items_enter
    show w.reports.length + (enter size thread note w.hash).items.length + n ≤
      w.expected.length + (w.opened.length + 1)
    rw [Short] at hw
    omega
  | leave thread note seen =>
    rw [Probes.step] at h
    split_ifs at h with hmem
    obtain rfl := Option.some.inj h
    have hleave : (leave report thread seen w.hash w.reports).2.length +
        (leave report thread seen w.hash w.reports).1.items.length =
          w.reports.length + w.hash.items.length := length_leave
    have hlen := List.length_erase_of_mem hmem
    have hpos := List.length_pos_of_mem hmem
    show (leave report thread seen w.hash w.reports).2.length +
      (leave report thread seen w.hash w.reports).1.items.length + n ≤
        (w.expected ++ [report note seen]).length + (w.opened.erase (thread, note)).length
    rw [List.length_append, List.length_singleton]
    rw [Short] at hw
    omega

/-- **An event that does not start alone** leaves a report missing. -/
theorem short_of_not_alone (hw : Inv w) (halone : ¬ Alone size w l)
    (h : step size report w l = some w') : Short 1 w' := by
  cases l with
  | enter thread note =>
    obtain rfl := Option.some.inj h
    have hsame : enter size thread note w.hash = w.hash :=
      enter_of_not fun hnot ↦ halone ⟨fun hk ↦ hnot.1 (hw.mem_keys.2 hk), hnot.2⟩
    have hlen := hw.notes.length_eq
    show w.reports.length + (enter size thread note w.hash).items.length + 1 ≤
      w.expected.length + (w.opened.length + 1)
    rw [hsame, hw.reports, hlen]
    exact Nat.le_refl _
  | leave thread note seen => exact absurd trivial halone

/-- **With an overlap some event is not reported.** -/
theorem length_reports_lt (h : Run.exec (step size report) .init ls = some t) (hfin : t.opened = [])
    (halone : ¬ Run.Always (step size report) (Alone size) .init ls) :
    t.reports.length < t.expected.length := by
  obtain ⟨pre, l, post, s₁, s₂, -, hpre, hl, hstep, hpost, hfirst⟩ :=
    Run.exists_step_of_not_always h halone
  have hs₁ : Inv s₁ :=
    Run.exec_invariant_of_always (fun _ _ _ hw hl hstep ↦ hw.step hl hstep) inv_init hfirst hpre
  have hs₂ : Short 1 s₂ := short_of_not_alone hs₁ hl hstep
  have ht : Short 1 t := Run.exec_invariant (fun _ _ _ hw hstep ↦ hw.step hstep) hs₂ hpost
  rw [Short, hfin, List.length_nil] at ht
  omega

end Probes
