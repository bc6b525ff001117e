import HugePageResearch.Library.Script
import HugePageResearch.Replay.Replayer

/-!
# The syscall that splits a page

`kernel-patches/ubuntu-6.8.0-101.101-split_thp.patch`: `split_thp(pid, vaddr)` looks up the task,
takes its address space and the lock of its mappings, finds the page at the address, and splits the
folio of the page under the folio's lock. What it takes on the way it has to give back on every
path, of which there are as many as there are ways to fail.

The functions of the kernel that it calls are the calls of a script, and the kernel may answer them
in any way. A reference or a lock is a `Resource`; `held` says which ones a history has left.

`sysSplitThp_spec` says that each function is called with what it needs, that nothing is held in the
end, and that the syscall returns 0 exactly where it has split a folio, which is one that is mapped
at the page of the address.
-/

namespace SplitThp

open Script

/-! ### What the kernel is asked -/

/-- A number that `IS_ERR` takes for an error: a pointer of one is its negative. -/
abbrev Errno := {e : ℕ // 0 < e ∧ e ≤ 4095}

/-- What a function returns that may fail with a number. -/
inductive Pointer (α : Type) where
  | err (e : Errno)
  | null
  | ok (a : α)

/-- A `task_struct`. -/
structure Task where
  address : ℕ
  deriving DecidableEq

/-- A `mm_struct`. -/
structure Mm where
  address : ℕ
  deriving DecidableEq

/-- A `folio`. -/
structure Folio where
  address : ℕ
  deriving DecidableEq

/-- A `page`, with its `page_folio`. -/
structure Page where
  folio : Folio

/-- A `vm_area_struct`, as far as it is looked at. -/
structure Vma where
  address : ℕ
  /-- `vma_is_special_huge`. -/
  isSpecialHuge : Bool
  /-- `vm_flags & VM_IO`. -/
  io : Bool
  /-- `is_vm_hugetlb_page`. -/
  isHugetlb : Bool

/-- The functions of the kernel that the syscall calls. -/
inductive Cmd where
  | findGetTaskByVpid (pid : BitVec 32)
  | mmAccess (task : Task)
  | putTaskStruct (task : Task)
  | mmapReadLock (mm : Mm)
  | vmaLookup (mm : Mm) (vaddr : BitVec 64)
  /-- With `FOLL_GET | FOLL_DUMP`; `mm` is the mapping's `vm_mm`. -/
  | followPage (mm : Mm) (vma : Vma) (vaddr : BitVec 64)
  | isTransparentHugepage (folio : Folio)
  | canSplitFolio (folio : Folio)
  | folioTrylock (folio : Folio)
  | splitFolio (folio : Folio)
  | folioUnlock (folio : Folio)
  | folioPut (folio : Folio)
  | mmapReadUnlock (mm : Mm)
  | mmput (mm : Mm)

/-- What they return. -/
abbrev Ans : Cmd → Type
  | .findGetTaskByVpid _ => Option Task
  | .mmAccess _ => Pointer Mm
  | .vmaLookup _ _ => Option Vma
  | .followPage _ _ _ => Pointer Page
  | .isTransparentHugepage _ => Bool
  | .canSplitFolio _ => Bool
  | .folioTrylock _ => Bool
  | .splitFolio _ => ℤ
  | _ => Unit

/-- A part of the syscall; it raises nothing. -/
abbrev Action (α : Type) := Script Cmd Ans Empty α

/-- What has happened. -/
abbrev Log := History Cmd Ans

/-! ### The syscall -/

/-- `EPERM`. -/
def eperm : ℤ := 1

/-- `ENOENT`. -/
def enoent : ℤ := 2

/-- `ESRCH`. -/
def esrch : ℤ := 3

/-- `EAGAIN`. -/
def eagain : ℤ := 11

/-- `EACCES`. -/
def eacces : ℤ := 13

/-- `EFAULT`. -/
def efault : ℤ := 14

/-- `vaddr & PAGE_MASK`. -/
def pageOf (vaddr : BitVec 64) : BitVec 64 := vaddr &&& ~~~4095#64

/-- `vma_not_suitable_for_thp_split`. -/
def vmaNotSuitableForThpSplit (vma : Vma) : Bool := vma.isSpecialHuge || vma.io || vma.isHugetlb

/-- `split_thp_vaddr_locked` from `page_folio` to `out_put`. -/
def splitFolioOf (folio : Folio) : Action ℤ := do
  let huge ← (ask (Cmd.isTransparentHugepage folio) : Action Bool)
  if !huge then pure (-enoent) else do
    let can ← (ask (Cmd.canSplitFolio folio) : Action Bool)
    if !can then pure (-eagain) else do
      let locked ← (ask (Cmd.folioTrylock folio) : Action Bool)
      if !locked then pure (-eagain) else do
        let ret ← (ask (Cmd.splitFolio folio) : Action ℤ)
        tell (Cmd.folioUnlock folio)
        pure ret

/-- `split_thp_vaddr_locked`. -/
def splitThpVaddrLocked (mm : Mm) (vaddr : BitVec 64) : Action ℤ := do
  match ← (ask (Cmd.vmaLookup mm vaddr) : Action (Option Vma)) with
  | none => pure (-efault)
  | some vma =>
    if vmaNotSuitableForThpSplit vma then pure (-enoent) else do
      match ← (ask (Cmd.followPage mm vma vaddr) : Action (Pointer Page)) with
      | .err _ => pure (-efault)
      | .null => pure (-efault)
      | .ok page => do
        let ret ← splitFolioOf page.folio
        -- `out_put`
        tell (Cmd.folioPut page.folio)
        pure ret

/-- `SYSCALL_DEFINE2(split_thp, ...)`. -/
def sysSplitThp (pid : BitVec 32) (vaddr : BitVec 64) : Action ℤ := do
  let vaddr := pageOf vaddr
  match ← (ask (Cmd.findGetTaskByVpid pid) : Action (Option Task)) with
  | none => pure (-esrch)
  | some task => do
    let mm ← (ask (Cmd.mmAccess task) : Action (Pointer Mm))
    tell (Cmd.putTaskStruct task)
    match mm with
    | .err e => pure (if -(e.1 : ℤ) = -eacces then -eperm else -(e.1 : ℤ))
    | .null => pure (-esrch)
    | .ok mm => do
      tell (Cmd.mmapReadLock mm)
      let ret ← splitThpVaddrLocked mm vaddr
      tell (Cmd.mmapReadUnlock mm)
      tell (Cmd.mmput mm)
      pure ret

/-! ### What is held -/

/-- Something that has to be given back. -/
inductive Resource where
  /-- A reference to a task. -/
  | task (task : Task)
  /-- A reference to an address space. -/
  | mm (mm : Mm)
  /-- The lock of its mappings. -/
  | mmapLock (mm : Mm)
  /-- A reference to a folio. -/
  | folio (folio : Folio)
  /-- The lock of a folio. -/
  | folioLock (folio : Folio)
  deriving DecidableEq

/-- What is held after an event. -/
def hold (before : List Resource) : Event Cmd Ans → List Resource
  | ⟨.findGetTaskByVpid _, some task⟩ => .task task :: before
  | ⟨.mmAccess _, .ok mm⟩ => .mm mm :: before
  | ⟨.putTaskStruct task, _⟩ => before.erase (.task task)
  | ⟨.mmapReadLock mm, _⟩ => .mmapLock mm :: before
  | ⟨.followPage _ _ _, .ok page⟩ => .folio page.folio :: before
  | ⟨.folioTrylock folio, true⟩ => .folioLock folio :: before
  | ⟨.folioUnlock folio, _⟩ => before.erase (.folioLock folio)
  | ⟨.folioPut folio, _⟩ => before.erase (.folio folio)
  | ⟨.mmapReadUnlock mm, _⟩ => before.erase (.mmapLock mm)
  | ⟨.mmput mm, _⟩ => before.erase (.mm mm)
  | _ => before

/-- What is held. -/
def held (h : Log) : List Resource := h.foldl hold []

/-- **What a function needs**, of what is held: a mapping is looked at under the lock of its address
space, a folio with a reference to it, and it is split under its lock; what is given back is held,
and a reference is given back after the lock that it protects. -/
def AllowedWith (R : List Resource) : Cmd → Prop
  | .findGetTaskByVpid _ => True
  | .mmAccess task => .task task ∈ R
  | .putTaskStruct task => .task task ∈ R
  | .mmapReadLock mm => .mm mm ∈ R ∧ .mmapLock mm ∉ R
  | .vmaLookup mm _ => .mmapLock mm ∈ R
  | .followPage mm _ _ => .mmapLock mm ∈ R
  | .isTransparentHugepage folio => .folio folio ∈ R
  | .canSplitFolio folio => .folio folio ∈ R
  | .folioTrylock folio => .folio folio ∈ R ∧ .folioLock folio ∉ R
  | .splitFolio folio => .folio folio ∈ R ∧ .folioLock folio ∈ R
  | .folioUnlock folio => .folioLock folio ∈ R
  | .folioPut folio => .folio folio ∈ R ∧ .folioLock folio ∉ R
  | .mmapReadUnlock mm => .mmapLock mm ∈ R
  | .mmput mm => .mm mm ∈ R ∧ .mmapLock mm ∉ R

/-- A function is called with what it needs. -/
def Allowed (h : Log) (c : Cmd) : Prop := AllowedWith (held h) c

/-- The folio that an event has split. -/
def splitOf : Event Cmd Ans → Option Folio
  | ⟨.splitFolio folio, code⟩ => if code = (0 : ℤ) then some folio else none
  | _ => none

/-- The folios that were split. -/
def splits (h : Log) : List Folio := h.filterMap splitOf

/-- **The folio is mapped** at an address of the address space, in a mapping that is suitable, and
is a transparent huge page. -/
def MappedIn (mm : Mm) (vaddr : BitVec 64) (h : Log) (folio : Folio) : Prop :=
  ∃ vma, ∃ page : Page, page.folio = folio ∧ vmaNotSuitableForThpSplit vma = false ∧
    (⟨.vmaLookup mm vaddr, some vma⟩ : Event Cmd Ans) ∈ h ∧
    (⟨.followPage mm vma vaddr, .ok page⟩ : Event Cmd Ans) ∈ h ∧
    (⟨.isTransparentHugepage folio, true⟩ : Event Cmd Ans) ∈ h

/-- The same for the address space of a process. -/
def Mapped (pid : BitVec 32) (vaddr : BitVec 64) (h : Log) (folio : Folio) : Prop :=
  ∃ task mm, (⟨.findGetTaskByVpid pid, some task⟩ : Event Cmd Ans) ∈ h ∧
    (⟨.mmAccess task, .ok mm⟩ : Event Cmd Ans) ∈ h ∧ MappedIn mm vaddr h folio

theorem MappedIn.mono {mm : Mm} {vaddr : BitVec 64} {h h' : Log} {folio : Folio}
    (hm : MappedIn mm vaddr h folio) (hsub : h ⊆ h') : MappedIn mm vaddr h' folio := by
  obtain ⟨vma, page, hpage, hvma, hlookup, hfollow, hhuge⟩ := hm
  exact ⟨vma, page, hpage, hvma, hsub hlookup, hsub hfollow, hsub hhuge⟩

/-! ### One path after the other -/

section Paths

variable {h h' : Log} {c : Cmd} {e : Event Cmd Ans} {R : List Resource} {fs : List Folio}
  {E : Empty → Log → Prop} {folio : Folio} {mm : Mm} {vaddr : BitVec 64} {pid : BitVec 32}

/-- **How far a path has come**: what is held, and which folios it has split. -/
structure Leads (h : Log) (R : List Resource) (fs : List Folio) (h' : Log) : Prop where
  subset : h ⊆ h'
  held_eq : held h' = R
  splits_eq : splits h' = splits h ++ fs

theorem leads_refl (hR : held h = R) : Leads h R [] h :=
  ⟨List.Subset.refl h, hR, (List.append_nil _).symm⟩

theorem Leads.trans {R' : List Resource} {h'' : Log} (hl : Leads h R [] h')
    (hl' : Leads h' R' fs h'') : Leads h R' fs h'' where
  subset := List.Subset.trans hl.subset hl'.subset
  held_eq := hl'.held_eq
  splits_eq := by rw [hl'.splits_eq, hl.splits_eq, List.append_nil]

theorem Leads.allowed (hl : Leads h R fs h') (hc : AllowedWith R c) : Allowed h' c := by
  rw [Allowed, hl.held_eq]
  exact hc

/-- **One call further**, which splits nothing. -/
theorem Leads.call {R' : List Resource} (hl : Leads h R fs h') (hR : hold R e = R')
    (hs : splitOf e = none) : Leads h R' fs (h' ++ [e]) where
  subset := List.subset_append_of_subset_left _ hl.subset
  held_eq := by
    rw [← hR, ← hl.held_eq, held, List.foldl_concat]
    rfl
  splits_eq := by
    rw [← hl.splits_eq, splits, List.filterMap_append, List.filterMap_cons_none hs]
    exact List.append_nil _

/-- **A folio is split.** -/
theorem Leads.split (hl : Leads h R [] h') :
    Leads h R [folio] (h' ++ [⟨.splitFolio folio, (0 : ℤ)⟩]) where
  subset := List.subset_append_of_subset_left _ hl.subset
  held_eq := by
    rw [← hl.held_eq, held, List.foldl_concat]
    rfl
  splits_eq := by
    rw [← List.append_nil (splits h), ← hl.splits_eq, splits, List.filterMap_append]
    rfl

theorem mem_concat (h : Log) (e : Event Cmd Ans) : e ∈ h ++ [e] :=
  List.mem_append_right _ (List.mem_singleton_self e)

/-- What a path has split: the code is 0 where it is one folio, and it is not where it is none. -/
inductive Outcome (P : Folio → Prop) : ℤ → List Folio → Prop where
  | split (folio : Folio) (hP : P folio) : Outcome P 0 [folio]
  | failed (code : ℤ) (hcode : code ≠ 0) : Outcome P code []

theorem Outcome.mono {P P' : Folio → Prop} {code : ℤ} (ho : Outcome P code fs)
    (hP : ∀ folio, P folio → P' folio) : Outcome P' code fs := by
  cases ho with
  | split folio h => exact .split folio (hP folio h)
  | failed code hcode => exact .failed code hcode

/-- **The part about a folio** gives the lock back that it takes. -/
theorem meets_splitFolioOf (hR : held h = R) (hin : .folio folio ∈ R)
    (hunlocked : .folioLock folio ∉ R) :
    (splitFolioOf folio).Meets Allowed (fun code h' ↦ ∃ fs, Leads h R fs h' ∧
      Outcome (fun f ↦ f = folio ∧
        (⟨.isTransparentHugepage folio, true⟩ : Event Cmd Ans) ∈ h') code fs) E h := by
  have hl := leads_refl hR
  refine meets_ask.2 ⟨hl.allowed hin, fun huge ↦ ?_⟩
  cases huge with
  | false => exact ⟨[], hl.call rfl rfl, .failed _ (by decide)⟩
  | true =>
  have hl₁ : Leads h R [] (h ++ [⟨.isTransparentHugepage folio, true⟩]) := hl.call rfl rfl
  refine meets_ask.2 ⟨hl₁.allowed hin, fun can ↦ ?_⟩
  cases can with
  | false => exact ⟨[], hl₁.call rfl rfl, .failed _ (by decide)⟩
  | true =>
  have hl₂ : Leads h R [] (_ ++ [⟨.canSplitFolio folio, true⟩]) := hl₁.call rfl rfl
  refine meets_ask.2 ⟨hl₂.allowed ⟨hin, hunlocked⟩, fun locked ↦ ?_⟩
  cases locked with
  | false => exact ⟨[], hl₂.call rfl rfl, .failed _ (by decide)⟩
  | true =>
  have hl₃ : Leads h (.folioLock folio :: R) [] (_ ++ [⟨.folioTrylock folio, true⟩]) :=
    hl₂.call rfl rfl
  refine meets_ask.2 ⟨hl₃.allowed ⟨List.mem_cons_of_mem _ hin, List.mem_cons_self⟩, fun code ↦ ?_⟩
  have hhuge : (⟨.isTransparentHugepage folio, true⟩ : Event Cmd Ans) ∈
      h ++ [⟨.isTransparentHugepage folio, true⟩] := mem_concat _ _
  by_cases hcode : code = (0 : ℤ)
  · subst hcode
    have hl₄ : Leads h (.folioLock folio :: R) [folio] (_ ++ [⟨.splitFolio folio, (0 : ℤ)⟩]) :=
      hl₃.split
    refine meets_tell.2 ⟨hl₄.allowed List.mem_cons_self, fun _ ↦ ⟨[folio], ?_, ?_⟩⟩
    · exact hl₄.call (List.erase_cons_head _ _) rfl
    · exact .split folio ⟨rfl, by simp⟩
  · have hl₄ : Leads h (.folioLock folio :: R) [] (_ ++ [⟨.splitFolio folio, code⟩]) :=
      hl₃.call rfl (if_neg hcode)
    refine meets_tell.2 ⟨hl₄.allowed List.mem_cons_self, fun _ ↦ ⟨[], ?_, .failed _ hcode⟩⟩
    exact hl₄.call (List.erase_cons_head _ _) rfl

/-- **The part under the lock of the mappings** gives the reference to the folio back. -/
theorem meets_splitThpVaddrLocked (hR : held h = R) (hlock : .mmapLock mm ∈ R)
    (hfree : ∀ folio, .folio folio ∉ R ∧ .folioLock folio ∉ R) :
    (splitThpVaddrLocked mm vaddr).Meets Allowed (fun code h' ↦ ∃ fs, Leads h R fs h' ∧
      Outcome (MappedIn mm vaddr h') code fs) E h := by
  have hl := leads_refl hR
  refine meets_ask.2 ⟨hl.allowed hlock, fun vma ↦ ?_⟩
  cases vma with
  | none => exact ⟨[], hl.call rfl rfl, .failed _ (by decide)⟩
  | some vma =>
  have hl₁ : Leads h R [] (h ++ [⟨.vmaLookup mm vaddr, some vma⟩]) := hl.call rfl rfl
  cases hvma : vmaNotSuitableForThpSplit vma with
  | true =>
    show (if vmaNotSuitableForThpSplit vma then _ else _ : Action ℤ).Meets _ _ _ _
    rw [if_pos hvma]
    exact ⟨[], hl₁, .failed _ (by decide)⟩
  | false =>
  show (if vmaNotSuitableForThpSplit vma then _ else _ : Action ℤ).Meets _ _ _ _
  rw [if_neg (by rw [hvma]; exact Bool.false_ne_true)]
  refine meets_ask.2 ⟨hl₁.allowed hlock, fun page ↦ ?_⟩
  cases page with
  | err e => exact ⟨[], hl₁.call rfl rfl, .failed _ (by decide)⟩
  | null => exact ⟨[], hl₁.call rfl rfl, .failed _ (by decide)⟩
  | ok page =>
  have hl₂ : Leads h (.folio page.folio :: R) [] (_ ++ [⟨.followPage mm vma vaddr, .ok page⟩]) :=
    hl₁.call rfl rfl
  have hunlocked : Resource.folioLock page.folio ∉ Resource.folio page.folio :: R := by
    rw [List.mem_cons, not_or]
    exact ⟨Resource.noConfusion, (hfree page.folio).2⟩
  refine meets_seq (meets_splitFolioOf hl₂.held_eq List.mem_cons_self hunlocked) ?_
  rintro code h₁ ⟨fs, hl₃, hout⟩
  have hl₄ := hl₂.trans hl₃
  refine meets_tell.2 ⟨hl₄.allowed ⟨List.mem_cons_self, hunlocked⟩, fun _ ↦ ⟨fs, ?_, ?_⟩⟩
  · exact hl₄.call (List.erase_cons_head _ _) rfl
  · refine hout.mono ?_
    rintro folio ⟨heq, hhuge⟩
    have hsub := hl₃.subset
    refine ⟨vma, page, heq.symm, hvma, ?_, ?_, ?_⟩
    · exact List.mem_append_left _ (hsub (List.mem_append_left _ (mem_concat _ _)))
    · exact List.mem_append_left _ (hsub (mem_concat _ _))
    · rw [heq]
      exact List.mem_append_left _ hhuge

/-- **The whole syscall** gives back all that it takes. -/
theorem meets_sysSplitThp (hR : held h = []) :
    (sysSplitThp pid vaddr).Meets Allowed (fun code h' ↦ ∃ fs, Leads h [] fs h' ∧
      Outcome (Mapped pid (pageOf vaddr) h') code fs) E h := by
  have hl := leads_refl hR
  refine meets_ask.2 ⟨hl.allowed trivial, fun task ↦ ?_⟩
  cases task with
  | none => exact ⟨[], hl.call rfl rfl, .failed _ (by decide)⟩
  | some task =>
  have hl₁ : Leads h [.task task] [] (h ++ [⟨.findGetTaskByVpid pid, some task⟩]) := hl.call rfl rfl
  refine meets_ask.2 ⟨hl₁.allowed List.mem_cons_self, fun mm ↦ ?_⟩
  cases mm with
  | err e =>
    have hl₂ : Leads h [.task task] [] (_ ++ [⟨.mmAccess task, .err e⟩]) := hl₁.call rfl rfl
    refine meets_tell.2 ⟨hl₂.allowed List.mem_cons_self, fun _ ↦ ⟨[], ?_, .failed _ ?_⟩⟩
    · exact hl₂.call (List.erase_cons_head _ _) rfl
    · have hpos := e.2.1
      split_ifs
      · decide
      · omega
  | null =>
    have hl₂ : Leads h [.task task] [] (_ ++ [⟨.mmAccess task, .null⟩]) := hl₁.call rfl rfl
    refine meets_tell.2 ⟨hl₂.allowed List.mem_cons_self, fun _ ↦ ⟨[], ?_, .failed _ (by decide)⟩⟩
    exact hl₂.call (List.erase_cons_head _ _) rfl
  | ok mm =>
  have hl₂ : Leads h [.mm mm, .task task] [] (_ ++ [⟨.mmAccess task, .ok mm⟩]) := hl₁.call rfl rfl
  refine meets_tell.2 ⟨hl₂.allowed (List.mem_cons_of_mem _ List.mem_cons_self), fun _ ↦ ?_⟩
  have hl₃ : Leads h [.mm mm] [] (_ ++ [⟨.putTaskStruct task, ()⟩]) := hl₂.call (by simp [hold]) rfl
  refine meets_tell.2 ⟨hl₃.allowed ⟨List.mem_cons_self, by simp⟩, fun _ ↦ ?_⟩
  have hl₄ : Leads h [.mmapLock mm, .mm mm] [] (_ ++ [⟨.mmapReadLock mm, ()⟩]) := hl₃.call rfl rfl
  refine meets_seq (meets_splitThpVaddrLocked hl₄.held_eq List.mem_cons_self (by simp)) ?_
  rintro code h₁ ⟨fs, hl₅, hout⟩
  have hl₆ := hl₄.trans hl₅
  refine meets_tell.2 ⟨hl₆.allowed List.mem_cons_self, fun _ ↦ ?_⟩
  have hl₇ : Leads h [.mm mm] fs (_ ++ [⟨.mmapReadUnlock mm, ()⟩]) :=
    hl₆.call (List.erase_cons_head _ _) rfl
  refine meets_tell.2 ⟨hl₇.allowed ⟨List.mem_cons_self, by simp⟩, fun _ ↦ ⟨fs, ?_, ?_⟩⟩
  · exact hl₇.call (List.erase_cons_head _ _) rfl
  · refine hout.mono fun folio hmapped ↦ ⟨task, mm, ?_, ?_, ?_⟩
    · exact List.mem_append_left _ (List.mem_append_left _ (hl₅.subset (by simp)))
    · exact List.mem_append_left _ (List.mem_append_left _ (hl₅.subset (by simp)))
    · exact hmapped.mono fun _ he ↦ List.mem_append_left _ (List.mem_append_left _ he)

end Paths

/-! ### The syscall -/

/-- A call of the syscall, with what has happened in it. -/
def invoke (env : Env Cmd Ans) (pid : BitVec 32) (vaddr : BitVec 64) : Log × Except Empty ℤ :=
  (sysSplitThp pid vaddr).run env []

/-- What a call leaves behind. -/
theorem exists_leads_invoke (env : Env Cmd Ans) (pid : BitVec 32) (vaddr : BitVec 64) :
    Safe Allowed (invoke env pid vaddr).1 ∧ ∃ code fs, (invoke env pid vaddr).2 = .ok code ∧
      Leads [] [] fs (invoke env pid vaddr).1 ∧
        Outcome (Mapped pid (pageOf vaddr) (invoke env pid vaddr).1) code fs := by
  have hmeets : (sysSplitThp pid vaddr).Meets Allowed _ (fun _ _ ↦ True) [] :=
    meets_sysSplitThp rfl
  obtain ⟨hsafe, hret, -⟩ := hmeets.run safe_nil env
  cases hcode : (invoke env pid vaddr).2 with
  | error e => exact e.elim
  | ok code =>
    obtain ⟨fs, hl, hout⟩ := hret code hcode
    exact ⟨hsafe, code, fs, rfl, hl, hout⟩

/-- **The syscall takes nothing with it**: whatever the kernel answers, each function is called with
the references and locks that it needs, none is held in the end, and the syscall returns 0 exactly
where it has split a folio, a transparent huge page that is mapped at the page of the address. -/
theorem sysSplitThp_spec (env : Env Cmd Ans) (pid : BitVec 32) (vaddr : BitVec 64) :
    Safe Allowed (invoke env pid vaddr).1 ∧ held (invoke env pid vaddr).1 = [] ∧
      ∃ code, (invoke env pid vaddr).2 = .ok code ∧
        Outcome (Mapped pid (pageOf vaddr) (invoke env pid vaddr).1) code
          (splits (invoke env pid vaddr).1) := by
  obtain ⟨hsafe, code, fs, hcode, hl, hout⟩ := exists_leads_invoke env pid vaddr
  have hfs : splits (invoke env pid vaddr).1 = fs := hl.splits_eq
  rw [← hfs] at hout
  exact ⟨hsafe, hl.held_eq, code, hcode, hout⟩

end SplitThp
