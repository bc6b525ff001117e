import HugePageResearch.Pages.PageAccess

/-!
# The heads of compound pages

`_normalize_tracking_pfn` of `data_collection/page_access.py`: from a frame that is flagged as a
tail it walks back, over tails, to a head. The flags are those of a table of entries, beyond whose
end a read comes short.

## The result

`tracks_and_normalizes`: over any flags the walk ends, at the nearest head that is reached through
tails only or, where there is none, with the frame itself. Over a table of compound pages that is
the head of the compound page, so that the frames with the same tracking PFN are those of one
compound page, and a tracking PFN is its own.
-/

namespace Pages

/-! ### Tables -/

section Tables

variable (entries : List ℕ)

/-- The frame is flagged as a head. -/
def IsHead (p : ℕ) : Prop := flagIsSet (entries.getD p 0) kpfCompoundHead = true

/-- The frame is flagged as a tail. -/
def IsTail (p : ℕ) : Prop := flagIsSet (entries.getD p 0) kpfCompoundTail = true

instance : DecidablePred (IsHead entries) := fun _ ↦ inferInstanceAs (Decidable (_ = true))

instance : DecidablePred (IsTail entries) := fun _ ↦ inferInstanceAs (Decidable (_ = true))

/-- **The frame belongs to the compound page of a head**: the head, and the tails right behind. -/
structure Belongs (h p : ℕ) : Prop where
  head : IsHead entries h
  le : h ≤ p
  tails : ∀ q, h < q → q ≤ p → IsTail entries q

/-- **A table of compound pages**: no frame is flagged as both, and every tail belongs to the
compound page of a head. -/
structure WellFormed : Prop where
  not_tail : ∀ p, IsHead entries p → ¬ IsTail entries p
  belongs : ∀ p, IsTail entries p → ∃ h, Belongs entries h p

/-- The files below `/proc` of a system with this table. -/
def tableFiles (isDir : ℤ → Bool) (pagemap : ℤ → ℕ → Except PageError (Option ℕ)) : ProcFiles where
  isDir
  pagemap
  kpageflags offset := .ok entries[offset / kpageflagsEntryBytes]?

/-- **What the walk finds**: the nearest head that is reached through tails only, or the frame. -/
inductive Tracks (p : ℕ) : ℕ → Prop
  | head {h : ℕ} (hlt : h < p) (hbelongs : Belongs entries h p)
      (hnearest : ∀ q, h < q → q < p → ¬ IsHead entries q) : Tracks p h
  | self (hnone : ∀ h < p, ¬ Belongs entries h p) : Tracks p p

end Tables

variable {entries : List ℕ} {isDir : ℤ → Bool}
  {pagemap : ℤ → ℕ → Except PageError (Option ℕ)} {h p q r c mappedPfn : ℕ}

theorem readKpageflags_tableFiles (hp : p < entries.length) :
    readKpageflags (tableFiles entries isDir pagemap) p = .ok (entries.getD p 0) := by
  have hdiv : p * kpageflagsEntryBytes / kpageflagsEntryBytes = p :=
    Nat.mul_div_cancel p (by decide)
  rw [readKpageflags, tableFiles]
  simp only [hdiv, List.getElem?_eq_getElem hp, List.getD_eq_getElem _ _ hp]

/-! ### The walk -/

/-- **The walk over the frames below `c`**: it comes to the nearest head behind tails only, or
returns the frame that it began with. -/
theorem walkBack_tableFiles (hc : c ≤ entries.length) :
    (∃ h, h < c ∧ IsHead entries h ∧
        (∀ q, h < q → q < c → IsTail entries q ∧ ¬ IsHead entries q) ∧
        walkBack (tableFiles entries isDir pagemap) mappedPfn c = .ok h) ∨
      (∀ h < c, IsHead entries h → ∃ q, h < q ∧ q < c ∧ ¬ IsTail entries q) ∧
        walkBack (tableFiles entries isDir pagemap) mappedPfn c = .ok mappedPfn := by
  induction c with
  | zero => exact .inr ⟨fun h hlt ↦ absurd hlt (Nat.not_lt_zero h), rfl⟩
  | succ c ih =>
    have hstep : walkBack (tableFiles entries isDir pagemap) mappedPfn (c + 1) =
        if IsHead entries c then .ok c
        else if IsTail entries c then walkBack (tableFiles entries isDir pagemap) mappedPfn c
        else .ok mappedPfn := by
      rw [walkBack, readKpageflags_tableFiles (by omega)]
      rfl
    rw [hstep]
    split_ifs with hhead htail
    · exact .inl ⟨c, Nat.lt_succ_self c, hhead, fun q hq hqc ↦ by omega, rfl⟩
    · obtain ⟨h, hlt, hh, hbetween, hwalk⟩ | ⟨hnone, hwalk⟩ := ih (by omega)
      · refine .inl ⟨h, by omega, hh, fun q hq hqc ↦ ?_, hwalk⟩
        obtain hqc | rfl := Nat.lt_succ_iff_lt_or_eq.1 hqc
        · exact hbetween q hq hqc
        · exact ⟨htail, hhead⟩
      · refine .inr ⟨fun h hlt hh ↦ ?_, hwalk⟩
        obtain hlt | rfl := Nat.lt_succ_iff_lt_or_eq.1 hlt
        · obtain ⟨q, hq, hqc, hqt⟩ := hnone h hlt hh
          exact ⟨q, hq, by omega, hqt⟩
        · exact absurd hh hhead
    · refine .inr ⟨fun h hlt hh ↦ ?_, rfl⟩
      obtain hlt | rfl := Nat.lt_succ_iff_lt_or_eq.1 hlt
      · exact ⟨c, hlt, Nat.lt_succ_self c, htail⟩
      · exact absurd hh hhead

/-- **Over any flags it ends**, with a frame that `Tracks` describes. -/
theorem exists_tracks (hp : p < entries.length) : ∃ r,
    normalizeTrackingPfn (tableFiles entries isDir pagemap) p = .ok r ∧ Tracks entries p r := by
  have hstep : normalizeTrackingPfn (tableFiles entries isDir pagemap) p =
      if IsTail entries p then walkBack (tableFiles entries isDir pagemap) p p else .ok p := by
    rw [normalizeTrackingPfn, readKpageflags_tableFiles hp]
    rfl
  rw [hstep]
  split_ifs with htail
  · obtain ⟨h, hlt, hh, hbetween, hwalk⟩ | ⟨hnone, hwalk⟩ :=
      @walkBack_tableFiles entries isDir pagemap p p (Nat.le_of_lt hp)
    · refine ⟨h, hwalk, .head hlt ⟨hh, Nat.le_of_lt hlt, fun q hq hqp ↦ ?_⟩
        fun q hq hqp ↦ (hbetween q hq hqp).2⟩
      obtain hqp | rfl := Nat.lt_or_eq_of_le hqp
      · exact (hbetween q hq hqp).1
      · exact htail
    · refine ⟨p, hwalk, .self fun h hlt hbelongs ↦ ?_⟩
      obtain ⟨q, hq, hqp, hqt⟩ := hnone h hlt hbelongs.head
      exact hqt (hbelongs.tails q hq (Nat.le_of_lt hqp))
  · exact ⟨p, rfl, .self fun h hlt hbelongs ↦ htail (hbelongs.tails p hlt (Nat.le_refl p))⟩

/-! ### Compound pages -/

/-- A head belongs to its own compound page. -/
theorem IsHead.belongs (hh : IsHead entries h) : Belongs entries h h :=
  ⟨hh, Nat.le_refl h, fun _ hq hqh ↦ absurd hq (Nat.not_lt.2 hqh)⟩

namespace WellFormed

variable (hwf : WellFormed entries)
include hwf

/-- A head is in no other compound page. -/
theorem le_of_isHead (hq : IsHead entries q) (hp : Belongs entries h p) (hqp : q ≤ p) : q ≤ h := by
  by_contra hlt
  exact hwf.not_tail q hq (hp.tails q (Nat.lt_of_not_le hlt) hqp)

/-- **A frame belongs to one compound page at most.** -/
theorem unique (hh : Belongs entries h p) (hq : Belongs entries q p) : h = q :=
  Nat.le_antisymm (hwf.le_of_isHead hh.head hq hh.le) (hwf.le_of_isHead hq.head hh hq.le)

/-- The walk finds the head of the compound page. -/
theorem eq_of_belongs (hr : Tracks entries p r) (hh : Belongs entries h p) : r = h := by
  cases hr with
  | head _ hbelongs _ => exact hwf.unique hbelongs hh
  | self hnone =>
    obtain hlt | rfl := Nat.lt_or_eq_of_le hh.le
    · exact absurd hh (hnone h hlt)
    · rfl

end WellFormed

/-- Outside the compound pages the walk finds the frame. -/
theorem eq_of_not_belongs (hr : Tracks entries p r) (hnone : ∀ h, ¬ Belongs entries h p) :
    r = p := by
  cases hr with
  | head _ hbelongs _ => exact absurd hbelongs (hnone _)
  | self _ => rfl

theorem Tracks.le (hr : Tracks entries p r) : r ≤ p := by
  cases hr with
  | head hlt _ _ => exact Nat.le_of_lt hlt
  | self _ => exact Nat.le_refl p

/-- **Two frames are tracked alike** exactly if they are the same or of one compound page. -/
theorem WellFormed.eq_iff (hwf : WellFormed entries) {s : ℕ} (hr : Tracks entries p r)
    (hs : Tracks entries q s) :
    r = s ↔ p = q ∨ ∃ h, Belongs entries h p ∧ Belongs entries h q := by
  by_cases hp : ∃ h, Belongs entries h p
  · obtain ⟨h, hp⟩ := hp
    rw [hwf.eq_of_belongs hr hp]
    by_cases hq : ∃ h, Belongs entries h q
    · obtain ⟨h', hq⟩ := hq
      rw [hwf.eq_of_belongs hs hq]
      constructor
      · rintro rfl
        exact .inr ⟨h, hp, hq⟩
      · rintro (rfl | ⟨h'', hp', hq'⟩)
        · exact hwf.unique hp hq
        · exact (hwf.unique hp hp').trans (hwf.unique hq' hq)
    · rw [eq_of_not_belongs hs fun h' hq' ↦ hq ⟨h', hq'⟩]
      constructor
      · rintro rfl
        exact absurd ⟨h, hp.head.belongs⟩ hq
      · rintro (rfl | ⟨h', -, hq'⟩)
        · exact absurd ⟨h, hp⟩ hq
        · exact absurd ⟨h', hq'⟩ hq
  · rw [eq_of_not_belongs hr fun h hp' ↦ hp ⟨h, hp'⟩]
    constructor
    · rintro rfl
      by_cases hq : ∃ h, Belongs entries h q
      · obtain ⟨h, hq⟩ := hq
        obtain rfl := hwf.eq_of_belongs hs hq
        exact absurd ⟨_, hq.head.belongs⟩ hp
      · exact .inl (eq_of_not_belongs hs fun h hq' ↦ hq ⟨h, hq'⟩)
    · rintro (rfl | ⟨h, hp', -⟩)
      · exact (eq_of_not_belongs hs fun h hp' ↦ hp ⟨h, hp'⟩).symm
      · exact absurd ⟨h, hp'⟩ hp

/-- **What is tracked is tracked as itself.** -/
theorem WellFormed.tracks_self (hwf : WellFormed entries) {s : ℕ} (hr : Tracks entries p r)
    (hs : Tracks entries r s) : s = r := by
  refine (hwf.eq_iff hs hr).2 ?_
  by_cases hp : ∃ h, Belongs entries h p
  · obtain ⟨h, hp⟩ := hp
    obtain rfl := hwf.eq_of_belongs hr hp
    exact .inr ⟨_, hp.head.belongs, hp⟩
  · exact .inl (eq_of_not_belongs hr fun h hp' ↦ hp ⟨h, hp'⟩)

/-- **`_normalize_tracking_pfn` ends over any flags**, with the frame itself unless a head is
reached through tails only. Over a table of compound pages it returns the head of the compound page,
two frames get the same tracking PFN if they are of one compound page, and a tracking PFN is its
own. -/
theorem tracks_and_normalizes (entries : List ℕ) (isDir : ℤ → Bool)
    (pagemap : ℤ → ℕ → Except PageError (Option ℕ)) :
    (∀ p < entries.length, ∃ r,
      normalizeTrackingPfn (tableFiles entries isDir pagemap) p = .ok r ∧ Tracks entries p r) ∧
    (WellFormed entries → ∀ p < entries.length,
      (∀ h, Belongs entries h p →
        normalizeTrackingPfn (tableFiles entries isDir pagemap) p = .ok h) ∧
      ((∀ h, ¬ Belongs entries h p) →
        normalizeTrackingPfn (tableFiles entries isDir pagemap) p = .ok p) ∧
      (∀ q < entries.length,
        (normalizeTrackingPfn (tableFiles entries isDir pagemap) p =
            normalizeTrackingPfn (tableFiles entries isDir pagemap) q ↔
          p = q ∨ ∃ h, Belongs entries h p ∧ Belongs entries h q)) ∧
      ∀ r, normalizeTrackingPfn (tableFiles entries isDir pagemap) p = .ok r →
        normalizeTrackingPfn (tableFiles entries isDir pagemap) r = .ok r) := by
  refine ⟨fun p hp ↦ exists_tracks hp, fun hwf p hp ↦ ?_⟩
  obtain ⟨r, hpr, hr⟩ := @exists_tracks entries isDir pagemap p hp
  rw [hpr]
  refine ⟨fun h hh ↦ ?_, fun hnone ↦ ?_, fun q hq ↦ ?_, fun r' hr' ↦ ?_⟩
  · rw [hwf.eq_of_belongs hr hh]
  · rw [eq_of_not_belongs hr hnone]
  · obtain ⟨s, hqs, hs⟩ := @exists_tracks entries isDir pagemap q hq
    rw [hqs, Except.ok.injEq]
    exact hwf.eq_iff hr hs
  · obtain rfl := Except.ok.inj hr'
    obtain ⟨s, hrs, hs⟩ := @exists_tracks entries isDir pagemap r (Nat.lt_of_le_of_lt hr.le hp)
    rw [hrs, hwf.tracks_self hr hs]

/-- A head and a tail. -/
theorem tracks_and_normalizes_pair :
    normalizeTrackingPfn (tableFiles [32768, 65536] (fun _ ↦ true) fun _ _ ↦ .ok none) 1 =
      .ok 0 := by
  have hone : Belongs [32768, 65536] 0 1 := ⟨by decide, by decide, fun q hq hq' ↦ by
    obtain rfl : q = 1 := by omega
    decide⟩
  refine ((tracks_and_normalizes _ _ _).2 ⟨fun p ↦ ?_, fun p hp ↦ ?_⟩ 1 (by decide)).1 0 hone
  · rcases p with - | - | p
    · decide
    · decide
    · exact fun hhead ↦ absurd hhead (by simp [IsHead, flagIsSet])
  · rcases p with - | - | p
    · exact absurd hp (by decide)
    · exact ⟨0, hone⟩
    · exact absurd hp (by simp [IsTail, flagIsSet])

end Pages
