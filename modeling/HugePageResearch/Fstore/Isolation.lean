import HugePageResearch.Fstore.Store

/-!
# Names and buckets in the feature store

An entry of the store holds no name: every lookup takes what the bucket of the name holds.

## The result

`isolated_iff`: in every store that is reached a lookup is confined to the map that is registered
under its own name exactly where no other name of the bucket is registered. Registering always is:
the only count it changes is that of the map it has put under the name.
-/

namespace Fstore

variable {k : Kernel} {s : Store} {n : U64} {m : MapId}

/-- **A call is confined to its name**: what it reads, takes out or counts up or down is registered
under exactly its name, before or after it; and where nothing is, it says that it found nothing. -/
structure Isolated (k : Kernel) (s : Store) (c : Call) : Prop where
  own : ∀ m, m ∈ (call k s c).2.touched ∨ (call k s c).2.refs m ≠ s.refs m →
    s.Holds c.name m ∨ (call k s c).2.Holds c.name m
  notFound : ¬ s.Registered c.name → ∀ nf, c.notFound = some nf → (call k s c).1 = nf

/-- **What a call does to maps**, it does to the one that its walk meets. -/
theorem Met.effect {c : Call} {r : Reply × Store} (h : Met k s n m c r) : ∃ (p : MapPtr) (d : ℤ),
    (p = none ∨ p = some m) ∧ r.2.touched = p.toList ++ s.touched ∧
      ∀ x, r.2.refs x = s.refs x + if x = m then d else 0 := by
  cases h with
  | unregister => exact ⟨some m, -1, .inr rfl, rfl, fun _ ↦ rfl⟩
  | get _ _ _ _ _ _ p hp => exact ⟨p, 0, hp, rfl, fun _ ↦ by rw [ite_self, add_zero]; rfl⟩
  | getMapArrayStart => exact ⟨some m, 1, .inr rfl, rfl, fun _ ↦ rfl⟩
  | getValueSize => exact ⟨some m, 0, .inr rfl, rfl, fun _ ↦ by rw [ite_self, add_zero]; rfl⟩
  | getNumKeys => exact ⟨some m, 0, .inr rfl, rfl, fun _ ↦ by rw [ite_self, add_zero]; rfl⟩
  | putMapArray => exact ⟨none, -1, .inl rfl, rfl, fun _ ↦ rfl⟩

/-- Other maps are left alone. -/
theorem Met.own {c : Call} {r : Reply × Store} (h : Met k s n m c r) (hs : s.touched = [])
    {x : MapId} (hx : x ∈ r.2.touched ∨ r.2.refs x ≠ s.refs x) : x = m := by
  obtain ⟨p, d, hp, htouched, hrefs⟩ := h.effect
  rw [htouched, hs, List.append_nil, Option.mem_toList, hrefs x] at hx
  by_contra hne
  rw [if_neg hne, add_zero] at hx
  rcases hx with hx | hx
  · rcases hp with rfl | rfl
    · cases hx
    · exact hne (Option.some.inj hx).symm
  · exact hx rfl

/-- A call whose walk meets an entry does not say that it found nothing. -/
theorem Met.reply_ne {c : Call} {r : Reply × Store} {nf : Reply} (h : Met k s n m c r)
    (hc : c.notFound = some nf) : r.1 ≠ nf := by
  cases h with
  | unregister =>
    obtain rfl := Option.some.inj hc
    exact show Reply.code 1 ≠ .code 0 by decide
  | get _ _ _ _ _ r _ _ hr =>
    obtain rfl := Option.some.inj hc
    rcases hr with rfl | rfl
    · exact show Reply.code (-einval) ≠ .code (-enokey) by decide
    · exact Reply.noConfusion
  | getMapArrayStart _ _ _ _ r hr =>
    obtain rfl := Option.some.inj hc
    rcases hr with ⟨-, rfl⟩ | ⟨-, rfl | rfl⟩
    · exact Reply.noConfusion
    · exact show Reply.code (-einval) ≠ .code (-enoent) by decide
    · exact show Reply.code (-eacces) ≠ .code (-enoent) by decide
  | getValueSize =>
    obtain rfl := Option.some.inj hc
    exact Reply.noConfusion
  | getNumKeys =>
    obtain rfl := Option.some.inj hc
    exact Reply.noConfusion
  | putMapArray =>
    obtain rfl := Option.some.inj hc
    exact show Reply.code 1 ≠ .code 0 by decide

/-- Registering is confined to its name. -/
theorem isolated_register (h : Sound k s) (fd : MapPtr) (kmalloc : Bool) (n : U64) :
    Isolated k s (.register fd kmalloc n) := by
  refine ⟨fun x hx ↦ .inr ?_, fun _ _ hc ↦ absurd hc (by simp [Call.notFound])⟩
  rcases fstoreRegister_cases h.fresh fd kmalloc n with ⟨c, -, he⟩ | ⟨m, -, -, he⟩
  · have hcall : call k s (.register fd kmalloc n) = (.code c, s.fresh) := he
    rw [hcall] at hx
    exact hx.elim (fun hx ↦ absurd hx List.not_mem_nil) fun hx ↦ absurd rfl hx
  · have hcall : call k s (.register fd kmalloc n) =
        (.code 0, ((s.fresh.count 1).adjust m 1).hashAdd ⟨n, some m⟩) := he
    rw [hcall] at hx ⊢
    rcases hx with hx | hx
    · exact absurd hx List.not_mem_nil
    · obtain rfl : x = m := by
        by_contra hne
        exact hx (show s.refs x + (if x = m then 1 else 0) = s.refs x by rw [if_neg hne, add_zero])
      exact List.mem_cons_self

/-- A lookup is confined to its name where no other name of the bucket is registered. -/
theorem Alone.isolated (h : Sound k s) {c : Call} {nf : Reply} (hc : c.notFound = some nf)
    (halone : Alone k s c.name) : Isolated k s c := by
  rcases Store.walk_cases h.fresh c.name with hw | ⟨n, m, hitem, hb, hw⟩
  · have hcall := call_of_empty hc hw
    refine ⟨fun x hx ↦ ?_, fun _ nf' hnf ↦ ?_⟩
    · rw [hcall] at hx
      exact hx.elim (fun hx ↦ absurd hx List.not_mem_nil) fun hx ↦ absurd rfl hx
    · rw [hcall]
      exact Option.some.inj (hc.symm.trans hnf)
  · obtain rfl : n = c.name := halone _ hitem hb
    refine ⟨fun x hx ↦ .inl ?_, fun hn ↦ absurd ⟨_, hitem, rfl⟩ hn⟩
    rw [(call_of_entry hc hw).own rfl hx]
    exact hitem

/-- A lookup that is confined to its name meets no entry of another name. -/
theorem Isolated.alone (h : Sound k s) {c : Call} {nf : Reply} (hc : c.notFound = some nf)
    (hiso : Isolated k s c) : Alone k s c.name := by
  refine fun item hitem hb ↦ by_contra fun hne ↦ ?_
  obtain ⟨n, p⟩ := item
  obtain ⟨m, rfl : p = some m⟩ := h.ok _ hitem
  -- the entry of the other name is all that the bucket holds
  have hn : ¬ s.Registered c.name := by
    rintro ⟨item', hitem', hname⟩
    have hbucket : k.bucketOf item' = k.bucketOf ⟨n, some m⟩ :=
      (congrArg k.bucket hname).trans hb.symm
    obtain rfl := h.one.eq_of_bucket_eq hitem' hitem hbucket
    exact hne hname
  have hmet := call_of_entry hc (Store.Holds.walk_eq h.fresh hitem hb)
  exact hmet.reply_ne hc (hiso.notFound hn nf hc)

/-- **When a call is confined to its name**, in every store that is reached: if and only if it is a
register or no other name of its bucket is registered. -/
theorem isolated_iff {refs : MapId → ℤ} {es : List Event} {w : World}
    (h : Run.exec (step k) (start refs) es = some w) (c : Call) :
    Isolated k w.store c ↔ c.notFound = none ∨ Alone k w.store c.name := by
  have hs : Sound k w.store := sound h
  rcases hc : c.notFound with _ | nf
  · refine iff_of_true ?_ (.inl rfl)
    cases c with
    | register fd kmalloc n => exact isolated_register hs fd kmalloc n
    | _ => cases hc
  · exact ⟨fun hiso ↦ .inr (hiso.alone hs hc),
      fun hor ↦ (hor.resolve_left (Option.some_ne_none nf)).isolated hs hc⟩

/-- A map under the name 144, which is of one bucket with 0 and of another than 1. -/
def registered144 : List Event := [.call (.register (some 7) true 144)]

theorem isolated_get_one : ∃ w, Run.exec (step linux) (start fun _ ↦ 0) registered144 = some w ∧
    Isolated linux w.store (.get 1 false false 4 8) := by
  obtain ⟨w, hw⟩ : ∃ w, Run.exec (step linux) (start fun _ ↦ 0) registered144 = some w := ⟨_, rfl⟩
  have htable : w.store.fstoreMap = [⟨144, some 7⟩] := by
    obtain rfl := Option.some.inj hw
    decide +kernel
  refine ⟨w, hw, (isolated_iff hw _).2 (.inr ?_)⟩
  rw [Alone, htable]
  decide +kernel

/-- Looking up 0 reads the map of 144. -/
theorem not_isolated_get_zero : ∃ w,
    Run.exec (step linux) (start fun _ ↦ 0) registered144 = some w ∧
      ¬ Isolated linux w.store (.get 0 false false 4 8) := by
  refine ⟨_, rfl, fun h ↦ ?_⟩
  have hnone : ¬ Store.Registered (call linux (start fun _ ↦ 0).store
      (.register (some 7) true 144)).2 0 := by
    rintro ⟨item, hitem, hname⟩
    obtain rfl : item = ⟨144, some 7⟩ := List.mem_singleton.1 hitem
    exact absurd hname (by decide)
  have hread : (call linux (call linux (start fun _ ↦ 0).store (.register (some 7) true 144)).2
      (.get 0 false false 4 8)).1 = .copied 7 := by decide +kernel
  exact Reply.noConfusion (hread.symm.trans (h.notFound hnone _ rfl))

end Fstore
