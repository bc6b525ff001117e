import HugePageResearch.Fstore.Store

/-!
# What the feature store counts

The counter of the maps, the entries and the references that they keep.

## The results

* `accounts`: over any run of the calls that do not expose an array, the counter is the number of
  entries, no bucket holds two of them, the references on a map are those of others and one for each
  entry that holds it, a register that fails changes nothing, and unloading leaves nothing.
* `register_contract_iff`: a register answers as the set of registered names says exactly where the
  store holds fewer than `FSTORE_SIZE - 1` maps and no other name of its bucket is registered. The
  counter is compared after it was raised, and the name with what its bucket holds.

Both rest on what a call comes to (`call_outcome`); the references are counted beyond those that the
entries keep (`Store.spare`).
-/

namespace Fstore

variable {k : Kernel} {s : Store} {n : U64} {m : MapId}

/-! ### References -/

/-- The calls that leave no reference with the caller. -/
def Call.Balanced : Call → Prop
  | .getMapArrayStart .. | .putMapArray _ => False
  | _ => True

/-- **A call that leaves no reference with the caller** changes the references by those of the
entries. -/
theorem Outcome.spare {c : Call} {r : Reply × Store} (ho : Outcome k s c r) (hc : c.Balanced)
    (x : MapId) : r.2.spare x = s.spare x := by
  cases ho with
  | refused => rfl
  | added => exact Store.spare_add x
  | nothing => rfl
  | met _ _ _ n m hitem hb r hr =>
    cases hr with
    | unregister => exact Store.spare_delete hitem x
    | getMapArrayStart => exact hc.elim
    | putMapArray => exact hc.elim
    | _ => rfl

/-- The events of a run in which no array is exposed. -/
def Event.Balanced : Event → Prop
  | .call c => c.Balanced
  | .put .. => False
  | .outside .. => True

/-- What the references on the maps come to. -/
def Accounted (w : World) : Prop := ∀ m, w.store.refs m = w.outside m + w.store.holders m

theorem accounted_step {w w' : World} {e : Event} (h : Sound k w.store ∧ Accounted w)
    (he : e.Balanced) (hs : step k w e = some w') : Sound k w'.store ∧ Accounted w' := by
  refine ⟨sound_step h.1 hs, fun x ↦ ?_⟩
  have hx := h.2 x
  cases e with
  | call c =>
    obtain rfl := Option.some.inj hs
    have hspare : (call k w.store c).2.spare x = w.store.spare x :=
      (call_outcome h.1 c).spare he x
    rw [Store.spare, Store.spare] at hspare
    show (call k w.store c).2.refs x = w.outside x + (call k w.store c).2.holders x
    omega
  | put => exact he.elim
  | outside m d =>
    obtain rfl := Option.some.inj hs
    show w.store.refs x + (if x = m then d else 0) = w.outside x + (if x = m then d else 0) +
      w.store.holders x
    rw [hx]
    ring

/-! ### Unloading -/

/-- **Deleting every entry** leaves none, and only the references of others. -/
theorem foldl_fstoreDelete {l : List HashNode} (hl : s.fstoreMap = l) (h : Sound k s) :
    (l.foldl fstoreDelete s).fstoreMap = [] ∧ (l.foldl fstoreDelete s).numberMaps = 0 ∧
      ∀ x, (l.foldl fstoreDelete s).refs x = s.spare x := by
  induction l generalizing s with
  | nil =>
    refine ⟨hl, by rw [List.foldl_nil, h.number, hl]; rfl, fun x ↦ ?_⟩
    rw [List.foldl_nil, Store.spare, Store.holders, hl, List.countP_nil, Nat.cast_zero, sub_zero]
  | cons item l ih =>
    have hmem : item ∈ s.fstoreMap := hl ▸ List.mem_cons_self
    obtain ⟨n, p⟩ := item
    obtain ⟨m, rfl : p = some m⟩ := h.ok _ hmem
    have hrest : (fstoreDelete s ⟨n, some m⟩).fstoreMap = l := by
      show s.fstoreMap.erase ⟨n, some m⟩ = l
      rw [hl, List.erase_cons_head]
    obtain ⟨ht, hn, hr⟩ := ih hrest (h.delete hmem)
    refine ⟨ht, hn, fun x ↦ ?_⟩
    rw [List.foldl_cons, hr, Store.spare_delete hmem]

/-- **What the store counts**, over any run of calls that do not expose an array: the counter is the
number of entries and below the size; no bucket holds two entries; the references on a map are those
of others and one for each entry that holds it; a register that fails changes neither the table, nor
the counter, nor a reference; and unloading leaves no entry and only the references of others. -/
theorem accounts {refs : MapId → ℤ} {es : List Event} {w : World} (hes : ∀ e ∈ es, e.Balanced)
    (h : Run.exec (step k) (start refs) es = some w) :
    w.store.numberMaps = w.store.fstoreMap.length ∧ 0 ≤ w.store.numberMaps ∧
    w.store.numberMaps ≤ fstoreSize - 1 ∧
    (∀ b, (Chains.chain k.bucketOf b w.store.fstoreMap).length ≤ 1) ∧
    (∀ m, w.store.refs m = w.outside m + w.store.holders m) ∧
    (∀ fd kmalloc n c, (call k w.store (.register fd kmalloc n)).1 = .code c → c ≠ 0 →
      let s := (call k w.store (.register fd kmalloc n)).2
      s.fstoreMap = w.store.fstoreMap ∧ s.numberMaps = w.store.numberMaps ∧
        s.refs = w.store.refs) ∧
    ((cleanupModule w.store).fstoreMap = [] ∧ (cleanupModule w.store).numberMaps = 0 ∧
      (cleanupModule w.store).refs = w.outside) := by
  obtain ⟨hs, hacc⟩ : Sound k w.store ∧ Accounted w :=
    Run.exec_invariant_of_always (I := fun w ↦ Sound k w.store ∧ Accounted w)
      (fun _ _ _ ↦ accounted_step)
      ⟨sound_init refs, fun m ↦ (add_zero _).symm⟩ (Run.always_of_forall hes) h
  obtain ⟨htable, hnumber, hrefs⟩ := foldl_fstoreDelete rfl hs
  refine ⟨hs.number, ?_, ?_, fun b ↦ ?_, hacc, fun fd kmalloc n c hc hne ↦ ?_, htable, hnumber,
    funext fun x ↦ ?_⟩
  · rw [hs.number]
    exact Int.natCast_nonneg _
  · rw [hs.number]
    exact Int.le_sub_one_of_lt (Int.ofNat_lt.2 hs.lt)
  · rcases hs.one.chain_cases b with hb | ⟨item, -, -, hb⟩ <;> simp [hb]
  · rcases fstoreRegister_cases hs.fresh fd kmalloc n with ⟨c', -, he⟩ | ⟨m, -, -, he⟩
    · have hcall : call k w.store (.register fd kmalloc n) = (.code c', w.store.fresh) := he
      rw [hcall]
      exact ⟨rfl, rfl, rfl⟩
    · have hcode : (call k w.store (.register fd kmalloc n)).1 = .code 0 := congrArg Prod.fst he
      exact absurd (Reply.code.inj (hc.symm.trans hcode)) hne
  · rw [cleanupModule, hrefs, Store.spare, hacc x]
    ring

/-- A map that its opener holds is registered and read; a second name of its bucket is refused. -/
def registerRead : List Event :=
  [.outside 7 1, .call (.register (some 7) true 144), .call (.get 144 false false 4 8),
    .call (.register (some 7) true 0)]

theorem accounts_registerRead : ∃ w, Run.exec (step linux) (start fun _ ↦ 0) registerRead = some w ∧
    w.store.numberMaps = 1 ∧ w.store.fstoreMap.length = 1 ∧ w.store.refs 7 = 2 ∧
    w.store.refs 7 = w.outside 7 + w.store.holders 7 ∧
    (cleanupModule w.store).refs = w.outside := by
  have hes : ∀ e ∈ registerRead, e.Balanced := by
    simp [registerRead, Event.Balanced, Call.Balanced]
  obtain ⟨hn, -, -, -, hrefs, -, -, -, hclean⟩ := accounts (k := linux) hes rfl
  exact ⟨_, rfl, by decide +kernel, by decide +kernel, by decide +kernel, hrefs 7, hclean⟩

/-! ### Registering -/

/-- **What a register is expected to answer**, for a descriptor of a map and with memory: it is
refused because the name exists exactly where it does, and for want of space exactly where
`FSTORE_SIZE` maps are registered. -/
def RegisterContract (k : Kernel) (s : Store) (m : MapId) (n : U64) : Prop :=
  let r := (call k s (.register (some m) true n)).1
  (r = .code (-eexist) ↔ s.Registered n) ∧
    (r = .code (-enospc) ↔ s.fstoreMap.length = fstoreSize) ∧
    (¬ s.Registered n → s.fstoreMap.length ≠ fstoreSize → r = .code 0)

/-- **When a register answers as expected**, in every store that is reached: if and only if fewer
than `FSTORE_SIZE - 1` maps are registered, and no other name of its bucket. -/
theorem register_contract_iff {refs : MapId → ℤ} {es : List Event} {w : World}
    (h : Run.exec (step k) (start refs) es = some w) (m : MapId) (n : U64) :
    RegisterContract k w.store m n ↔
      w.store.fstoreMap.length < fstoreSize - 1 ∧ Alone k w.store n := by
  have hs : Sound k w.store := sound h
  have hreply : (call k w.store (.register (some m) true n)).1 =
      if w.store.fstoreMap.length + 1 ≥ fstoreSize then .code (-enospc)
      else if w.store.walk k n ≠ [] then .code (-eexist) else .code 0 := by
    show (fstoreRegister k (some m) true n w.store.fresh).1 = _
    rw [fstoreRegister_eq hs.fresh, apply_ite Prod.fst, apply_ite Prod.fst]
    rfl
  have hlt := hs.lt
  rw [RegisterContract, hreply]
  constructor
  · rintro ⟨hexist, hspace, -⟩
    -- a full answer is given one map too early
    have hroom : ¬ w.store.fstoreMap.length + 1 ≥ fstoreSize := fun hfull ↦
      absurd (hspace.1 (if_pos hfull)) hlt.ne
    rw [if_neg hroom] at hexist
    refine ⟨by omega, fun item hitem hb ↦ ?_⟩
    -- and the name is refused for any entry of its bucket
    have hwalk : w.store.walk k n ≠ [] := fun hnil ↦ Store.walk_eq_nil.1 hnil item hitem hb
    obtain ⟨item', hitem', rfl⟩ := hexist.1 (if_pos hwalk)
    exact congrArg HashNode.name (hs.one.eq_of_bucket_eq hitem hitem' hb)
  · rintro ⟨hroom, halone⟩
    rw [if_neg (by omega), ite_not]
    by_cases hwalk : w.store.walk k n = []
    · have hn := halone.walk_eq_nil.1 hwalk
      rw [if_pos hwalk]
      exact ⟨⟨fun he ↦ absurd he (by decide), fun hr ↦ absurd hr hn⟩,
        ⟨fun he ↦ absurd he (by decide), fun he ↦ absurd he hlt.ne⟩, fun _ _ ↦ rfl⟩
    · have hn := not_not.1 (mt halone.walk_eq_nil.2 hwalk)
      rw [if_neg hwalk]
      exact ⟨⟨fun _ ↦ hn, fun _ ↦ rfl⟩,
        ⟨fun he ↦ absurd he (by decide), fun he ↦ absurd he hlt.ne⟩, fun hr ↦ absurd hn hr⟩

/-- The names 144 and 0 are of one bucket, 144 and 1 are not. -/
theorem registerContract_one : ∃ w,
    Run.exec (step linux) (start fun _ ↦ 0) [.call (.register (some 7) true 144)] = some w ∧
      RegisterContract linux w.store 8 1 := by
  obtain ⟨w, hw⟩ : ∃ w, Run.exec (step linux) (start fun _ ↦ 0)
      [.call (.register (some 7) true 144)] = some w := ⟨_, rfl⟩
  have htable : w.store.fstoreMap = [⟨144, some 7⟩] := by
    obtain rfl := Option.some.inj hw
    decide +kernel
  refine ⟨w, hw, (register_contract_iff hw 8 1).2 ⟨by rw [htable]; decide, ?_⟩⟩
  rw [Alone, htable]
  decide +kernel

/-- The name 0 is refused as existing though only 144 is registered. -/
theorem not_registerContract_zero : ∃ w,
    Run.exec (step linux) (start fun _ ↦ 0) [.call (.register (some 7) true 144)] = some w ∧
      ¬ RegisterContract linux w.store 8 0 := by
  refine ⟨_, rfl, fun h ↦ ?_⟩
  obtain ⟨item, hitem, hname⟩ := h.1.1 (by decide +kernel)
  obtain rfl : item = ⟨144, some 7⟩ := List.mem_singleton.1 hitem
  exact absurd hname (by decide)

end Fstore
