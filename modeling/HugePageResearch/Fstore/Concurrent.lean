import HugePageResearch.Fstore.Store
import Mathlib.Data.List.Count

/-!
# Concurrent calls of the feature store

`fstore_ioctl` runs `fstore_register` and `fstore_unregister` in the process that calls it, and
nothing keeps two of them apart. Here each call is a thread of a transition system in which every
update of the counter, every scan of a bucket, every insertion and every removal is a step.

## The result

`wellKept_iff`: in every state of a run there is at most one entry per name, no entry was removed or
put twice, and the counter is the number of entries whenever no call is in progress, exactly where
the run has no race (`Unraced`): no register inserts its entry beside one of the same name that was
inserted since its scan, and no unregister removes an entry that was removed since its scan.

What every state satisfies, raced or not, is `Inv`; it says what may have happened to what a thread
has seen. What races break is `Tight`.
-/

namespace Fstore

namespace Concurrent

/-- An entry of the table. The time at which it was inserted tells it from every other. -/
structure Entry where
  added : ℕ
  name : U64
  map : MapId
  deriving DecidableEq

/-- What the calls share. The entries that were removed, with the time, and those whose map was put
are there to be spoken about. -/
structure Shared where
  numberMaps : ℤ
  table : List Entry
  removed : List (Entry × ℕ)
  put : List Entry

/-- Where a call stands: what it does next, with its local variables and the time of its scan. -/
inductive Pc where
  /-- `fstore_register` raises the counter. -/
  | register (fd : MapPtr) (kmalloc : Bool) (mapName : U64)
  /-- It counts what the bucket holds. -/
  | check (fd : MapPtr) (kmalloc : Bool) (mapName : U64)
  /-- It gets the map and the memory. -/
  | acquire (fd : MapPtr) (kmalloc : Bool) (mapName : U64) (scanned : ℕ)
  /-- It inserts the entry. -/
  | insert (map : MapId) (mapName : U64) (scanned : ℕ)
  /-- It takes the counter back. -/
  | cleanupCount (err : ℤ)
  /-- `fstore_unregister` walks over the bucket. -/
  | unregister (mapName : U64)
  /-- It removes the next entry that it walked over, after the `i` before it. -/
  | remove (items : List Entry) (i : ℤ) (scanned : ℕ)
  /-- It lowers the counter and puts the map of the entry that it removed. -/
  | finish (item : Entry) (items : List Entry) (i : ℤ) (scanned : ℕ)
  | done (ret : ℤ)

/-- The state of the system: what is shared, the time and the threads. -/
structure Sys where
  shared : Shared
  clock : ℕ
  threads : List Pc

/-- What `fstore_ioctl` is called with: what `copy_from_user` reads for `REGISTER_MAP`, if it can,
or the data of `UNREGISTER_MAP`. -/
inductive Ioctl where
  | registerMap (input : Option (MapPtr × Bool × U64))
  | unregisterMap (data : U64)
  | other

/-- `fstore_ioctl`: where the call begins. -/
def fstoreIoctl : Ioctl → Pc
  | .registerMap none => .done (-einval)
  | .registerMap (some (fd, kmalloc, mapName)) => .register fd kmalloc mapName
  | .unregisterMap data => .unregister data
  | .other => .done 0

variable (k : Kernel)

/-- The entries in the bucket of a name. -/
def Shared.walk (m : Shared) (name : U64) : List Entry :=
  Chains.chain (fun e : Entry ↦ k.bucket e.name) (k.bucket name) m.table

/-- **One step of a call.** -/
def act (now : ℕ) (m : Shared) : Pc → Option (Shared × Pc)
  | .register fd kmalloc n =>
    let m := { m with numberMaps := m.numberMaps + 1 }
    if (m.numberMaps % 2 ^ 64).toNat ≥ fstoreSize then some (m, .cleanupCount (-enospc))
    else some (m, .check fd kmalloc n)
  | .check fd kmalloc n =>
    if (m.walk k n).length ≥ 1 then some (m, .cleanupCount (-eexist))
    else some (m, .acquire fd kmalloc n now)
  | .acquire none _ _ _ => some (m, .cleanupCount (-ebadf))
  | .acquire (some map) kmalloc n scanned =>
    if kmalloc then some (m, .insert map n scanned) else some (m, .cleanupCount (-enomem))
  | .insert map n _ => some ({ m with table := ⟨now, n, map⟩ :: m.table }, .done 0)
  | .cleanupCount err => some ({ m with numberMaps := m.numberMaps - 1 }, .done err)
  | .unregister n => some (m, .remove (m.walk k n) 0 now)
  | .remove [] i _ => some (m, .done i)
  | .remove (item :: items) i scanned =>
    some ({ m with table := m.table.erase item, removed := (item, now) :: m.removed },
      .finish item items i scanned)
  | .finish item items i scanned =>
    some ({ m with numberMaps := m.numberMaps - 1, put := item :: m.put },
      .remove items (i + 1) scanned)
  | .done _ => none

/-- A call comes in, or a thread takes its next step. -/
inductive Event where
  | enter (i : Ioctl)
  | run (t : ℕ)

/-- One event. -/
def step (s : Sys) : Event → Option Sys
  | .enter i => some ⟨s.shared, s.clock + 1, s.threads ++ [fstoreIoctl i]⟩
  | .run t => s.threads[t]?.bind fun pc ↦ (act k s.clock s.shared pc).map fun r ↦
      ⟨r.1, s.clock + 1, s.threads.set t r.2⟩

/-- The module is loaded. -/
def init : Sys := ⟨⟨0, [], [], []⟩, 0, []⟩

/-! ### What is expected -/

/-- The call has returned. -/
def Pc.Done : Pc → Prop
  | .done _ => True
  | _ => False

instance : DecidablePred Pc.Done
  | .done _ => .isTrue trivial
  | .register .. | .check .. | .acquire .. | .insert .. | .cleanupCount _ | .unregister _
  | .remove .. | .finish .. => .isFalse id

/-- **What is expected of every state.** -/
structure WellKept (s : Sys) : Prop where
  /-- At most one entry exists per name. -/
  once : (s.shared.table.map Entry.name).Nodup
  /-- No entry is removed twice. -/
  removed : (s.shared.removed.map Prod.fst).Nodup
  /-- No entry's map is put twice. -/
  put : s.shared.put.Nodup
  /-- The counter is right whenever no call is in progress. -/
  number : (∀ pc ∈ s.threads, pc.Done) → s.shared.numberMaps = s.shared.table.length

/-- What the thread saw in its scan has not been overtaken: no entry of its name was inserted since
and is there still, and the entry that it removes was not removed since. -/
def Pc.Unraced (m : Shared) : Pc → Prop
  | .insert _ n scanned => ∀ e ∈ m.table, e.name = n → e.added < scanned
  | .remove (item :: _) _ scanned => ∀ p ∈ m.removed, p.1 = item → p.2 < scanned
  | _ => True

/-- **The condition**: no step of a call acts on what was overtaken since its scan. -/
def Unraced (s : Sys) : Event → Prop
  | .enter _ => True
  | .run t => ∀ pc, s.threads[t]? = some pc → pc.Unraced s.shared

instance (m : Shared) : DecidablePred (Pc.Unraced m)
  | .insert _ n scanned => inferInstanceAs (Decidable (∀ e ∈ m.table, e.name = n → _ < scanned))
  | .remove (item :: _) _ scanned =>
    inferInstanceAs (Decidable (∀ p ∈ m.removed, p.1 = item → _ < scanned))
  | .remove [] _ _ | .register .. | .check .. | .acquire .. | .cleanupCount _ | .unregister _
  | .finish .. | .done _ => inferInstanceAs (Decidable True)

instance (s : Sys) : DecidablePred (Unraced s)
  | .enter _ => inferInstanceAs (Decidable True)
  | .run t => inferInstanceAs (Decidable (∀ pc, s.threads[t]? = some pc → pc.Unraced s.shared))

variable {k : Kernel} {s s' : Sys} {m m' : Shared} {now : ℕ} {pc pc' : Pc}

/-! ### One step -/

theorem mem_walk {n : U64} {e : Entry} (h : e ∈ m.walk k n) : e ∈ m.table :=
  (Chains.mem_chain.1 h).1

/-- Where a scan finds nothing, no entry of the name is there. -/
theorem walk_eq_nil {n : U64} (h : ¬ (m.walk k n).length ≥ 1) : ∀ e ∈ m.table, e.name ≠ n := by
  have hnil : m.walk k n = [] := List.eq_nil_of_length_eq_zero (by omega)
  exact fun e he hn ↦ Chains.chain_eq_nil.1 hnil e he (congrArg k.bucket hn)

/-- **What one step of a call can be.** -/
inductive Does (k : Kernel) (now : ℕ) (m : Shared) : Pc → Shared → Pc → Prop
  | full (fd : MapPtr) (kmalloc : Bool) (n : U64) : Does k now m (.register fd kmalloc n)
      { m with numberMaps := m.numberMaps + 1 } (.cleanupCount (-enospc))
  | raise (fd : MapPtr) (kmalloc : Bool) (n : U64) : Does k now m (.register fd kmalloc n)
      { m with numberMaps := m.numberMaps + 1 } (.check fd kmalloc n)
  | taken (fd : MapPtr) (kmalloc : Bool) (n : U64) :
      Does k now m (.check fd kmalloc n) m (.cleanupCount (-eexist))
  | free (fd : MapPtr) (kmalloc : Bool) (n : U64) (h : ∀ e ∈ m.table, e.name ≠ n) :
      Does k now m (.check fd kmalloc n) m (.acquire fd kmalloc n now)
  | fail (fd : MapPtr) (kmalloc : Bool) (n : U64) (scanned : ℕ) (err : ℤ) :
      Does k now m (.acquire fd kmalloc n scanned) m (.cleanupCount err)
  | acquire (map : MapId) (kmalloc : Bool) (n : U64) (scanned : ℕ) :
      Does k now m (.acquire (some map) kmalloc n scanned) m (.insert map n scanned)
  | insert (map : MapId) (n : U64) (scanned : ℕ) : Does k now m (.insert map n scanned)
      { m with table := ⟨now, n, map⟩ :: m.table } (.done 0)
  | cleanupCount (err : ℤ) : Does k now m (.cleanupCount err)
      { m with numberMaps := m.numberMaps - 1 } (.done err)
  | walk (n : U64) (items : List Entry) (h : ∀ e ∈ items, e ∈ m.table) :
      Does k now m (.unregister n) m (.remove items 0 now)
  | finished (i : ℤ) (scanned : ℕ) : Does k now m (.remove [] i scanned) m (.done i)
  | remove (item : Entry) (items : List Entry) (i : ℤ) (scanned : ℕ) :
      Does k now m (.remove (item :: items) i scanned)
        { m with table := m.table.erase item, removed := (item, now) :: m.removed }
        (.finish item items i scanned)
  | finish (item : Entry) (items : List Entry) (i : ℤ) (scanned : ℕ) :
      Does k now m (.finish item items i scanned)
        { m with numberMaps := m.numberMaps - 1, put := item :: m.put }
        (.remove items (i + 1) scanned)

theorem act_does (ha : act k now m pc = some (m', pc')) : Does k now m pc m' pc' := by
  cases pc with
  | register fd kmalloc n =>
    rw [act] at ha
    split_ifs at ha
    all_goals obtain ⟨rfl, rfl⟩ := Prod.mk.inj (Option.some.inj ha)
    · exact .full fd kmalloc n
    · exact .raise fd kmalloc n
  | check fd kmalloc n =>
    rw [act] at ha
    split_ifs at ha with hwalk
    all_goals obtain ⟨rfl, rfl⟩ := Prod.mk.inj (Option.some.inj ha)
    · exact .taken fd kmalloc n
    · exact .free fd kmalloc n (walk_eq_nil hwalk)
  | acquire fd kmalloc n scanned =>
    rcases fd with _ | map
    · obtain ⟨rfl, rfl⟩ := Prod.mk.inj (Option.some.inj ha)
      exact .fail none kmalloc n scanned _
    · rw [act] at ha
      split_ifs at ha
      all_goals obtain ⟨rfl, rfl⟩ := Prod.mk.inj (Option.some.inj ha)
      · exact .acquire map kmalloc n scanned
      · exact .fail (some map) kmalloc n scanned _
  | insert map n scanned =>
    obtain ⟨rfl, rfl⟩ := Prod.mk.inj (Option.some.inj ha)
    exact .insert map n scanned
  | cleanupCount err =>
    obtain ⟨rfl, rfl⟩ := Prod.mk.inj (Option.some.inj ha)
    exact .cleanupCount err
  | unregister n =>
    obtain ⟨rfl, rfl⟩ := Prod.mk.inj (Option.some.inj ha)
    exact .walk n _ fun _ ↦ mem_walk
  | remove items i scanned =>
    rcases items with _ | ⟨item, items⟩
    · obtain ⟨rfl, rfl⟩ := Prod.mk.inj (Option.some.inj ha)
      exact .finished i scanned
    · obtain ⟨rfl, rfl⟩ := Prod.mk.inj (Option.some.inj ha)
      exact .remove item items i scanned
  | finish item items i scanned =>
    obtain ⟨rfl, rfl⟩ := Prod.mk.inj (Option.some.inj ha)
    exact .finish item items i scanned
  | done ret => cases ha

/-- **What a step does to what is shared**, as far as the scans of other threads go: entries that
come in are new, and entries that go out are noted. -/
structure Moves (now : ℕ) (m m' : Shared) : Prop where
  new : ∀ e ∈ m'.table, e ∈ m.table ∨ e.added = now
  lost : ∀ e ∈ m.table, e ∈ m'.table ∨ (e, now) ∈ m'.removed
  removed : m.removed ⊆ m'.removed

theorem Moves.of_eq (ht : m'.table = m.table) (hr : m'.removed = m.removed) :
    Moves now m m' where
  new := by rw [ht]; exact fun _ ↦ .inl
  lost := by rw [ht]; exact fun _ ↦ .inl
  removed := by rw [hr]; exact List.Subset.refl _

/-- **What a thread knows from its scan**: entries of its name are no older than the scan, and the
entries that it is to remove are still there or were removed since. -/
def Pc.Knows (now : ℕ) (m : Shared) : Pc → Prop
  | .acquire _ _ n scanned | .insert _ n scanned =>
    scanned ≤ now ∧ ∀ e ∈ m.table, e.name = n → scanned ≤ e.added
  | .remove items _ scanned | .finish _ items _ scanned =>
    scanned ≤ now ∧ ∀ e ∈ items, e ∈ m.table ∨ ∃ t, scanned ≤ t ∧ (e, t) ∈ m.removed
  | _ => True

/-- What a thread knows outlives the steps of others. -/
theorem Pc.Knows.mono (h : pc.Knows now m) (hm : Moves now m m') : pc.Knows (now + 1) m' := by
  have hnew : ∀ {n scanned}, scanned ≤ now → (∀ e ∈ m.table, e.name = n → scanned ≤ e.added) →
      scanned ≤ now + 1 ∧ ∀ e ∈ m'.table, e.name = n → scanned ≤ e.added := fun hs hall ↦
    ⟨hs.trans (Nat.le_succ _), fun e he hn ↦ (hm.new e he).elim (fun he ↦ hall e he hn)
      fun he ↦ he ▸ hs⟩
  have hlost : ∀ {items : List Entry} {scanned}, scanned ≤ now →
      (∀ e ∈ items, e ∈ m.table ∨ ∃ t, scanned ≤ t ∧ (e, t) ∈ m.removed) →
      scanned ≤ now + 1 ∧ ∀ e ∈ items, e ∈ m'.table ∨ ∃ t, scanned ≤ t ∧ (e, t) ∈ m'.removed := by
    refine fun hs hall ↦ ⟨hs.trans (Nat.le_succ _), fun e he ↦ ?_⟩
    rcases hall e he with ht | ⟨t, hst, ht⟩
    · exact (hm.lost e ht).imp_right fun hr ↦ ⟨_, hs, hr⟩
    · exact .inr ⟨t, hst, hm.removed ht⟩
  cases pc with
  | acquire => exact hnew h.1 h.2
  | insert => exact hnew h.1 h.2
  | remove => exact hlost h.1 h.2
  | finish => exact hlost h.1 h.2
  | _ => trivial

/-- **What is shared, in every state**, raced or not. -/
structure Kept (now : ℕ) (m : Shared) : Prop where
  /-- Entries are told apart by the time at which they were inserted. -/
  nodup : (m.table.map Entry.added).Nodup
  old : ∀ e ∈ m.table, e.added < now
  /-- An entry that was removed does not come back. -/
  gone : ∀ p ∈ m.removed, p.1 ∉ m.table ∧ p.1.added < now

theorem Kept.mono (h : Kept now m) (ht : m'.table = m.table) (hr : m'.removed = m.removed) :
    Kept (now + 1) m' where
  nodup := by rw [ht]; exact h.nodup
  old := by rw [ht]; exact fun e he ↦ Nat.lt_succ_of_lt (h.old e he)
  gone := by rw [ht, hr]; exact fun p hp ↦ (h.gone p hp).imp_right Nat.lt_succ_of_lt

theorem Kept.insert (h : Kept now m) (n : U64) (map : MapId) :
    Kept (now + 1) { m with table := ⟨now, n, map⟩ :: m.table } where
  nodup := by
    refine List.nodup_cons.2 ⟨fun hmem ↦ ?_, h.nodup⟩
    obtain ⟨e, he, hadded⟩ := List.mem_map.1 hmem
    exact (h.old e he).ne hadded
  old := List.forall_mem_cons.2
    ⟨Nat.lt_succ_self now, fun e he ↦ Nat.lt_succ_of_lt (h.old e he)⟩
  gone p hp := by
    obtain ⟨hnot, hlt⟩ := h.gone p hp
    refine ⟨fun hmem ↦ ?_, Nat.lt_succ_of_lt hlt⟩
    rcases List.mem_cons.1 hmem with he | hmem
    · rw [he] at hlt
      exact lt_irrefl _ hlt
    · exact hnot hmem

theorem Kept.remove (h : Kept now m) {item : Entry} (hitem : item.added < now) :
    Kept (now + 1)
      { m with table := m.table.erase item, removed := (item, now) :: m.removed } where
  nodup := h.nodup.sublist (List.erase_sublist.map _)
  old e he := Nat.lt_succ_of_lt (h.old e (List.mem_of_mem_erase he))
  gone := List.forall_mem_cons.2
    ⟨⟨(List.Nodup.of_map _ h.nodup).not_mem_erase, Nat.lt_succ_of_lt hitem⟩, fun p hp ↦
      ⟨fun hmem ↦ (h.gone p hp).1 (List.mem_of_mem_erase hmem),
        Nat.lt_succ_of_lt (h.gone p hp).2⟩⟩

/-- What a thread is to remove is older than the present. -/
theorem Kept.added_lt (h : Kept now m) {item : Entry}
    (hitem : item ∈ m.table ∨ ∃ t, (item, t) ∈ m.removed) : item.added < now := by
  rcases hitem with ht | ⟨t, ht⟩
  · exact h.old item ht
  · exact (h.gone _ ht).2

/-- What a step of a thread leaves: the others' scans, what is shared, and what it knows itself. -/
structure Acted (now : ℕ) (m m' : Shared) (pc' : Pc) : Prop where
  moves : Moves now m m'
  kept : Kept (now + 1) m'
  knows : pc'.Knows (now + 1) m'

theorem Acted.of_eq (h : Kept now m) (ht : m'.table = m.table) (hr : m'.removed = m.removed)
    (hk : pc'.Knows (now + 1) m') : Acted now m m' pc' where
  moves := .of_eq ht hr
  kept := h.mono ht hr
  knows := hk

/-- **One step of a thread**, raced or not. -/
theorem Does.acted (ha : Does k now m pc m' pc') (h : Kept now m) (hk : pc.Knows now m) :
    Acted now m m' pc' := by
  cases ha with
  | free _ _ _ hfree =>
    exact .of_eq h rfl rfl ⟨Nat.le_succ now, fun e he hn ↦ absurd hn (hfree e he)⟩
  | acquire map _ n scanned =>
    have hk' : (Pc.insert map n scanned).Knows now m := hk
    exact .of_eq h rfl rfl (hk'.mono (.of_eq rfl rfl))
  | insert map n =>
    refine ⟨⟨?_, fun e he ↦ .inl (List.mem_cons_of_mem _ he), List.Subset.refl _⟩, h.insert n map,
      trivial⟩
    exact List.forall_mem_cons.2 ⟨.inr rfl, fun e he ↦ .inl he⟩
  | walk _ items hitems =>
    exact .of_eq h rfl rfl ⟨Nat.le_succ now, fun e he ↦ .inl (hitems e he)⟩
  | remove item items i scanned =>
    obtain ⟨hs, hitem, hitems⟩ := (and_congr_right fun _ ↦ List.forall_mem_cons).1 hk
    have hmoves : Moves now m
        { m with table := m.table.erase item, removed := (item, now) :: m.removed } := by
      refine ⟨fun e he ↦ .inl (List.mem_of_mem_erase he), fun e he ↦ ?_,
        List.subset_cons_self _ _⟩
      rcases eq_or_ne e item with rfl | hne
      · exact .inr List.mem_cons_self
      · exact .inl ((List.mem_erase_of_ne hne).2 he)
    have hk' : (Pc.finish item items i scanned).Knows now m := ⟨hs, hitems⟩
    exact ⟨hmoves, h.remove (h.added_lt (hitem.imp_right fun ⟨t, _, ht⟩ ↦ ⟨t, ht⟩)),
      hk'.mono hmoves⟩
  | finish item items i scanned =>
    have hk' : (Pc.remove items (i + 1) scanned).Knows now m := hk
    exact .of_eq h rfl rfl (hk'.mono (.of_eq rfl rfl))
  | _ => exact .of_eq h rfl rfl trivial

/-! ### What the threads owe -/

/-- The thread has raised the counter for an entry that is not there, or has not yet lowered it for
one that it removed. -/
def Pc.Owes : Pc → Bool
  | .check .. | .acquire .. | .insert .. | .cleanupCount _ | .finish .. => true
  | _ => false

/-- The thread has removed the entry and has not yet put its map. -/
def Pc.Holds (e : Entry) : Pc → Bool
  | .finish item _ _ _ => item = e
  | _ => false

/-- The thread inserts beside no entry of its name. -/
theorem Pc.Unraced.insert {map : MapId} {n : U64} {scanned : ℕ}
    (h : (Pc.insert map n scanned).Unraced m) (hk : (Pc.insert map n scanned).Knows now m) :
    ∀ e ∈ m.table, e.name ≠ n :=
  fun e he hn ↦ absurd (h e he hn) (hk.2 e he hn).not_gt

/-- The thread removes an entry that is there. -/
theorem Pc.Unraced.remove {item : Entry} {items : List Entry} {i : ℤ} {scanned : ℕ}
    (h : (Pc.remove (item :: items) i scanned).Unraced m)
    (hk : (Pc.remove (item :: items) i scanned).Knows now m) : item ∈ m.table := by
  rcases hk.2 item List.mem_cons_self with hitem | ⟨t, hst, ht⟩
  · exact hitem
  · exact absurd (h _ ht rfl) hst.not_gt

/-- **An unraced step keeps names apart.** -/
theorem Does.once (ha : Does k now m pc m' pc') (hk : pc.Knows now m) (hu : pc.Unraced m)
    (h : (m.table.map Entry.name).Nodup) : (m'.table.map Entry.name).Nodup := by
  cases ha with
  | insert map n scanned =>
    refine List.nodup_cons.2 ⟨fun hmem ↦ ?_, h⟩
    obtain ⟨e, he, hn⟩ := List.mem_map.1 hmem
    exact hu.insert hk e he hn
  | remove => exact h.sublist (List.erase_sublist.map _)
  | _ => exact h

/-- **An unraced step removes nothing again.** -/
theorem Does.removed (ha : Does k now m pc m' pc') (hm : Kept now m) (hk : pc.Knows now m)
    (hu : pc.Unraced m) (h : (m.removed.map Prod.fst).Nodup) :
    (m'.removed.map Prod.fst).Nodup := by
  cases ha with
  | remove item =>
    refine List.nodup_cons.2 ⟨fun hmem ↦ ?_, h⟩
    obtain ⟨p, hp, rfl⟩ := List.mem_map.1 hmem
    exact (hm.gone p hp).1 (hu.remove hk)
  | _ => exact h

/-- **An unraced step keeps the account of the counter.** -/
theorem Does.number (ha : Does k now m pc m' pc') (hk : pc.Knows now m) (hu : pc.Unraced m) :
    m'.numberMaps + m.table.length + pc.Owes.toNat =
      m.numberMaps + m'.table.length + pc'.Owes.toNat := by
  cases ha with
  | insert map n scanned =>
    show m.numberMaps + m.table.length + (1 : ℕ) =
      m.numberMaps + (m.table.length + 1 : ℕ) + (0 : ℕ)
    omega
  | remove item =>
    have hmem := hu.remove hk
    have hpos := List.length_pos_of_mem hmem
    show m.numberMaps + m.table.length + (0 : ℕ) =
      m.numberMaps + (m.table.erase item).length + (1 : ℕ)
    rw [List.length_erase_of_mem hmem]
    omega
  | _ => simp only [Pc.Owes, Bool.toNat_true, Bool.toNat_false] <;> omega

/-- **A step keeps the account of the puts**, raced or not. -/
theorem Does.put (ha : Does k now m pc m' pc') (e : Entry) :
    (m'.removed.map Prod.fst).count e + m.put.count e + (pc.Holds e).toNat =
      (m.removed.map Prod.fst).count e + m'.put.count e + (pc'.Holds e).toNat := by
  cases ha with
  | remove item =>
    rw [List.map_cons, List.count_cons]
    by_cases hitem : item = e
    · simp only [Pc.Holds, hitem, beq_self_eq_true, if_true, decide_true, Bool.toNat_true,
        Bool.toNat_false]
      omega
    · simp [Pc.Holds, hitem]
  | finish item =>
    rw [List.count_cons]
    by_cases hitem : item = e
    · simp only [Pc.Holds, hitem, beq_self_eq_true, if_true, decide_true, Bool.toNat_true,
        Bool.toNat_false]
      omega
    · simp [Pc.Holds, hitem]
  | _ => rfl

/-! ### Runs -/

/-- **What every state satisfies**, raced or not. -/
structure Inv (s : Sys) : Prop where
  kept : Kept s.clock s.shared
  knows : ∀ pc ∈ s.threads, pc.Knows s.clock s.shared
  /-- Each removal is followed by one put. -/
  put : ∀ e, (s.shared.removed.map Prod.fst).count e =
    s.shared.put.count e + s.threads.countP (Pc.Holds e)

/-- **What races break.** -/
structure Tight (s : Sys) : Prop where
  once : (s.shared.table.map Entry.name).Nodup
  removed : (s.shared.removed.map Prod.fst).Nodup
  /-- The counter is ahead of the entries by what the threads owe. -/
  number : s.shared.numberMaps = s.shared.table.length + s.threads.countP Pc.Owes

/-- A count along a list of which one element changes. -/
theorem countP_set_add (p : Pc → Bool) (pc' : Pc) {l : List Pc} {t : ℕ} (h : l[t]? = some pc) :
    (l.set t pc').countP p + (p pc).toNat = l.countP p + (p pc').toNat := by
  induction l generalizing t with
  | nil => cases h
  | cons a l ih =>
    cases t with
    | zero =>
      obtain rfl := Option.some.inj h
      show (pc' :: l).countP p + _ = _
      rw [List.countP_cons, List.countP_cons]
      rcases p a with _ | _ <;> rcases p pc' with _ | _ <;> simp
    | succ t =>
      have := ih h
      show (a :: l.set t pc').countP p + _ = _
      rw [List.countP_cons, List.countP_cons]
      omega

theorem step_run {t : ℕ} (h : step k s (.run t) = some s') : ∃ pc m' pc', s.threads[t]? = some pc ∧
    Does k s.clock s.shared pc m' pc' ∧ s' = ⟨m', s.clock + 1, s.threads.set t pc'⟩ := by
  obtain ⟨pc, ht, hpc⟩ := Option.bind_eq_some_iff.1 h
  obtain ⟨⟨m', pc'⟩, hact, rfl⟩ := Option.map_eq_some_iff.1 hpc
  exact ⟨pc, m', pc', ht, act_does hact, rfl⟩

theorem fstoreIoctl_fresh (i : Ioctl) :
    (∀ now m, (fstoreIoctl i).Knows now m) ∧ (fstoreIoctl i).Owes = false ∧
      ∀ e, (fstoreIoctl i).Holds e = false := by
  rcases i with (_ | ⟨fd, kmalloc, n⟩) | _ | _
  all_goals exact ⟨fun _ _ ↦ trivial, rfl, fun _ ↦ rfl⟩

theorem inv_step {e : Event} (h : Inv s) (hs : step k s e = some s') : Inv s' := by
  cases e with
  | enter i =>
    obtain rfl := Option.some.inj hs
    obtain ⟨hknows, -, hholds⟩ := fstoreIoctl_fresh i
    refine ⟨h.kept.mono rfl rfl, fun pc hpc ↦ ?_, fun e ↦ ?_⟩
    · rcases List.mem_append.1 hpc with hpc | hpc
      · exact (h.knows pc hpc).mono (.of_eq rfl rfl)
      · rw [List.mem_singleton.1 hpc]
        exact hknows _ _
    · rw [List.countP_append, List.countP_singleton, hholds e]
      exact h.put e
  | run t =>
    obtain ⟨pc, m', pc', ht, hdoes, rfl⟩ := step_run hs
    have hacted := hdoes.acted h.kept (h.knows pc (List.mem_of_getElem? ht))
    refine ⟨hacted.kept, fun x hx ↦ ?_, fun e ↦ ?_⟩
    · rcases List.mem_or_eq_of_mem_set hx with hx | rfl
      · exact (h.knows x hx).mono hacted.moves
      · exact hacted.knows
    · have hput := hdoes.put e
      have hcount := countP_set_add (Pc.Holds e) pc' ht
      have := h.put e
      show (m'.removed.map Prod.fst).count e =
        m'.put.count e + (s.threads.set t pc').countP (Pc.Holds e)
      omega

theorem tight_step {e : Event} (h : Inv s ∧ Tight s) (hu : Unraced s e)
    (hs : step k s e = some s') : Inv s' ∧ Tight s' := by
  refine ⟨inv_step h.1 hs, ?_⟩
  cases e with
  | enter i =>
    obtain rfl := Option.some.inj hs
    refine ⟨h.2.once, h.2.removed, ?_⟩
    rw [List.countP_append, List.countP_singleton, (fstoreIoctl_fresh i).2.1]
    exact h.2.number
  | run t =>
    obtain ⟨pc, m', pc', ht, hdoes, rfl⟩ := step_run hs
    have hk := h.1.knows pc (List.mem_of_getElem? ht)
    refine ⟨hdoes.once hk (hu pc ht) h.2.once,
      hdoes.removed h.1.kept hk (hu pc ht) h.2.removed, ?_⟩
    have hnumber := hdoes.number hk (hu pc ht)
    have hcount := countP_set_add Pc.Owes pc' ht
    have := h.2.number
    show m'.numberMaps = m'.table.length + ((s.threads.set t pc').countP Pc.Owes : ℕ)
    omega

theorem Inv.wellKept (h : Inv s) (ht : Tight s) : WellKept s where
  once := ht.once
  removed := ht.removed
  put := List.nodup_iff_count_le_one.2 fun e ↦ by
    have hone := List.nodup_iff_count_le_one.1 ht.removed e
    have := h.put e
    omega
  number hdone := by
    have hzero : s.threads.countP Pc.Owes = 0 := List.countP_eq_zero.2 fun pc hpc ↦ by
      have := hdone pc hpc
      rcases pc with _ | _ | _ | _ | _ | _ | _ | _ | _
      all_goals first | exact this.elim | exact Bool.false_ne_true
    rw [ht.number, hzero]
    exact add_zero _

/-- **A race shows at once**: as a second entry of a name or as a second removal of an entry. -/
theorem not_wellKept_of_race {e : Event} (h : step k s e = some s') (hu : ¬ Unraced s e) :
    ¬ WellKept s' := by
  intro hw
  cases e with
  | enter i => exact hu trivial
  | run t =>
    obtain ⟨pc, m', pc', ht, hdoes, rfl⟩ := step_run h
    refine hu fun pc₁ ht₁ ↦ ?_
    obtain rfl := Option.some.inj (ht.symm.trans ht₁)
    cases hdoes with
    | insert map n scanned =>
      refine fun e he hn ↦ absurd ?_ (List.nodup_cons.1 hw.once).1
      exact List.mem_map.2 ⟨e, he, hn⟩
    | remove item items i scanned =>
      refine fun p hp hitem ↦ absurd ?_ (List.nodup_cons.1 hw.removed).1
      exact List.mem_map.2 ⟨p, hp, hitem⟩
    | _ => trivial

theorem inv_init : Inv init :=
  ⟨⟨List.nodup_nil, nofun, nofun⟩, nofun, fun _ ↦ rfl⟩

theorem tight_init : Tight init :=
  ⟨List.nodup_nil, List.nodup_nil, rfl⟩

/-- **When concurrent calls keep the store well**: in every state of a run there is at most one
entry per name, nothing was removed or put twice, and the counter is the number of entries whenever
no call is in progress, if and only if no step of the run acts on what was overtaken since its
scan. -/
theorem wellKept_iff {es : List Event} {t : Sys} (h : Run.exec (step k) init es = some t) :
    (∀ pre s, pre <+: es → Run.exec (step k) init pre = some s → WellKept s) ↔
      Run.Always (step k) Unraced init es :=
  Run.forall_prefix_iff_always (I := fun s ↦ Inv s ∧ Tight s) (fun _ _ _ ↦ tight_step)
    (fun _ hs ↦ hs.1.wellKept hs.2) (fun _ _ _ _ hu hs ↦ not_wellKept_of_race hs hu)
    ⟨inv_init, tight_init⟩ h

/-! ### Examples -/

/-- A call that registers a map under the name 1. -/
def registerOne : Event := .enter (.registerMap (some (some 7, true, 1)))

/-- A register and an unregister of one name, one after the other. -/
def inTurn : List Event :=
  [registerOne, .run 0, .run 0, .run 0, .run 0, .enter (.unregisterMap 1), .run 1, .run 1, .run 1,
    .run 1]

/-- Two registers of one name that both scan before either inserts. -/
def scanScan : List Event :=
  [registerOne, registerOne, .run 0, .run 1, .run 0, .run 1, .run 0, .run 1, .run 0, .run 1]

theorem wellKept_inTurn : ∃ t, Run.exec (step linux) init inTurn = some t ∧ WellKept t := by
  obtain ⟨t, ht⟩ : ∃ t, Run.exec (step linux) init inTurn = some t := ⟨_, rfl⟩
  have hu : Run.Always (step linux) Unraced init inTurn := by decide +kernel
  exact ⟨t, ht, (wellKept_iff ht).2 hu inTurn t (List.prefix_refl _) ht⟩

/-- Both insert: the name has two entries. -/
theorem not_wellKept_scanScan : ∃ t, Run.exec (step linux) init scanScan = some t ∧
    (∀ pc ∈ t.threads, pc.Done) ∧ ¬ WellKept t := by
  refine ⟨_, rfl, by decide +kernel, fun h ↦ ?_⟩
  exact absurd h.once (by decide +kernel)

end Concurrent

end Fstore
