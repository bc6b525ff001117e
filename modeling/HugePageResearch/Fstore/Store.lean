import HugePageResearch.Library.Chains
import HugePageResearch.Library.Run
import Mathlib.Data.Int.Init
import Mathlib.Data.List.Count
import Mathlib.Tactic.Ring

/-!
# The feature store

`module/fstore/fstore.c`: a kernel module that keeps BPF maps under 64-bit names. The names are not
kept: an entry is a map pointer in the bucket of its name, and every lookup is a walk over a bucket.

The store is the counter `number_maps`, the hash table and the reference counts of the maps; a call
takes a store and gives a reply and the next one. What the kernel decides is an input: the bucket of
a name and the attributes of a map (`Kernel`), what `bpf_map_get` finds and whether `kmalloc` gives
memory. An entry carries its name and a store the maps that the call under way has read or taken out
(`touched`), which nothing computes with: they are there to be spoken about.

## The result

`sound`: at the end of every run the counter is the number of entries, there are fewer entries than
`FSTORE_SIZE`, no bucket holds two, and none holds an error pointer. So a walk meets no entry or
one, and each function has two equations, `…_of_empty` and `…_of_entry`; registering either leaves
the store as it was or adds an entry to an empty bucket. `call_outcome` says at once what each call
comes to, and the accounts of the calls are read off it.
-/

namespace Fstore

/-! ### Data -/

/-- `u64`. -/
abbrev U64 : Type := BitVec 64

/-- A `struct bpf_map`, by its identity. -/
abbrev MapId : Type := ℕ

/-- A `struct bpf_map *`: `none` is a pointer that `IS_ERR` recognises. -/
abbrev MapPtr : Type := Option MapId

/-- `FSTORE_LOGSIZE`. -/
def fstoreLogsize : ℕ := 8

/-- `FSTORE_SIZE`. -/
def fstoreSize : ℕ := 1 <<< fstoreLogsize

/-- `ENOENT`. -/
def enoent : ℤ := 2

/-- `EBADF`. -/
def ebadf : ℤ := 9

/-- `ENOMEM`. -/
def enomem : ℤ := 12

/-- `EACCES`. -/
def eacces : ℤ := 13

/-- `EEXIST`. -/
def eexist : ℤ := 17

/-- `EINVAL`. -/
def einval : ℤ := 22

/-- `ENOSPC`. -/
def enospc : ℤ := 28

/-- `ENOKEY`. -/
def enokey : ℤ := 126

/-- `EKEYEXPIRED`. -/
def ekeyexpired : ℤ := 127

/-- `BPF_MAP_TYPE_ARRAY`. -/
def bpfMapTypeArray : ℕ := 2

/-- `BPF_F_MMAPABLE`. -/
def bpfFMmapable : BitVec 32 := 1 <<< 10

/-- What the store reads of a `struct bpf_map`. -/
structure BpfMap where
  mapType : ℕ
  keySize : ℕ
  valueSize : ℕ
  maxEntries : ℕ
  mapFlags : BitVec 32

/-- What the kernel fixes: the bucket that a name is hashed to, and the maps. -/
structure Kernel where
  bucket : U64 → Fin fstoreSize
  bpfMap : MapId → BpfMap

/-- `hash_min` of a 64-bit key, where the size of the table is 2 to the 8. -/
def hashMin (name : U64) : Fin fstoreSize :=
  ⟨((name * 0x61C8864680B583EB) >>> 56).toNat, by
    rw [BitVec.toNat_ushiftRight, Nat.shiftRight_eq_div_pow]
    exact Nat.div_lt_of_lt_mul (BitVec.isLt _)⟩

/-- `hash_t`, with the name it was added under. -/
structure HashNode where
  name : U64
  map : MapPtr
  deriving DecidableEq

/-- The state of the module and of the reference counts of the maps. -/
structure Store where
  /-- `number_maps`. -/
  numberMaps : ℤ
  /-- `fstore_map`: the chains of all buckets, newest entry first. -/
  fstoreMap : List HashNode
  refs : MapId → ℤ
  /-- The maps that the call under way has read or taken out of the table. -/
  touched : List MapId

/-- What a call gives back. -/
inductive Reply where
  | code (c : ℤ)
  /-- What `bpf_map_copy_value` returns for the map. -/
  | copied (m : MapId)
  /-- 0, with `*size` set. -/
  | size (n : ℕ)
  /-- 0, with `*map_ptr` set to the value array of the map. -/
  | array (m : MapId)
  deriving DecidableEq

namespace Store

/-- `atomic64_inc_return` and `atomic64_dec_return` on `number_maps`. -/
@[simps]
def count (d : ℤ) (s : Store) : Store := { s with numberMaps := s.numberMaps + d }

/-- `bpf_map_inc` and `bpf_map_put`. -/
@[simps]
def adjust (m : MapId) (d : ℤ) (s : Store) : Store :=
  { s with refs := fun x ↦ s.refs x + if x = m then d else 0 }

/-- The same on a pointer, where an error pointer is passed over. -/
def adjustPtr (p : MapPtr) (d : ℤ) (s : Store) : Store :=
  match p with
  | none => s
  | some m => s.adjust m d

/-- The map is read or taken out. -/
@[simps]
def touch (p : MapPtr) (s : Store) : Store := { s with touched := p.toList ++ s.touched }

/-- `hash_add_rcu`. -/
@[simps]
def hashAdd (item : HashNode) (s : Store) : Store := { s with fstoreMap := item :: s.fstoreMap }

/-- `hash_del_rcu`. -/
@[simps]
def hashDel (item : HashNode) (s : Store) : Store := { s with fstoreMap := s.fstoreMap.erase item }

/-- The index that `fstore_register` compares with the size: the counter as a `u64`. -/
def index (s : Store) : ℕ := (s.numberMaps % 2 ^ 64).toNat

/-- The number of entries that hold a map. -/
def holders (s : Store) (m : MapId) : ℕ := s.fstoreMap.countP fun item ↦ item.map = some m

/-- The map is registered under exactly this name. -/
def Holds (s : Store) (name : U64) (m : MapId) : Prop := ⟨name, some m⟩ ∈ s.fstoreMap

/-- Some map is registered under exactly this name. -/
def Registered (s : Store) (name : U64) : Prop := ∃ item ∈ s.fstoreMap, item.name = name

end Store

variable (k : Kernel)

/-- The bucket of an entry. -/
def Kernel.bucketOf (item : HashNode) : Fin fstoreSize := k.bucket item.name

/-- What `hash_for_each_possible` walks over. -/
def Store.walk (s : Store) (name : U64) : List HashNode :=
  Chains.chain k.bucketOf (k.bucket name) s.fstoreMap

/-! ### The functions -/

/-- `fstore_register`, with what `bpf_map_get` finds under the descriptor and whether `kmalloc`
gives memory. -/
def fstoreRegister (fd : MapPtr) (kmalloc : Bool) (mapName : U64) (s : Store) : Reply × Store :=
  let s := s.count 1
  if s.index ≥ fstoreSize then (.code (-enospc), s.count (-1))
  else if (s.walk k mapName).length ≥ 1 then (.code (-eexist), s.count (-1))
  else
    match fd with
    | none => (.code (-ebadf), s.count (-1))
    | some map =>
      let s := s.adjust map 1
      if kmalloc then (.code 0, s.hashAdd ⟨mapName, some map⟩)
      else (.code (-enomem), (s.adjust map (-1)).count (-1))

/-- `fstore_delete`. -/
def fstoreDelete (s : Store) (item : HashNode) : Store :=
  ((((s.touch item.map).hashDel item).count (-1)).adjustPtr item.map (-1))

/-- `fstore_unregister`. -/
def fstoreUnregister (mapName : U64) (s : Store) : Reply × Store :=
  let items := s.walk k mapName
  (.code items.length, items.foldl fstoreDelete s)

/-- The walk of `fstore_get`: the last map met, whether an error pointer was met, and the
references taken. -/
def getWalk (acc : MapPtr × Bool × Store) (item : HashNode) : MapPtr × Bool × Store :=
  match item.map with
  | none => (none, true, acc.2.2)
  | some map => (some map, acc.2.1, acc.2.2.adjust map 1)

/-- `fstore_get`, with `IS_ERR(key)` and `IS_ERR(value)`. -/
def fstoreGet (mapName : U64) (keyErr valueErr : Bool) (keySize valueSize : ℕ) (s : Store) :
    Reply × Store :=
  let items := s.walk k mapName
  match items.foldl getWalk (none, false, s) with
  | (_, true, s) => (.code (-ekeyexpired), s)
  | (none, false, s) => (.code (-enokey), s)
  | (some map, false, s) =>
    if keyErr || valueErr then (.code (-einval), s.adjust map (-1))
    else
      let s := s.touch (some map)
      if keySize < (k.bpfMap map).keySize || valueSize < (k.bpfMap map).valueSize then
        (.code (-einval), s.adjust map (-1))
      else (.copied map, s.adjust map (-1))

/-- `fstore_get_map_array_start`: the walk stops at its first entry. -/
def fstoreGetMapArrayStart (mapName : U64) (keySize valueSize numElements : ℕ) (s : Store) :
    Reply × Store :=
  match s.walk k mapName with
  | [] => (.code (-enoent), s)
  | item :: _ =>
    match item.map with
    | none => (.code (-ekeyexpired), s)
    | some map =>
      let s := (s.adjust map 1).touch (some map)
      if (k.bpfMap map).mapType ≠ bpfMapTypeArray then (.code (-einval), s)
      else if (k.bpfMap map).keySize ≠ keySize then (.code (-eacces), s)
      else if (k.bpfMap map).valueSize ≠ valueSize then (.code (-eacces), s)
      else if (k.bpfMap map).maxEntries ≠ numElements then (.code (-eacces), s)
      else if (k.bpfMap map).mapFlags &&& bpfFMmapable = 0 then (.code (-eacces), s)
      else (.array map, s)

/-- The walk of `fstore_get_value_size` and `fstore_get_num_keys`, with the field that it reads. -/
def sizeWalk (field : BpfMap → ℕ) (acc : Reply × Store) (item : HashNode) : Reply × Store :=
  match item.map with
  | none => (.code (-ekeyexpired), acc.2)
  | some map =>
    (if acc.1 = .code (-ekeyexpired) then acc.1 else .size (field (k.bpfMap map)),
      acc.2.touch (some map))

/-- What the two functions share. -/
def getSize (field : BpfMap → ℕ) (mapName : U64) (s : Store) : Reply × Store :=
  (s.walk k mapName).foldl (sizeWalk k field) (.code (-enokey), s)

/-- `fstore_get_value_size`. -/
def fstoreGetValueSize (mapName : U64) (s : Store) : Reply × Store :=
  getSize k BpfMap.valueSize mapName s

/-- `fstore_get_num_keys`. -/
def fstoreGetNumKeys (mapName : U64) (s : Store) : Reply × Store :=
  getSize k BpfMap.maxEntries mapName s

/-- The walk of `fstore_put_map_array`. -/
def putWalk (acc : ℤ × Store) (item : HashNode) : ℤ × Store :=
  match item.map with
  | none => acc
  | some map => (acc.1 + 1, acc.2.adjust map (-1))

/-- `fstore_put_map_array`. -/
def fstorePutMapArray (mapName : U64) (s : Store) : Reply × Store :=
  let r := (s.walk k mapName).foldl putWalk (0, s)
  (.code r.1, r.2)

/-- `init_module`, with the reference counts that it finds. -/
def initModule (refs : MapId → ℤ) : Store := ⟨0, [], refs, []⟩

/-- `cleanup_module`. -/
def cleanupModule (s : Store) : Store := s.fstoreMap.foldl fstoreDelete s

/-- The exported calls, with the inputs of each. -/
inductive Call where
  | register (fd : MapPtr) (kmalloc : Bool) (mapName : U64)
  | unregister (mapName : U64)
  | get (mapName : U64) (keyErr valueErr : Bool) (keySize valueSize : ℕ)
  | getMapArrayStart (mapName : U64) (keySize valueSize numElements : ℕ)
  | getValueSize (mapName : U64)
  | getNumKeys (mapName : U64)
  | putMapArray (mapName : U64)

/-- The name that a call is given. -/
def Call.name : Call → U64
  | register _ _ n | unregister n | get n _ _ _ _ | getMapArrayStart n _ _ _ | getValueSize n
  | getNumKeys n | putMapArray n => n

/-- One call. -/
def call (s : Store) (c : Call) : Reply × Store :=
  let s := { s with touched := [] }
  match c with
  | .register fd kmalloc n => fstoreRegister k fd kmalloc n s
  | .unregister n => fstoreUnregister k n s
  | .get n keyErr valueErr keySize valueSize =>
    fstoreGet k n keyErr valueErr keySize valueSize s
  | .getMapArrayStart n keySize valueSize numElements =>
    fstoreGetMapArrayStart k n keySize valueSize numElements s
  | .getValueSize n => fstoreGetValueSize k n s
  | .getNumKeys n => fstoreGetNumKeys k n s
  | .putMapArray n => fstorePutMapArray k n s

/-- A store in its surroundings: the references that others hold on the maps, and the maps that
callers of `fstore_get_map_array_start` were shown and have not put, with the names they used. -/
structure World where
  store : Store
  outside : MapId → ℤ
  exposed : List (U64 × MapId)

/-- What happens: a call, the put that is paired with an earlier start that exposed the map, or
others taking or dropping references. -/
inductive Event where
  | call (c : Call)
  | put (mapName : U64) (m : MapId)
  | outside (m : MapId) (d : ℤ)

/-- What a reply exposes to the caller of the name. -/
def exposes (c : Call) : Reply → List (U64 × MapId)
  | .array m => [(c.name, m)]
  | _ => []

/-- One event. A put is paired only with a start that was not put yet. -/
def step (w : World) : Event → Option World
  | .call c =>
    let r := call k w.store c
    some ⟨r.2, w.outside, exposes c r.1 ++ w.exposed⟩
  | .put n m =>
    if (n, m) ∈ w.exposed then
      some ⟨(call k w.store (.putMapArray n)).2, w.outside, w.exposed.erase (n, m)⟩
    else none
  | .outside m d =>
    some ⟨w.store.adjust m d, fun x ↦ w.outside x + if x = m then d else 0, w.exposed⟩

/-- The module is loaded. -/
def start (refs : MapId → ℤ) : World := ⟨initModule refs, refs, []⟩

/-! ### What the functions do -/

/-- **What every store that was reached is like.** -/
structure Sound (s : Store) : Prop where
  /-- The counter is the number of entries. -/
  number : s.numberMaps = s.fstoreMap.length
  lt : s.fstoreMap.length < fstoreSize
  one : Chains.AtMostOne k.bucketOf s.fstoreMap
  ok : ∀ item ∈ s.fstoreMap, ∃ m, item.map = some m

variable {k} {s : Store} {n n' : U64} {m : MapId}

namespace Store

@[simp] theorem walk_count (d : ℤ) : (s.count d).walk k n = s.walk k n := rfl

@[simp] theorem count_count : (s.count 1).count (-1) = s := by
  simp [count]

/-- A reference taken and dropped. -/
@[simp] theorem adjust_adjust : (s.adjust m 1).adjust m (-1) = s := by
  have h : (fun x ↦ s.refs x + (if x = m then 1 else 0) + if x = m then (-1 : ℤ) else 0) = s.refs :=
    funext fun x ↦ by split <;> ring
  rw [adjust, adjust]
  exact congrArg (fun r ↦ ({ s with refs := r } : Store)) h

theorem adjust_touch (d : ℤ) (p : MapPtr) : (s.touch p).adjust m d = (s.adjust m d).touch p := rfl

/-- **A walk meets nothing or one entry**, which holds a map and is in the bucket of the name. -/
theorem walk_cases (h : Sound k s) (n : U64) : s.walk k n = [] ∨
    ∃ n' m, s.Holds n' m ∧ k.bucket n' = k.bucket n ∧ s.walk k n = [⟨n', some m⟩] := by
  rcases h.one.chain_cases (k.bucket n) with hc | ⟨⟨n', p⟩, hitem, hb, hc⟩
  · exact .inl hc
  · obtain ⟨m, hm⟩ := h.ok _ hitem
    obtain rfl : p = some m := hm
    exact .inr ⟨n', m, hitem, hb, hc⟩

/-- What is registered under a name is met by the walk over its bucket. -/
theorem Holds.walk_eq (h : Sound k s) (hn : s.Holds n' m) (hb : k.bucket n' = k.bucket n) :
    s.walk k n = [⟨n', some m⟩] := by
  rw [walk, ← hb]
  exact h.one.chain_eq hn

theorem walk_eq_nil : s.walk k n = [] ↔ ∀ item ∈ s.fstoreMap, k.bucket item.name ≠ k.bucket n :=
  Chains.chain_eq_nil

end Store

/-- **What registering comes to**: the counter that it raises first is the number of entries. -/
theorem fstoreRegister_eq (h : Sound k s) (fd : MapPtr) (kmalloc : Bool) (n : U64) :
    fstoreRegister k fd kmalloc n s =
      if s.fstoreMap.length + 1 ≥ fstoreSize then (.code (-enospc), s)
      else if s.walk k n ≠ [] then (.code (-eexist), s)
      else match fd with
        | none => (.code (-ebadf), s)
        | some m =>
          if kmalloc then (.code 0, ((s.count 1).adjust m 1).hashAdd ⟨n, some m⟩)
          else (.code (-enomem), s) := by
  have hlt : s.fstoreMap.length < 256 := h.lt
  have hindex : (s.count 1).index = s.fstoreMap.length + 1 := by
    rw [Store.index, Store.count_numberMaps, h.number]
    omega
  have hlen : (s.walk k n).length ≥ 1 ↔ s.walk k n ≠ [] := List.length_pos_iff
  simp only [fstoreRegister, hindex, Store.walk_count, hlen, Store.count_count,
    Store.adjust_adjust]

/-- **Registering** leaves the store as it was or adds an entry to an empty bucket. -/
theorem fstoreRegister_cases (h : Sound k s) (fd : MapPtr) (kmalloc : Bool) (n : U64) :
    (∃ c ≠ 0, fstoreRegister k fd kmalloc n s = (.code c, s)) ∨
    ∃ m, s.walk k n = [] ∧ s.fstoreMap.length + 1 < fstoreSize ∧
      fstoreRegister k fd kmalloc n s =
        (.code 0, ((s.count 1).adjust m 1).hashAdd ⟨n, some m⟩) := by
  rw [fstoreRegister_eq h]
  by_cases hfull : s.fstoreMap.length + 1 ≥ fstoreSize
  · exact .inl ⟨-enospc, by decide, if_pos hfull⟩
  rw [if_neg hfull]
  by_cases hwalk : s.walk k n ≠ []
  · exact .inl ⟨-eexist, by decide, if_pos hwalk⟩
  rw [if_neg hwalk]
  rcases fd with _ | m
  · exact .inl ⟨-ebadf, by decide, rfl⟩
  rcases kmalloc with _ | _
  · exact .inl ⟨-enomem, by decide, rfl⟩
  · exact .inr ⟨m, not_not.1 hwalk, not_le.1 hfull, rfl⟩

theorem fstoreUnregister_of_empty (h : s.walk k n = []) :
    fstoreUnregister k n s = (.code 0, s) := by
  rw [fstoreUnregister, h]
  rfl

theorem fstoreUnregister_of_entry (h : s.walk k n = [⟨n', some m⟩]) :
    fstoreUnregister k n s = (.code 1, fstoreDelete s ⟨n', some m⟩) := by
  rw [fstoreUnregister, h]
  rfl

theorem fstoreGet_of_empty (h : s.walk k n = []) (ke ve : Bool) (ks vs : ℕ) :
    fstoreGet k n ke ve ks vs s = (.code (-enokey), s) := by
  rw [fstoreGet, h]
  rfl

/-- `fstore_get` gives back the reference that its walk took. -/
theorem fstoreGet_of_entry (h : s.walk k n = [⟨n', some m⟩]) (ke ve : Bool) (ks vs : ℕ) :
    ∃ r p, fstoreGet k n ke ve ks vs s = (r, s.touch p) ∧ (p = none ∨ p = some m) ∧
      (r = .code (-einval) ∨ r = .copied m) := by
  have hwalk : [⟨n', some m⟩].foldl getWalk (none, false, s) = (some m, false, s.adjust m 1) := rfl
  rw [fstoreGet, h, hwalk]
  dsimp only
  split_ifs
  · exact ⟨.code (-einval), none, congrArg _ Store.adjust_adjust, .inl rfl, .inl rfl⟩
  · exact ⟨.code (-einval), some m, by rw [Store.adjust_touch, Store.adjust_adjust], .inr rfl,
      .inl rfl⟩
  · exact ⟨.copied m, some m, by rw [Store.adjust_touch, Store.adjust_adjust], .inr rfl, .inr rfl⟩

theorem getSize_of_empty (h : s.walk k n = []) (field : BpfMap → ℕ) :
    getSize k field n s = (.code (-enokey), s) := by
  rw [getSize, h]
  rfl

theorem getSize_of_entry (h : s.walk k n = [⟨n', some m⟩]) (field : BpfMap → ℕ) :
    getSize k field n s = (.size (field (k.bpfMap m)), s.touch (some m)) := by
  rw [getSize, h]
  rfl

/-- What `fstore_get_map_array_start` checks of the map that it found. -/
def Exposable (a : BpfMap) (keySize valueSize numElements : ℕ) : Prop :=
  a.mapType = bpfMapTypeArray ∧ a.keySize = keySize ∧ a.valueSize = valueSize ∧
    a.maxEntries = numElements ∧ a.mapFlags &&& bpfFMmapable ≠ 0

theorem fstoreGetMapArrayStart_of_empty (h : s.walk k n = []) (ks vs ne : ℕ) :
    fstoreGetMapArrayStart k n ks vs ne s = (.code (-enoent), s) := by
  rw [fstoreGetMapArrayStart, h]

/-- The reference on the map is taken before it is checked, and kept whatever the checks say. -/
theorem fstoreGetMapArrayStart_of_entry (h : s.walk k n = [⟨n', some m⟩]) (ks vs ne : ℕ) :
    ∃ r, fstoreGetMapArrayStart k n ks vs ne s = (r, (s.adjust m 1).touch (some m)) ∧
      ((Exposable (k.bpfMap m) ks vs ne ∧ r = .array m) ∨
        ¬ Exposable (k.bpfMap m) ks vs ne ∧ (r = .code (-einval) ∨ r = .code (-eacces))) := by
  rw [fstoreGetMapArrayStart, h]
  dsimp only
  split_ifs with h₁ h₂ h₃ h₄ h₅
  · exact ⟨_, rfl, .inr ⟨fun hx ↦ h₁ hx.1, .inl rfl⟩⟩
  · exact ⟨_, rfl, .inr ⟨fun hx ↦ h₂ hx.2.1, .inr rfl⟩⟩
  · exact ⟨_, rfl, .inr ⟨fun hx ↦ h₃ hx.2.2.1, .inr rfl⟩⟩
  · exact ⟨_, rfl, .inr ⟨fun hx ↦ h₄ hx.2.2.2.1, .inr rfl⟩⟩
  · exact ⟨_, rfl, .inr ⟨fun hx ↦ hx.2.2.2.2 h₅, .inr rfl⟩⟩
  · exact ⟨_, rfl, .inl ⟨⟨not_not.1 h₁, not_not.1 h₂, not_not.1 h₃, not_not.1 h₄, h₅⟩, rfl⟩⟩

theorem fstorePutMapArray_of_empty (h : s.walk k n = []) :
    fstorePutMapArray k n s = (.code 0, s) := by
  rw [fstorePutMapArray, h]
  rfl

theorem fstorePutMapArray_of_entry (h : s.walk k n = [⟨n', some m⟩]) :
    fstorePutMapArray k n s = (.code 1, s.adjust m (-1)) := by
  rw [fstorePutMapArray, h]
  rfl

/-- No other name of the bucket is registered. -/
def Alone (k : Kernel) (s : Store) (n : U64) : Prop :=
  ∀ item ∈ s.fstoreMap, k.bucket item.name = k.bucket n → item.name = n

/-- Where no other name of the bucket is registered, the walk finds nothing exactly where the name
is not registered. -/
theorem Alone.walk_eq_nil (h : Alone k s n) : s.walk k n = [] ↔ ¬ s.Registered n := by
  rw [Store.walk_eq_nil, Store.Registered, not_exists]
  refine forall_congr' fun item ↦ ?_
  rw [not_and]
  exact imp_congr_right fun hitem ↦ ⟨fun hb he ↦ hb (he ▸ rfl), fun hne hb ↦ hne (h item hitem hb)⟩

/-! ### The invariant -/

/-- The references on a map beyond those of the entries that hold it. -/
def Store.spare (s : Store) (m : MapId) : ℤ := s.refs m - s.holders m

/-- Being sound is about the counter and the table. -/
theorem Sound.of_eq (h : Sound k s) {t : Store} (hn : t.numberMaps = s.numberMaps)
    (ht : t.fstoreMap = s.fstoreMap) : Sound k t where
  number := by rw [hn, ht, h.number]
  lt := by rw [ht]; exact h.lt
  one := by rw [ht]; exact h.one
  ok := by rw [ht]; exact h.ok

/-- **Adding an entry** to an empty bucket, with the reference that it keeps. -/
theorem Sound.add (h : Sound k s) (hwalk : s.walk k n = [])
    (hlt : s.fstoreMap.length + 1 < fstoreSize) :
    Sound k (((s.count 1).adjust m 1).hashAdd ⟨n, some m⟩) where
  number := by
    show s.numberMaps + 1 = ((s.fstoreMap.length + 1 : ℕ) : ℤ)
    rw [h.number]
    rfl
  lt := hlt
  one := Chains.atMostOne_cons.2 ⟨Store.walk_eq_nil.1 hwalk, h.one⟩
  ok := List.forall_mem_cons.2 ⟨⟨m, rfl⟩, h.ok⟩

theorem Store.spare_add (x : MapId) :
    (((s.count 1).adjust m 1).hashAdd ⟨n, some m⟩).spare x = s.spare x := by
  show s.refs x + (if x = m then 1 else 0) - ((_ :: s.fstoreMap).countP _ : ℕ) = _
  rw [List.countP_cons, spare, holders]
  by_cases hx : x = m
  · subst hx
    simp
  · simp [hx, Ne.symm hx]

/-- **Deleting an entry**, with the reference that it kept. -/
theorem Sound.delete (h : Sound k s) (hitem : s.Holds n m) :
    Sound k (fstoreDelete s ⟨n, some m⟩) where
  number := by
    show s.numberMaps + -1 = ((s.fstoreMap.erase _).length : ℤ)
    have hpos : 0 < s.fstoreMap.length := List.length_pos_of_mem hitem
    rw [h.number, List.length_erase_of_mem hitem]
    omega
  lt := lt_of_le_of_lt List.length_erase_le h.lt
  one := h.one.erase _
  ok := fun item hi ↦ h.ok item (List.mem_of_mem_erase hi)

theorem Store.spare_delete (hitem : s.Holds n m) (x : MapId) :
    (fstoreDelete s ⟨n, some m⟩).spare x = s.spare x := by
  show s.refs x + (if x = m then -1 else 0) - ((s.fstoreMap.erase _).countP _ : ℕ) = _
  have hpos : m = x → 0 < s.fstoreMap.countP fun item ↦ item.map = some x := by
    rintro rfl
    exact List.countP_pos_iff.2 ⟨_, hitem, by simp⟩
  have hmem : (⟨n, some m⟩ : HashNode) ∈ s.fstoreMap := hitem
  rw [List.countP_erase, spare, holders]
  by_cases hx : x = m
  · subst hx
    have := hpos rfl
    simp only [hmem, decide_true, and_self, if_true]
    omega
  · simp [hx, Ne.symm hx]

/-- The store in which a call runs. -/
def Store.fresh (s : Store) : Store := { s with touched := [] }

theorem Sound.fresh (h : Sound k s) : Sound k s.fresh := h.of_eq rfl rfl

/-- What a call other than register replies where it finds nothing. -/
def Call.notFound : Call → Option Reply
  | .register .. => none
  | .get .. | .getValueSize _ | .getNumKeys _ => some (.code (-enokey))
  | .getMapArrayStart .. => some (.code (-enoent))
  | .unregister _ | .putMapArray _ => some (.code 0)

/-- **A call whose walk meets nothing** says so and does nothing. -/
theorem call_of_empty {c : Call} {nf : Reply} (hc : c.notFound = some nf)
    (hw : s.fresh.walk k c.name = []) : call k s c = (nf, s.fresh) := by
  cases c with
  | register => cases hc
  | unregister n =>
    obtain rfl := Option.some.inj hc
    exact fstoreUnregister_of_empty hw
  | get n ke ve ks vs =>
    obtain rfl := Option.some.inj hc
    exact fstoreGet_of_empty hw ke ve ks vs
  | getMapArrayStart n ks vs ne =>
    obtain rfl := Option.some.inj hc
    exact fstoreGetMapArrayStart_of_empty hw ks vs ne
  | getValueSize n =>
    obtain rfl := Option.some.inj hc
    exact getSize_of_empty hw _
  | getNumKeys n =>
    obtain rfl := Option.some.inj hc
    exact getSize_of_empty hw _
  | putMapArray n =>
    obtain rfl := Option.some.inj hc
    exact fstorePutMapArray_of_empty hw

/-- What a call does to the map that its walk meets. -/
inductive Met (k : Kernel) (s : Store) (n : U64) (m : MapId) : Call → Reply × Store → Prop where
  | unregister (n' : U64) : Met k s n m (.unregister n') (.code 1, fstoreDelete s ⟨n, some m⟩)
  | get (n' : U64) (ke ve : Bool) (ks vs : ℕ) (r : Reply) (p : MapPtr) (hp : p = none ∨ p = some m)
      (hr : r = .code (-einval) ∨ r = .copied m) : Met k s n m (.get n' ke ve ks vs) (r, s.touch p)
  | getMapArrayStart (n' : U64) (ks vs ne : ℕ) (r : Reply)
      (hr : (Exposable (k.bpfMap m) ks vs ne ∧ r = .array m) ∨
        ¬ Exposable (k.bpfMap m) ks vs ne ∧ (r = .code (-einval) ∨ r = .code (-eacces))) :
      Met k s n m (.getMapArrayStart n' ks vs ne) (r, (s.adjust m 1).touch (some m))
  | getValueSize (n' : U64) (v : ℕ) : Met k s n m (.getValueSize n') (.size v, s.touch (some m))
  | getNumKeys (n' : U64) (v : ℕ) : Met k s n m (.getNumKeys n') (.size v, s.touch (some m))
  | putMapArray (n' : U64) : Met k s n m (.putMapArray n') (.code 1, s.adjust m (-1))

/-- **A call whose walk meets an entry**, whatever the name of the entry. -/
theorem call_of_entry {c : Call} {nf : Reply} (hc : c.notFound = some nf)
    (hw : s.fresh.walk k c.name = [⟨n, some m⟩]) : Met k s.fresh n m c (call k s c) := by
  cases c with
  | register => cases hc
  | unregister n' =>
    have he : call k s (.unregister n') = _ := fstoreUnregister_of_entry hw
    exact he ▸ .unregister n'
  | get n' ke ve ks vs =>
    obtain ⟨r, p, he, hp, hr⟩ := fstoreGet_of_entry hw ke ve ks vs
    have he : call k s (.get n' ke ve ks vs) = _ := he
    exact he ▸ .get n' ke ve ks vs r p hp hr
  | getMapArrayStart n' ks vs ne =>
    obtain ⟨r, he, hr⟩ := fstoreGetMapArrayStart_of_entry hw ks vs ne
    have he : call k s (.getMapArrayStart n' ks vs ne) = _ := he
    exact he ▸ .getMapArrayStart n' ks vs ne r hr
  | getValueSize n' =>
    have he : call k s (.getValueSize n') = _ := getSize_of_entry hw _
    exact he ▸ .getValueSize n' _
  | getNumKeys n' =>
    have he : call k s (.getNumKeys n') = _ := getSize_of_entry hw _
    exact he ▸ .getNumKeys n' _
  | putMapArray n' =>
    have he : call k s (.putMapArray n') = _ := fstorePutMapArray_of_entry hw
    exact he ▸ .putMapArray n'

/-- A call is a register, or it meets nothing, or it meets an entry of the bucket of its name. -/
inductive Outcome (k : Kernel) (s : Store) : Call → Reply × Store → Prop where
  | refused (fd : MapPtr) (kmalloc : Bool) (n : U64) (c : ℤ) (hc : c ≠ 0) :
      Outcome k s (.register fd kmalloc n) (.code c, s)
  | added (fd : MapPtr) (kmalloc : Bool) (n : U64) (m : MapId) (hw : s.walk k n = [])
      (hlt : s.fstoreMap.length + 1 < fstoreSize) :
      Outcome k s (.register fd kmalloc n)
        (.code 0, ((s.count 1).adjust m 1).hashAdd ⟨n, some m⟩)
  | nothing (c : Call) (nf : Reply) (hc : c.notFound = some nf) (hw : s.walk k c.name = []) :
      Outcome k s c (nf, s)
  | met (c : Call) (nf : Reply) (hc : c.notFound = some nf) (n : U64) (m : MapId)
      (hitem : s.Holds n m) (hb : k.bucket n = k.bucket c.name) (r : Reply × Store)
      (hr : Met k s n m c r) : Outcome k s c r

/-- **What a call comes to** in a sound store. -/
theorem call_outcome (h : Sound k s) (c : Call) : Outcome k s.fresh c (call k s c) := by
  rcases hc : c.notFound with _ | nf
  · cases c with
    | register fd kmalloc n =>
      show Outcome k s.fresh _ (fstoreRegister k fd kmalloc n s.fresh)
      rcases fstoreRegister_cases h.fresh fd kmalloc n with ⟨c, hne, he⟩ | ⟨m, hw, hlt, he⟩
      · rw [he]
        exact .refused fd kmalloc n c hne
      · rw [he]
        exact .added fd kmalloc n m hw hlt
    | _ => cases hc
  · rcases Store.walk_cases h.fresh c.name with hw | ⟨n, m, hitem, hb, hw⟩
    · rw [call_of_empty hc hw]
      exact .nothing c nf hc hw
    · exact .met c nf hc n m hitem hb _ (call_of_entry hc hw)

/-- What a call comes to is a sound store. -/
theorem Outcome.sound {c : Call} {r : Reply × Store} (h : Sound k s) (ho : Outcome k s c r) :
    Sound k r.2 := by
  cases ho with
  | refused => exact h
  | added fd kmalloc n m hw hlt => exact h.add hw hlt
  | nothing => exact h
  | met _ nf hc n m hitem hb r hr =>
    cases hr with
    | unregister => exact h.delete hitem
    | _ => exact h.of_eq rfl rfl

theorem sound_call (h : Sound k s) (c : Call) : Sound k (call k s c).2 :=
  (call_outcome h c).sound h.fresh

theorem sound_init (refs : MapId → ℤ) : Sound k (initModule refs) where
  number := rfl
  lt := show 0 < fstoreSize by decide
  one := List.nodup_nil
  ok := fun _ h ↦ absurd h List.not_mem_nil

theorem sound_step {w w' : World} {e : Event} (h : Sound k w.store) (hs : step k w e = some w') :
    Sound k w'.store := by
  cases e with
  | call c =>
    obtain rfl := Option.some.inj hs
    exact sound_call h c
  | put n m =>
    rw [step] at hs
    split_ifs at hs
    obtain rfl := Option.some.inj hs
    exact sound_call h _
  | outside m d =>
    obtain rfl := Option.some.inj hs
    exact h.of_eq rfl rfl

/-- **Every store that is reached is sound.** -/
theorem sound {refs : MapId → ℤ} {es : List Event} {w : World}
    (h : Run.exec (step k) (start refs) es = some w) : Sound k w.store :=
  Run.exec_invariant (I := fun w ↦ Sound k w.store) (fun _ _ _ ↦ sound_step) (sound_init refs) h

/-- The kernel with its hash, where every map is an array that can be mapped, of 16 values of 8
bytes under keys of 4. -/
def linux : Kernel := ⟨hashMin, fun _ ↦ ⟨bpfMapTypeArray, 4, 8, 16, bpfFMmapable⟩⟩

end Fstore
