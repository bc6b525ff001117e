import HugePageResearch.Fstore.Store

/-!
# Direct access to the arrays of the feature store

`fstore_get_map_array_start` shows a caller the values of an array map and keeps a reference on it;
`fstore_put_map_array` finds a map by the same name and drops one.

## The result

`balanced_iff`: over any run, every start takes a reference on exactly the map that it exposes, or
none, and every put drops that of the map that its start exposed, exactly where every start that
finds a map finds one that passes its checks, and every put finds the map of its start again in the
bucket of the name. In such a run the references on a map are those of others, one for each entry
and one for each start that was not put. A start keeps the reference that it took on a map that it
then refuses, and a put takes whatever the name leads to by then.
-/

namespace Fstore

variable {k : Kernel} {s : Store} {n : U64} {m : MapId}

/-- The counts of the maps after an event differ from those before by `d` on one map. -/
def Shifts (s t : Store) (m : MapId) (d : ℤ) : Prop :=
  ∀ x, t.refs x = s.refs x + if x = m then d else 0

/-- **What is expected of the references**: a start raises that of the map that it exposes, or else
none; a put lowers that of the map that its start exposed; a put without a start lowers none. -/
def KeepsBalance (k : Kernel) (w : World) : Event → Prop
  | .call (.getMapArrayStart n ks vs ne) =>
    let r := call k w.store (.getMapArrayStart n ks vs ne)
    (∃ m, r.1 = .array m ∧ Shifts w.store r.2 m 1) ∨
      (∀ m, r.1 ≠ .array m) ∧ r.2.refs = w.store.refs
  | .put n m => Shifts w.store (call k w.store (.putMapArray n)).2 m (-1)
  | .call (.putMapArray n) => (call k w.store (.putMapArray n)).2.refs = w.store.refs
  | _ => True

/-- The bucket of the name holds the map. -/
def InBucket (k : Kernel) (s : Store) (n : U64) (m : MapId) : Prop :=
  ∃ n', s.Holds n' m ∧ k.bucket n' = k.bucket n

/-- **The condition**: what the bucket of a start holds passes its checks; the bucket of a put still
holds the map of its start; that of a put without a start is empty. -/
def FindsItsMap (k : Kernel) (w : World) : Event → Prop
  | .call (.getMapArrayStart n ks vs ne) =>
    ∀ m, InBucket k w.store n m → Exposable (k.bpfMap m) ks vs ne
  | .put n m => InBucket k w.store n m
  | .call (.putMapArray n) => ∀ m, ¬ InBucket k w.store n m
  | _ => True

/-- Two walks over a bucket meet one map. -/
theorem InBucket.eq (h : Sound k s) {m' : MapId} (hm : InBucket k s n m)
    (hm' : InBucket k s n m') : m = m' := by
  obtain ⟨n₁, h₁, hb₁⟩ := hm
  obtain ⟨n₂, h₂, hb₂⟩ := hm'
  have he := h.one.eq_of_bucket_eq h₁ h₂ (hb₁.trans hb₂.symm)
  exact Option.some.inj (congrArg HashNode.map he)

/-- The bucket of a name holds no map or one. -/
theorem inBucket_cases (h : Sound k s) (n : U64) :
    (s.walk k n = [] ∧ ∀ m, ¬ InBucket k s n m) ∨
      ∃ n' m, InBucket k s n m ∧ s.walk k n = [⟨n', some m⟩] := by
  rcases Store.walk_cases h n with hw | ⟨n', m, hitem, hb, hw⟩
  · exact .inl ⟨hw, fun m ⟨n', hitem, hb⟩ ↦ Store.walk_eq_nil.1 hw _ hitem hb⟩
  · exact .inr ⟨n', m, ⟨n', hitem, hb⟩, hw⟩

theorem Shifts.ne {t : Store} {d : ℤ} (hd : d ≠ 0) (h : Shifts s t m d) : t.refs ≠ s.refs := by
  intro he
  have hm := h m
  rw [if_pos rfl, he] at hm
  omega

theorem Shifts.eq {t : Store} {m' : MapId} {d : ℤ} (hd : d ≠ 0) (h : Shifts s t m d)
    (h' : Shifts s t m' d) : m = m' := by
  by_contra hne
  have hm := (h m).symm.trans (h' m)
  rw [if_pos rfl, if_neg hne] at hm
  omega

theorem keepsBalance_start_iff (w : World) (h : Sound k w.store) (n : U64) (ks vs ne : ℕ) :
    KeepsBalance k w (.call (.getMapArrayStart n ks vs ne)) ↔
      FindsItsMap k w (.call (.getMapArrayStart n ks vs ne)) := by
  rcases inBucket_cases h.fresh n with ⟨hw, hnone⟩ | ⟨n', m, hm, hw⟩
  · have hcall : call k w.store (.getMapArrayStart n ks vs ne) = (.code (-enoent), w.store.fresh) :=
      fstoreGetMapArrayStart_of_empty hw ks vs ne
    rw [KeepsBalance, hcall]
    exact iff_of_true (.inr ⟨fun _ ↦ Reply.noConfusion, rfl⟩) fun m hm ↦ absurd hm (hnone m)
  · obtain ⟨r, hr, hreply⟩ := fstoreGetMapArrayStart_of_entry hw ks vs ne
    have hcall : call k w.store (.getMapArrayStart n ks vs ne) = _ := hr
    have hshift : Shifts w.store ((w.store.fresh.adjust m 1).touch (some m)) m 1 := fun _ ↦ rfl
    rw [KeepsBalance, hcall]
    rcases hreply with ⟨hpass, rfl⟩ | ⟨hfail, hcode⟩
    · refine iff_of_true (.inl ⟨m, rfl, hshift⟩) fun m' hm' ↦ ?_
      rw [← hm.eq h hm']
      exact hpass
    · -- refused, with the reference still taken
      refine iff_of_false ?_ fun hall ↦ hfail (hall m hm)
      rintro (⟨m', hr', -⟩ | ⟨-, heq⟩)
      · rcases hcode with rfl | rfl
        · cases hr'
        · cases hr'
      · exact hshift.ne one_ne_zero heq

theorem keepsBalance_put_iff (w : World) (h : Sound k w.store) (n : U64) (m : MapId) :
    KeepsBalance k w (.put n m) ↔ FindsItsMap k w (.put n m) := by
  rcases inBucket_cases h.fresh n with ⟨hw, hnone⟩ | ⟨n', m', hm', hw⟩
  · have hcall : call k w.store (.putMapArray n) = _ := fstorePutMapArray_of_empty hw
    rw [KeepsBalance, hcall]
    exact iff_of_false (fun hs ↦ hs.ne (by decide) rfl) (hnone m)
  · have hcall : call k w.store (.putMapArray n) = _ := fstorePutMapArray_of_entry hw
    have hshift : Shifts w.store (w.store.fresh.adjust m' (-1)) m' (-1) := fun _ ↦ rfl
    rw [KeepsBalance, hcall]
    constructor
    · intro hs
      obtain rfl := hs.eq (by decide) hshift
      exact hm'
    · intro hm
      obtain rfl := InBucket.eq h hm hm'
      exact hshift

theorem keepsBalance_unpaired_iff (w : World) (h : Sound k w.store) (n : U64) :
    KeepsBalance k w (.call (.putMapArray n)) ↔ FindsItsMap k w (.call (.putMapArray n)) := by
  rcases inBucket_cases h.fresh n with ⟨hw, hnone⟩ | ⟨n', m', hm', hw⟩
  · have hcall : call k w.store (.putMapArray n) = _ := fstorePutMapArray_of_empty hw
    rw [KeepsBalance, hcall]
    exact iff_of_true rfl hnone
  · have hcall : call k w.store (.putMapArray n) = _ := fstorePutMapArray_of_entry hw
    have hshift : Shifts w.store (w.store.fresh.adjust m' (-1)) m' (-1) := fun _ ↦ rfl
    rw [KeepsBalance, hcall]
    exact iff_of_false (hshift.ne (by decide)) fun hall ↦ hall m' hm'

/-- **One event** treats the references as expected exactly where it finds its map. -/
theorem keepsBalance_iff (w : World) (e : Event) (h : Sound k w.store) :
    KeepsBalance k w e ↔ FindsItsMap k w e := by
  match e with
  | .call (.getMapArrayStart n ks vs ne) => exact keepsBalance_start_iff w h n ks vs ne
  | .put n m => exact keepsBalance_put_iff w h n m
  | .call (.putMapArray n) => exact keepsBalance_unpaired_iff w h n
  | .call (.register ..) | .call (.unregister _) | .call (.get ..) | .call (.getValueSize _)
  | .call (.getNumKeys _) | .outside .. => exact Iff.rfl

/-! ### Runs -/

/-- The starts that exposed a map and were not put. -/
def World.exposures (w : World) (m : MapId) : ℕ := w.exposed.countP fun e ↦ e.2 = m

/-- What the references come to. -/
def Balanced (w : World) : Prop := ∀ m, w.store.spare m = w.outside m + w.exposures m

theorem Call.notFound_exposes {c : Call} {nf : Reply} (hc : c.notFound = some nf) :
    exposes c nf = [] := by
  cases c with
  | register => cases hc
  | _ =>
    obtain rfl := Option.some.inj hc
    rfl

/-- **A call that finds its map** changes the references beyond those of the entries by what it
exposes. -/
theorem spare_of_findsItsMap {w : World} (h : Sound k w.store) {c : Call}
    (hf : FindsItsMap k w (.call c)) (x : MapId) :
    (call k w.store c).2.spare x =
      w.store.spare x + (exposes c (call k w.store c).1).countP fun e ↦ e.2 = x := by
  have hout := call_outcome h c
  generalize call k w.store c = r at hout
  cases hout with
  | refused => exact (add_zero _).symm
  | added => exact (Store.spare_add x).trans (add_zero _).symm
  | nothing _ nf hc =>
    rw [Call.notFound_exposes hc]
    exact (add_zero _).symm
  | met _ nf hc n m hitem hb r hr =>
    cases hr with
    | unregister => exact (Store.spare_delete hitem x).trans (add_zero _).symm
    | get _ _ _ _ _ r _ _ hr =>
      rcases hr with rfl | rfl
      · exact (add_zero _).symm
      · exact (add_zero _).symm
    | getMapArrayStart n' ks vs ne r hr =>
      rcases hr with ⟨-, rfl⟩ | ⟨hfail, -⟩
      · show w.store.refs x + (if x = m then 1 else 0) - w.store.holders x =
          w.store.spare x + (List.countP _ [(n', m)] : ℕ)
        rw [Store.spare, List.countP_singleton]
        by_cases hx : x = m
        · simp only [hx, if_true, decide_true, Nat.cast_one]
          ring
        · simp [hx, Ne.symm hx]
      · exact absurd (hf m ⟨n, hitem, hb⟩) hfail
    | getValueSize => exact (add_zero _).symm
    | getNumKeys => exact (add_zero _).symm
    | putMapArray => exact absurd ⟨n, hitem, hb⟩ (hf m)

/-- A put that finds the map of its start. -/
theorem spare_put {w : World} (h : Sound k w.store) (hf : InBucket k w.store n m) (x : MapId) :
    (call k w.store (.putMapArray n)).2.spare x =
      w.store.spare x + if x = m then -1 else 0 := by
  rcases inBucket_cases h.fresh n with ⟨hw, hnone⟩ | ⟨n', m', hm', hw⟩
  · exact absurd hf (hnone m)
  · obtain rfl := InBucket.eq h hf hm'
    have hcall : call k w.store (.putMapArray n) = _ := fstorePutMapArray_of_entry hw
    rw [hcall]
    show w.store.refs x + _ - w.store.holders x = w.store.spare x + _
    rw [Store.spare]
    ring

theorem balanced_step {w w' : World} {e : Event} (h : Sound k w.store ∧ Balanced w)
    (hf : FindsItsMap k w e) (hs : step k w e = some w') : Sound k w'.store ∧ Balanced w' := by
  refine ⟨sound_step h.1 hs, fun x ↦ ?_⟩
  have hx := h.2 x
  cases e with
  | call c =>
    obtain rfl := Option.some.inj hs
    show (call k w.store c).2.spare x = w.outside x + ((exposes c _ ++ w.exposed).countP _ : ℕ)
    rw [spare_of_findsItsMap h.1 hf, hx, List.countP_append, World.exposures]
    push_cast
    ring
  | put n m =>
    rw [step] at hs
    split_ifs at hs with hmem
    obtain rfl := Option.some.inj hs
    show (call k w.store (.putMapArray n)).2.spare x =
      w.outside x + ((w.exposed.erase (n, m)).countP _ : ℕ)
    have hpos : m = x → 0 < w.exposed.countP fun e ↦ e.2 = x := by
      rintro rfl
      exact List.countP_pos_iff.2 ⟨_, hmem, by simp⟩
    rw [spare_put h.1 hf, hx, List.countP_erase, World.exposures]
    by_cases hxm : x = m
    · subst hxm
      have := hpos rfl
      simp only [hmem, decide_true, and_self, if_true]
      omega
    · simp [hxm, Ne.symm hxm]
  | outside m d =>
    obtain rfl := Option.some.inj hs
    show w.store.refs x + (if x = m then d else 0) - w.store.holders x =
      w.outside x + (if x = m then d else 0) + w.exposures x
    rw [Store.spare] at hx
    omega

/-- **When the references on exposed maps are in balance**: the events of a run treat them as
expected if and only if each finds its map; and then the references on a map are those of others,
one for each entry and one for each start that was not put. So a map that is exposed has a
reference, and one that is neither registered nor exposed nor held by others has none. -/
theorem balanced_iff {refs : MapId → ℤ} {es : List Event} {w : World}
    (h : Run.exec (step k) (start refs) es = some w) :
    (Run.Always (step k) (KeepsBalance k) (start refs) es ↔
      Run.Always (step k) (FindsItsMap k) (start refs) es) ∧
    (Run.Always (step k) (FindsItsMap k) (start refs) es →
      (∀ m, w.store.refs m = w.outside m + w.store.holders m + w.exposures m) ∧
      (∀ n m, 0 ≤ w.outside m → (n, m) ∈ w.exposed → 0 < w.store.refs m) ∧
      ∀ m, w.outside m = 0 → w.store.holders m = 0 → w.exposures m = 0 → w.store.refs m = 0) := by
  refine ⟨Run.always_congr (I := fun w ↦ Sound k w.store) (fun _ _ _ ↦ sound_step) (sound_init refs)
    keepsBalance_iff, fun hfinds ↦ ?_⟩
  obtain ⟨-, hbal⟩ : Sound k w.store ∧ Balanced w :=
    Run.exec_invariant_of_always (I := fun w ↦ Sound k w.store ∧ Balanced w)
      (fun _ _ _ ↦ balanced_step) ⟨sound_init refs, fun m ↦ rfl⟩ hfinds h
  have hrefs : ∀ m, w.store.refs m = w.outside m + w.store.holders m + w.exposures m := fun m ↦ by
    have hm := hbal m
    rw [Store.spare] at hm
    omega
  refine ⟨hrefs, fun n m hout hmem ↦ ?_, fun m hout hhold hexp ↦ ?_⟩
  · have hpos : 0 < w.exposures m := List.countP_pos_iff.2 ⟨_, hmem, by simp⟩
    have hm := hrefs m
    omega
  · rw [hrefs, hout, hhold, hexp]
    rfl

/-- A map is registered, shown to a caller that knows its sizes, and put. -/
def shownAndPut : List Event :=
  [.outside 7 1, .call (.register (some 7) true 1), .call (.getMapArrayStart 1 4 8 16), .put 1 7]

theorem balanced_shownAndPut : ∃ w, Run.exec (step linux) (start fun _ ↦ 0) shownAndPut = some w ∧
    Run.Always (step linux) (KeepsBalance linux) (start fun _ ↦ 0) shownAndPut ∧
    w.store.refs 7 = w.outside 7 + w.store.holders 7 + w.exposures 7 ∧ w.store.refs 7 = 2 := by
  obtain ⟨w, hw, hrefs⟩ : ∃ w, Run.exec (step linux) (start fun _ ↦ 0) shownAndPut = some w ∧
      w.store.refs 7 = 2 := ⟨_, rfl, by decide +kernel⟩
  have hfinds : Run.Always (step linux) (FindsItsMap linux) (start fun _ ↦ 0) shownAndPut := by
    refine ⟨trivial, fun w₁ h₁ ↦ ⟨trivial, fun w₂ h₂ ↦ ⟨fun m hm ↦ ?_, fun w₃ h₃ ↦ ⟨?_, fun _ _ ↦
      trivial⟩⟩⟩⟩
    · exact ⟨rfl, rfl, rfl, rfl, by show bpfFMmapable &&& bpfFMmapable ≠ 0; decide⟩
    · obtain rfl := Option.some.inj h₁
      obtain rfl := Option.some.inj h₂
      obtain rfl := Option.some.inj h₃
      exact ⟨1, List.mem_cons_self, rfl⟩
  obtain ⟨hiff, hbal⟩ := balanced_iff hw
  exact ⟨w, hw, hiff.2 hfinds, (hbal hfinds).1 7, hrefs⟩

/-- A map is registered and a caller expects values of another size. -/
def refusedStart : List Event :=
  [.call (.register (some 7) true 1), .call (.getMapArrayStart 1 4 9 16)]

/-- The caller gets `-EACCES`, and the map has one reference more. -/
theorem not_keepsBalance_refusedStart :
    (∃ w, Run.exec (step linux) (start fun _ ↦ 0) refusedStart = some w ∧ w.exposed = [] ∧
      w.store.refs 7 = 2) ∧
    ¬ Run.Always (step linux) (KeepsBalance linux) (start fun _ ↦ 0) refusedStart := by
  refine ⟨⟨_, rfl, by decide +kernel, by decide +kernel⟩, fun h ↦ ?_⟩
  obtain ⟨-, h⟩ := h
  obtain ⟨hkeeps, -⟩ := h _ rfl
  rcases hkeeps with ⟨m, hr, -⟩ | ⟨-, heq⟩
  · have hcode : (call linux (call linux (start fun _ ↦ 0).store (.register (some 7) true 1)).2
        (.getMapArrayStart 1 4 9 16)).1 = .code (-eacces) := by decide +kernel
    exact Reply.noConfusion (hcode.symm.trans hr)
  · exact absurd (congrFun heq 7) (by decide +kernel)

end Fstore
