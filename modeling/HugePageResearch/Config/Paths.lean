import HugePageResearch.Config.Merge

/-!
# What a merged configuration holds along its paths

A path of keys leads through the fields of a `ConfigBase` and the keys of a `dict`.
`ConfigBase.merge` of `kernmlops_config/__init__.py` follows the overrides along the paths that lead
through both; at the first value that is not merged the override takes the place of everything
below.

## The result

`merge_paths`: a merge raises exactly where the overrides of some `ConfigBase` on a path name a key
that is no field of it. Otherwise the overrides are found where they were given, the rest is as it
was, and merging them again changes nothing.
-/

namespace Config

variable {κ α : Type*} [DecidableEq κ]

/-! ### Paths -/

/-- The value of a field or of a key. -/
def Value.entry (k : κ) : Value κ α → Option (Value κ α)
  | .other _ => none
  | .dict items => Dict.getItem k items
  | .config _ fields => Dict.getItem k fields

/-- The value at a path of fields and keys. -/
def Value.at (v : Value κ α) : List κ → Option (Value κ α)
  | [] => some v
  | k :: p => (v.entry k).bind fun v ↦ v.at p

/-- The override at a path of keys. A `ConfigBase` among the overrides is one value. -/
def overrideAt (v : Value κ α) : List κ → Option (Value κ α)
  | [] => some v
  | k :: p =>
    match v with
    | .dict items => (Dict.getItem k items).bind fun v ↦ overrideAt v p
    | _ => none

mutual

/-- **The override gives a mapping for each `ConfigBase` that it names.** -/
def GivesMappings (o : Value κ α) : Value κ α → Prop
  | .dict new =>
    match o with
    | .config _ fields => EntriesGiveMappings fields new
    | .dict old => EntriesGiveMappings old new
    | .other _ => True
  | _ =>
    match o with
    | .config _ _ => False
    | _ => True

/-- The overrides of the keys of a mapping do. -/
def EntriesGiveMappings (old : List (κ × Value κ α)) : List (κ × Value κ α) → Prop
  | [] => True
  | (k, v) :: new =>
    (∀ o ∈ Dict.getItem k old, GivesMappings o v) ∧ EntriesGiveMappings old new

end

mutual

/-- There is no `ConfigBase` in the value, as there is none in what a YAML file holds. -/
def Value.Plain : Value κ α → Prop
  | .other _ => True
  | .dict items => AllPlain items
  | .config _ _ => False

/-- Nor in the values of a mapping. -/
def AllPlain : List (κ × Value κ α) → Prop
  | [] => True
  | (_, v) :: es => v.Plain ∧ AllPlain es

end

/-- The value is a `ConfigBase` or a `dict`, into which the override is merged. -/
def Merges : Value κ α → Value κ α → Prop
  | .config _ _, .dict _ => True
  | .dict _, .dict _ => True
  | _, _ => False

/-! ### The merged paths -/

/-- **An override names a key that is no field**, at the `ConfigBase` at some path. -/
def NamesNoField (o v : Value κ α) : Prop :=
  ∃ p cls fields new k, o.at p = some (.config cls fields) ∧ overrideAt v p = some (.dict new) ∧
    k ∈ new.map Prod.fst ∧ k ∉ fields.map Prod.fst

/-- **The result of a merge**, path by path. -/
structure MergedPaths (o v m : Value κ α) : Prop where
  /-- An override that is not merged is there as it was given. -/
  overridden : ∀ p w, overrideAt v p = some w → (∀ o' ∈ o.at p, ¬ Merges o' w) → m.at p = some w
  /-- What no override reaches is there as it was. -/
  kept : ∀ p new k r, overrideAt v p = some (.dict new) → k ∉ new.map Prod.fst →
    m.at (p ++ k :: r) = o.at (p ++ k :: r)
  /-- A `ConfigBase` with overrides is one of the same class and fields. -/
  config : ∀ p new cls fields, overrideAt v p = some (.dict new) →
    o.at p = some (.config cls fields) → ∃ fields', m.at p = some (.config cls fields') ∧
      ∀ k, k ∈ fields'.map Prod.fst ↔ k ∈ fields.map Prod.fst
  /-- A `dict` with overrides is one with their keys in addition. -/
  dict : ∀ p new items, overrideAt v p = some (.dict new) → o.at p = some (.dict items) →
    ∃ items', m.at p = some (.dict items') ∧
      ∀ k, k ∈ items'.map Prod.fst ↔ k ∈ items.map Prod.fst ∨ k ∈ new.map Prod.fst

omit [DecidableEq κ] in
theorem AllPlain.of_mem {es : List (κ × Value κ α)} {e : κ × Value κ α} (h : AllPlain es)
    (he : e ∈ es) : e.2.Plain := by
  induction es with
  | nil => exact absurd he List.not_mem_nil
  | cons e' es ih =>
    obtain ⟨hv, hes⟩ := h
    rcases List.mem_cons.1 he with rfl | he
    · exact hv
    · exact ih hes he

/-! ### One level -/

section Level

variable {o v m : Value κ α} {old were new : List (κ × Value κ α)} {k : κ}

/-- What merging an override into a value that may not be there makes of it. -/
def MergesTo : Option (Value κ α) → Value κ α → Value κ α → Prop
  | none, v, m => m = v
  | some o, v, m => (mergeItem o v).1 = .ok m

/-- **What the keys of a mapping hold after a merge that returns.** -/
theorem exists_getItem_mergeMap (hnd : (new.map Prod.fst).Nodup)
    (h : (mergeMap old were new).1 = .ok ()) (hv : Dict.getItem k new = some v) :
    ∃ m, Dict.getItem k (mergeMap old were new).2.1 = some m ∧
      MergesTo (Dict.getItem k old) v m := by
  induction new generalizing old were with
  | nil => cases hv
  | cons e new ih =>
    obtain ⟨k₁, v₁⟩ := e
    obtain ⟨hk₁, hnd⟩ := List.nodup_cons.1 hnd
    rw [Dict.getItem] at hv
    rcases mergeMap_cons old were k₁ v₁ new with
      ⟨hnone, heq⟩ | ⟨o, m, o', hsome, hitem, heq⟩ | ⟨o, e, o', -, -, heq⟩
    · rw [heq] at h ⊢
      split_ifs at hv with hkey
      · obtain rfl := Option.some.inj hv
        obtain rfl : k₁ = k := hkey
        refine ⟨v₁, ?_, by rw [hnone]; rfl⟩
        rw [(getItem_mergeMap _ _ hk₁).1, Dict.getItem_setItem, if_pos rfl]
      · have hrest := ih hnd h hv
        rwa [Dict.getItem_setItem_of_ne hkey] at hrest
    · rw [heq] at h ⊢
      split_ifs at hv with hkey
      · obtain rfl := Option.some.inj hv
        obtain rfl : k₁ = k := hkey
        refine ⟨m, ?_, by rw [hsome, MergesTo, hitem]⟩
        rw [(getItem_mergeMap _ _ hk₁).1, Dict.getItem_setItem, if_pos rfl]
      · have hrest := ih hnd h hv
        rwa [Dict.getItem_setItem_of_ne hkey] at hrest
    · rw [heq] at h
      cases h

/-- **A merge that returns makes a mapping out of two, or takes the override.** -/
theorem mergeItem_dict_cases (h : (mergeItem o (.dict new)).1 = .ok m) :
    (∃ cls fields, o = .config cls fields ∧ (mergeMap fields fields new).1 = .ok () ∧
      (∀ e ∈ (mergeMap fields fields new).2.1, e.1 ∈ fields.map Prod.fst) ∧
      m = .config cls (mergeMap fields fields new).2.1) ∨
    (∃ old, o = .dict old ∧ (mergeMap old old new).1 = .ok () ∧
      m = .dict (mergeMap old old new).2.1) ∨
    (∃ a, o = .other a ∧ m = .dict new) := by
  cases o with
  | other a =>
    refine .inr (.inr ⟨a, rfl, ?_⟩)
    rw [mergeItem] at h
    exact (Except.ok.inj h).symm
  | dict old =>
    refine .inr (.inl ⟨old, rfl, ?_⟩)
    rw [mergeItem] at h
    cases hreturns : (mergeMap old old new).1 with
    | error e =>
      rw [hreturns] at h
      cases h
    | ok u =>
      rw [hreturns] at h
      exact ⟨rfl, (Except.ok.inj h).symm⟩
  | config cls fields =>
    refine .inl ⟨cls, fields, rfl, ?_⟩
    rw [mergeItem] at h
    cases hreturns : (mergeMap fields fields new).1 with
    | error e =>
      rw [hreturns] at h
      cases h
    | ok u =>
      rw [hreturns] at h
      change replace cls fields (mergeMap fields fields new).2.1 = .ok m at h
      rw [replace] at h
      split_ifs at h with hknown
      exact ⟨rfl, hknown, (Except.ok.inj h).symm⟩

/-- **What a key holds after a merge**: what it held, where there is no override, and otherwise what
the override makes of it. -/
theorem entry_mergeItem (hnd : (new.map Prod.fst).Nodup)
    (h : (mergeItem o (.dict new)).1 = .ok m) (k : κ) :
    (k ∉ new.map Prod.fst → m.entry k = o.entry k) ∧
      ∀ v, Dict.getItem k new = some v → ∃ m', m.entry k = some m' ∧ MergesTo (o.entry k) v m' := by
  rcases mergeItem_dict_cases h with ⟨cls, fields, rfl, hreturns, -, rfl⟩ |
    ⟨old, rfl, hreturns, rfl⟩ | ⟨a, rfl, rfl⟩
  · exact ⟨fun hk ↦ (getItem_mergeMap fields fields hk).1,
      fun v hv ↦ exists_getItem_mergeMap hnd hreturns hv⟩
  · exact ⟨fun hk ↦ (getItem_mergeMap old old hk).1,
      fun v hv ↦ exists_getItem_mergeMap hnd hreturns hv⟩
  · exact ⟨fun hk ↦ Dict.getItem_eq_none hk, fun v hv ↦ ⟨v, hv, rfl⟩⟩

end Level

/-! ### Paths through a merge -/

section Paths

variable {o v m w : Value κ α} {new : List (κ × Value κ α)} {k : κ} {p r : List κ}

@[simp] theorem Value.at_nil (v : Value κ α) : v.at [] = some v := by rw [Value.at]

theorem Value.at_cons (v : Value κ α) (k : κ) (p : List κ) :
    v.at (k :: p) = (v.entry k).bind fun v ↦ v.at p := by rw [Value.at]

theorem Value.at_append (v : Value κ α) (p r : List κ) :
    v.at (p ++ r) = (v.at p).bind fun v ↦ v.at r := by
  induction p generalizing v with
  | nil => rw [Value.at_nil]; rfl
  | cons k p ih =>
    rw [List.cons_append, Value.at_cons, Value.at_cons]
    rcases v.entry k with - | v'
    · rfl
    · exact ih v'

/-- An override along a path goes through a mapping at each key. -/
theorem overrideAt_cons (h : overrideAt v (k :: p) = some w) :
    ∃ new v', v = .dict new ∧ Dict.getItem k new = some v' ∧ overrideAt v' p = some w := by
  cases v with
  | dict new =>
    obtain ⟨v', hv', hw⟩ := Option.bind_eq_some_iff.1 h
    exact ⟨new, v', rfl, hv', hw⟩
  | other a => cases h
  | config cls fields => cases h

/-- An override is where it is given. -/
theorem at_of_overrideAt (h : overrideAt v p = some w) : v.at p = some w := by
  induction p generalizing v with
  | nil => rwa [Value.at_nil]
  | cons k p ih =>
    obtain ⟨new, v', rfl, hv', hw⟩ := overrideAt_cons h
    rw [Value.at_cons, show (Value.dict new).entry k = some v' from hv']
    exact ih hw

theorem Value.Distinct.getItem (h : (Value.dict new).Distinct)
    (hv : Dict.getItem k new = some v) : v.Distinct :=
  h.2.of_mem ((Dict.getItem_eq_some h.1).1 hv)

/-- **One key of a path through a merge.** -/
theorem exists_mergesTo (hd : (Value.dict new).Distinct) (h : (mergeItem o (.dict new)).1 = .ok m)
    (hv : Dict.getItem k new = some v) :
    (o.entry k = none ∧ m.entry k = some v) ∨
      ∃ o' m', o.entry k = some o' ∧ m.entry k = some m' ∧ (mergeItem o' v).1 = .ok m' := by
  obtain ⟨m', hm', hmerges⟩ := (entry_mergeItem hd.1 h k).2 v hv
  rcases ho : o.entry k with - | o'
  · rw [ho] at hmerges
    obtain rfl : m' = v := hmerges
    exact .inl ⟨rfl, hm'⟩
  · rw [ho] at hmerges
    exact .inr ⟨o', m', rfl, hm', hmerges⟩

/-- An override that is not merged takes the place of the value. -/
theorem eq_of_not_merges (hnot : ¬ Merges o v) (h : (mergeItem o v).1 = .ok m) : m = v := by
  cases v with
  | dict new =>
    rcases mergeItem_dict_cases h with ⟨cls, fields, rfl, -⟩ | ⟨old, rfl, -⟩ | ⟨a, rfl, rfl⟩
    · exact absurd trivial hnot
    · exact absurd trivial hnot
    · rfl
  | other a =>
    cases o with
    | config cls fields => cases h
    | dict old => exact (Except.ok.inj h).symm
    | other b => exact (Except.ok.inj h).symm
  | config cls fields =>
    cases o with
    | config cls' fields' => cases h
    | dict old => exact (Except.ok.inj h).symm
    | other b => exact (Except.ok.inj h).symm

/-- **An override that is not merged is there as it was given.** -/
theorem at_of_not_merges (hd : v.Distinct) (h : (mergeItem o v).1 = .ok m)
    (hw : overrideAt v p = some w) (hnot : ∀ o' ∈ o.at p, ¬ Merges o' w) : m.at p = some w := by
  induction p generalizing o v m with
  | nil =>
    obtain rfl : v = w := Option.some.inj hw
    have hnot : ¬ Merges o v := hnot o (by rw [Value.at_nil]; rfl)
    rw [Value.at_nil, eq_of_not_merges hnot h]
  | cons k p ih =>
    obtain ⟨new, v', rfl, hv', hw⟩ := overrideAt_cons hw
    rw [Value.at_cons] at hnot ⊢
    rcases exists_mergesTo hd h hv' with ⟨-, hm⟩ | ⟨o', m', ho, hm, h'⟩
    · rw [hm]
      exact at_of_overrideAt hw
    · rw [ho] at hnot
      rw [hm]
      exact ih (hd.getItem hv') h' hw hnot

/-- **What no override reaches is there as it was.** -/
theorem at_of_not_reached (hd : v.Distinct) (h : (mergeItem o v).1 = .ok m)
    (hnew : overrideAt v p = some (.dict new)) (hk : k ∉ new.map Prod.fst) :
    m.at (p ++ k :: r) = o.at (p ++ k :: r) := by
  induction p generalizing o v m with
  | nil =>
    obtain rfl : v = .dict new := Option.some.inj hnew
    rw [List.nil_append, Value.at_cons, Value.at_cons, (entry_mergeItem hd.1 h k).1 hk]
  | cons k₁ p ih =>
    obtain ⟨new₁, v', rfl, hv', hnew⟩ := overrideAt_cons hnew
    rw [List.cons_append, Value.at_cons, Value.at_cons]
    rcases exists_mergesTo hd h hv' with ⟨ho, hm⟩ | ⟨o', m', ho, hm, h'⟩
    · rw [ho, hm]
      show v'.at (p ++ k :: r) = none
      rw [Value.at_append, at_of_overrideAt hnew, Option.bind_some, Value.at_cons,
        show (Value.dict new).entry k = none from Dict.getItem_eq_none hk]
      rfl
    · rw [ho, hm]
      exact ih (hd.getItem hv') h' hnew

/-- **Where an override meets a value**, the two are merged. -/
theorem exists_mergeItem_at (hd : v.Distinct) (h : (mergeItem o v).1 = .ok m)
    (hw : overrideAt v p = some w) {o' : Value κ α} (ho : o.at p = some o') :
    ∃ m', m.at p = some m' ∧ (mergeItem o' w).1 = .ok m' := by
  induction p generalizing o v m with
  | nil =>
    obtain rfl : v = w := Option.some.inj hw
    rw [Value.at_nil] at ho
    obtain rfl := Option.some.inj ho
    exact ⟨m, Value.at_nil m, h⟩
  | cons k p ih =>
    obtain ⟨new, v', rfl, hv', hw⟩ := overrideAt_cons hw
    rw [Value.at_cons] at ho ⊢
    rcases exists_mergesTo hd h hv' with ⟨hnone, -⟩ | ⟨o₁, m₁, ho₁, hm₁, h'⟩
    · rw [hnone] at ho
      cases ho
    · rw [ho₁] at ho
      rw [hm₁]
      exact ih (hd.getItem hv') h' hw ho

/-- **The result of a merge that returns**, path by path. -/
theorem mergedPaths (hd : v.Distinct) (h : (mergeItem o v).1 = .ok m) : MergedPaths o v m where
  overridden _ _ hw hnot := at_of_not_merges hd h hw hnot
  kept _ _ _ _ hnew hk := at_of_not_reached hd h hnew hk
  config p new cls fields hnew ho := by
    obtain ⟨m', hm', hitem⟩ := exists_mergeItem_at hd h hnew ho
    rcases mergeItem_dict_cases hitem with ⟨cls', fields', heq, hreturns, hknown, rfl⟩ |
      ⟨old, heq, -⟩ | ⟨a, heq, -⟩
    · obtain ⟨rfl, rfl⟩ := Value.config.inj heq
      refine ⟨_, hm', fun k ↦ ⟨fun hk ↦ ?_, fun hk ↦ (mem_keys_mergeMap hreturns).2 (.inl hk)⟩⟩
      obtain ⟨e, he, rfl⟩ := List.mem_map.1 hk
      exact hknown e he
    · cases heq
    · cases heq
  dict p new items hnew ho := by
    obtain ⟨m', hm', hitem⟩ := exists_mergeItem_at hd h hnew ho
    rcases mergeItem_dict_cases hitem with ⟨cls, fields, heq, -⟩ | ⟨old, heq, hreturns, rfl⟩ |
      ⟨a, heq, -⟩
    · cases heq
    · obtain rfl := Value.dict.inj heq
      exact ⟨_, hm', fun k ↦ mem_keys_mergeMap hreturns⟩
    · cases heq

end Paths

/-! ### When a merge raises -/

section Raises

variable {o v : Value κ α} {old new : List (κ × Value κ α)} {k : κ}

theorem anyRaises_iff : anyRaises old new = true ↔
    ∃ e ∈ new, ∃ o ∈ Dict.getItem e.1 old, raises o e.2 = true := by
  induction new with
  | nil => simp [anyRaises]
  | cons e new ih =>
    rw [anyRaises, Bool.or_eq_true, ih, List.exists_mem_cons_iff, Option.any_eq_true]
    exact Iff.rfl

theorem entriesGiveMappings_iff : EntriesGiveMappings old new ↔
    ∀ e ∈ new, ∀ o ∈ Dict.getItem e.1 old, GivesMappings o e.2 := by
  induction new with
  | nil => simp [EntriesGiveMappings]
  | cons e new ih => rw [EntriesGiveMappings, ih, List.forall_mem_cons]

/-- The overrides of a `dict` or of a `ConfigBase`, key by key. -/
theorem givesMappings_dict : GivesMappings o (.dict new) ↔
    ∀ e ∈ new, ∀ o', o.entry e.1 = some o' → GivesMappings o' e.2 := by
  cases o with
  | other a =>
    rw [GivesMappings]
    exact iff_of_true trivial fun e _ o' ho ↦ by cases ho
  | dict old =>
    rw [GivesMappings, entriesGiveMappings_iff]
    exact Iff.rfl
  | config cls fields =>
    rw [GivesMappings, entriesGiveMappings_iff]
    exact Iff.rfl

/-- An override names no field where one at a key does, or where it is given to a `ConfigBase`. -/
theorem namesNoField_dict (hd : (Value.dict new).Distinct) : NamesNoField o (.dict new) ↔
    (∃ cls fields k, o = .config cls fields ∧ k ∈ new.map Prod.fst ∧ k ∉ fields.map Prod.fst) ∨
      ∃ e ∈ new, ∃ o', o.entry e.1 = some o' ∧ NamesNoField o' e.2 := by
  constructor
  · rintro ⟨p, cls, fields, new', k, hat, hover, hk, hnot⟩
    rcases p with - | ⟨k₁, p⟩
    · rw [Value.at_nil] at hat
      obtain rfl := Value.dict.inj (Option.some.inj hover)
      exact .inl ⟨cls, fields, k, Option.some.inj hat, hk, hnot⟩
    · obtain ⟨new₁, v', hnew₁, hv', hover⟩ := overrideAt_cons hover
      obtain rfl := Value.dict.inj hnew₁
      rw [Value.at_cons] at hat
      obtain ⟨o', ho', hat⟩ := Option.bind_eq_some_iff.1 hat
      exact .inr ⟨(k₁, v'), (Dict.getItem_eq_some hd.1).1 hv', o', ho', p, cls, fields, new', k,
        hat, hover, hk, hnot⟩
  · rintro (⟨cls, fields, k, rfl, hk, hnot⟩ | ⟨e, he, o', ho', p, cls, fields, new', k, hat, hover,
      hk, hnot⟩)
    · exact ⟨[], cls, fields, new, k, Value.at_nil _, rfl, hk, hnot⟩
    · refine ⟨e.1 :: p, cls, fields, new', k, ?_, ?_, hk, hnot⟩
      · rw [Value.at_cons, ho']
        exact hat
      · show (Dict.getItem e.1 new).bind _ = _
        rw [(Dict.getItem_eq_some hd.1).2 he]
        exact hover

theorem not_namesNoField (hv : ∀ new, v ≠ .dict new) : ¬ NamesNoField o v := by
  rintro ⟨p, cls, fields, new, k, -, hover, -⟩
  rcases p with - | ⟨k₁, p⟩
  · exact hv new (Option.some.inj hover)
  · obtain ⟨new₁, -, hnew₁, -⟩ := overrideAt_cons hover
    exact hv new₁ hnew₁

/-- **A merge raises exactly where an override names no field.** -/
theorem raises_iff (hd : v.Distinct) (hgives : GivesMappings o v) :
    raises o v = true ↔ NamesNoField o v := by
  induction v using Value.induction generalizing o with
  | other a =>
    refine iff_of_false (fun h ↦ ?_) (not_namesNoField fun new heq ↦ by cases heq)
    cases o with
    | config cls fields => exact hgives
    | dict old => cases h
    | other b => cases h
  | config cls' fields' =>
    refine iff_of_false (fun h ↦ ?_) (not_namesNoField fun new heq ↦ by cases heq)
    cases o with
    | config cls fields => exact hgives
    | dict old => cases h
    | other b => cases h
  | dict new ih =>
    have hentries : (∃ e ∈ new, ∃ o' ∈ o.entry e.1, raises o' e.2 = true) ↔
        ∃ e ∈ new, ∃ o', o.entry e.1 = some o' ∧ NamesNoField o' e.2 := by
      refine exists_congr fun e ↦ and_congr_right fun he ↦ exists_congr fun o' ↦
        and_congr_right fun ho ↦ ?_
      exact ih e he (hd.2.of_mem he) (givesMappings_dict.1 hgives e he o' ho)
    rw [namesNoField_dict hd, ← hentries]
    -- only a `ConfigBase` has names of fields to miss
    cases o with
    | other a =>
      refine iff_of_false (by rw [raises]; exact Bool.false_ne_true) ?_
      rintro (⟨cls, fields, k, heq, -⟩ | ⟨e, -, o', ho', -⟩)
      · cases heq
      · cases ho'
    | dict old =>
      rw [raises, anyRaises_iff]
      refine ⟨.inr, fun h ↦ h.resolve_left ?_⟩
      rintro ⟨cls, fields, k, heq, -⟩
      cases heq
    | config cls fields =>
      rw [raises, Bool.or_eq_true, anyRaises_iff, Bool.not_eq_true', ← Bool.not_eq_true,
        List.all_eq_true]
      refine or_congr_left ⟨fun h ↦ ?_, ?_⟩
      · obtain ⟨e, he⟩ := not_forall.1 h
        obtain ⟨he, hnot⟩ := Classical.not_imp.1 he
        exact ⟨cls, fields, e.1, rfl, List.mem_map_of_mem he, fun hk ↦ hnot (decide_eq_true hk)⟩
      · rintro ⟨cls', fields', k, heq, hk, hnot⟩ hall
        obtain ⟨-, rfl⟩ := Value.config.inj heq
        obtain ⟨e, he, rfl⟩ := List.mem_map.1 hk
        exact hnot (of_decide_eq_true (hall e he))

end Raises

/-! ### Merging again -/

section Again

variable {o v m : Value κ α} {old were new : List (κ × Value κ α)} {k : κ}

/-- **A mapping in which each key holds what its override makes of it** is not changed. -/
theorem mergeMap_self (were : List (κ × Value κ α))
    (h : ∀ e ∈ new, ∃ o, Dict.getItem e.1 old = some o ∧ (mergeItem o e.2).1 = .ok o) :
    (mergeMap old were new).1 = .ok () ∧ (mergeMap old were new).2.1 = old := by
  induction new generalizing were with
  | nil => exact ⟨rfl, rfl⟩
  | cons e new ih =>
    obtain ⟨⟨o, ho, hitem⟩, hnew⟩ := List.forall_mem_cons.1 h
    rcases mergeMap_cons old were e.1 e.2 new with
      ⟨hnone, -⟩ | ⟨o₁, m, o', hsome, hres, heq⟩ | ⟨o₁, e', o', hsome, hres, -⟩
    · cases hnone.symm.trans ho
    · obtain rfl := Option.some.inj (hsome.symm.trans ho)
      rw [hres] at hitem
      obtain rfl := Except.ok.inj hitem
      rw [Dict.setItem_of_getItem hsome] at heq
      rw [heq]
      exact ih _ hnew
    · obtain rfl := Option.some.inj (hsome.symm.trans ho)
      rw [hres] at hitem
      cases hitem

theorem mergeItem_dict_self
    (h : ∀ e ∈ new, ∃ o, Dict.getItem e.1 old = some o ∧ (mergeItem o e.2).1 = .ok o) :
    (mergeItem (.dict old) (.dict new)).1 = .ok (.dict old) := by
  obtain ⟨hreturns, hsame⟩ := mergeMap_self old h
  rw [mergeItem, hreturns, hsame]
  rfl

theorem mergeItem_config_self {cls : PyStr} {fields : List (κ × Value κ α)}
    (h : ∀ e ∈ new, ∃ o, Dict.getItem e.1 fields = some o ∧ (mergeItem o e.2).1 = .ok o) :
    (mergeItem (.config cls fields) (.dict new)).1 = .ok (.config cls fields) := by
  obtain ⟨hreturns, hsame⟩ := mergeMap_self fields h
  rw [mergeItem, hreturns, hsame]
  exact if_pos fun e he ↦ List.mem_map_of_mem he

/-- **What was taken over is not changed**, where it gives a mapping to each `ConfigBase` in it. -/
theorem mergeItem_self (hd : v.Distinct) (hgives : GivesMappings v v) :
    (mergeItem v v).1 = .ok v := by
  induction v using Value.induction with
  | other a => rfl
  | config cls fields => exact absurd hgives id
  | dict new ih =>
    refine mergeItem_dict_self fun e he ↦ ?_
    have hentry : Dict.getItem e.1 new = some e.2 := (Dict.getItem_eq_some hd.1).2 he
    exact ⟨e.2, hentry, ih e he (hd.2.of_mem he) (givesMappings_dict.1 hgives e he e.2 hentry)⟩

/-- **Merging again changes nothing.** -/
theorem mergeItem_again (hd : v.Distinct) (h : (mergeItem o v).1 = .ok m)
    (hgives : GivesMappings m v) : (mergeItem m v).1 = .ok m := by
  induction v using Value.induction generalizing o m with
  | other a =>
    obtain rfl := eq_of_not_merges (fun hm ↦ by cases o <;> exact hm) h
    rfl
  | config cls fields =>
    obtain rfl := eq_of_not_merges (fun hm ↦ by cases o <;> exact hm) h
    exact absurd hgives id
  | dict new ih =>
    have hstep : ∀ e ∈ new, ∃ m', m.entry e.1 = some m' ∧ (mergeItem m' e.2).1 = .ok m' := by
      intro e he
      have hentry : Dict.getItem e.1 new = some e.2 := (Dict.getItem_eq_some hd.1).2 he
      rcases exists_mergesTo hd h hentry with ⟨-, hm⟩ | ⟨o', m', -, hm, h'⟩
      · exact ⟨e.2, hm, mergeItem_self (hd.2.of_mem he) (givesMappings_dict.1 hgives e he e.2 hm)⟩
      · exact ⟨m', hm, ih e he (hd.2.of_mem he) h' (givesMappings_dict.1 hgives e he m' hm)⟩
    rcases mergeItem_dict_cases h with ⟨cls, fields, rfl, -, -, rfl⟩ | ⟨old, rfl, -, rfl⟩ |
      ⟨a, rfl, rfl⟩
    · exact mergeItem_config_self hstep
    · exact mergeItem_dict_self hstep
    · exact mergeItem_dict_self hstep

/-- An override that raises nothing gives a mapping for each `ConfigBase` that it names. -/
theorem GivesMappings.of_not_raises (h : raises o v = false) : GivesMappings o v := by
  induction v using Value.induction generalizing o with
  | other a =>
    cases o with
    | config cls fields => cases h
    | dict old => exact trivial
    | other b => exact trivial
  | config cls' fields' =>
    cases o with
    | config cls fields => cases h
    | dict old => exact trivial
    | other b => exact trivial
  | dict new ih =>
    refine givesMappings_dict.2 fun e he o' ho ↦ ih e he (Bool.eq_false_iff.2 fun hyes ↦ ?_)
    cases o with
    | other a => cases ho
    | dict old =>
      rw [raises, Bool.eq_false_iff, ne_eq, anyRaises_iff] at h
      exact h ⟨e, he, o', ho, hyes⟩
    | config cls fields =>
      rw [raises, Bool.or_eq_false_iff, Bool.eq_false_iff (b := anyRaises _ _), ne_eq,
        anyRaises_iff] at h
      exact h.2 ⟨e, he, o', ho, hyes⟩

/-- A value without a `ConfigBase` in it gives a mapping wherever it has one. -/
theorem givesMappings_self (hd : v.Distinct) (hplain : v.Plain) : GivesMappings v v := by
  induction v using Value.induction with
  | other a => exact trivial
  | config cls fields => exact absurd hplain id
  | dict new ih =>
    refine givesMappings_dict.2 fun e he o' ho ↦ ?_
    obtain rfl := Option.some.inj (((Dict.getItem_eq_some hd.1).2 he).symm.trans ho)
    exact ih e he (hd.2.of_mem he) (hplain.of_mem he)

/-- **Overrides without a `ConfigBase` in them** can be merged again. -/
theorem GivesMappings.again (hd : v.Distinct) (hplain : v.Plain) (hgives : GivesMappings o v)
    (h : (mergeItem o v).1 = .ok m) : GivesMappings m v := by
  induction v using Value.induction generalizing o m with
  | other a =>
    obtain rfl := eq_of_not_merges (fun hm ↦ by cases o <;> exact hm) h
    exact trivial
  | config cls fields => exact absurd hplain id
  | dict new ih =>
    refine givesMappings_dict.2 fun e he m' hm ↦ ?_
    have hentry : Dict.getItem e.1 new = some e.2 := (Dict.getItem_eq_some hd.1).2 he
    rcases exists_mergesTo hd h hentry with ⟨-, hm'⟩ | ⟨o', m₁, ho, hm', h'⟩
    · obtain rfl := Option.some.inj (hm'.symm.trans hm)
      exact givesMappings_self (hd.2.of_mem he) (hplain.of_mem he)
    · obtain rfl := Option.some.inj (hm'.symm.trans hm)
      exact ih e he (hd.2.of_mem he) (hplain.of_mem he) (givesMappings_dict.1 hgives e he o' ho) h'

/-- **A configuration with overrides**: a merge raises exactly where the overrides name a key that
is no field of the `ConfigBase` that they are for. What it returns is as the overrides say along
every path, and merging them again changes nothing: it returns the same, wherever they still give a
mapping for each `ConfigBase`, as overrides without a `ConfigBase` among them do. -/
theorem merge_paths (cls : PyStr) (fields : List (κ × Value κ α))
    (configOverrides : Overrides κ α)
    (hgives : GivesMappings (.config cls fields) (.dict configOverrides.items)) :
    ((∃ e, (merge cls fields configOverrides).1 = .error e) ↔
      NamesNoField (.config cls fields) (.dict configOverrides.items)) ∧
    ∀ m, (merge cls fields configOverrides).1 = .ok m →
      MergedPaths (.config cls fields) (.dict configOverrides.items) m ∧
      ∃ fields', m = .config cls fields' ∧
        (∀ m', (merge cls fields' configOverrides).1 = .ok m' → m' = m) ∧
        (GivesMappings m (.dict configOverrides.items) →
          (merge cls fields' configOverrides).1 = .ok m) ∧
        ((Value.dict configOverrides.items).Plain →
          GivesMappings m (.dict configOverrides.items)) := by
  have hd := configOverrides.distinct
  refine ⟨(itemSpec _ hd _).raises.trans (raises_iff hd hgives), fun m hm ↦
    ⟨mergedPaths hd hm, ?_⟩⟩
  rcases mergeItem_dict_cases hm with ⟨cls', fields', heq, -, -, rfl⟩ | ⟨old, heq, -⟩ |
    ⟨a, heq, -⟩
  · obtain ⟨rfl, rfl⟩ := Value.config.inj heq
    refine ⟨_, rfl, fun m' hm' ↦ ?_, mergeItem_again hd hm, fun hplain ↦ hgives.again hd hplain hm⟩
    have hno : raises (.config cls (mergeMap fields fields configOverrides.items).2.1)
        (.dict configOverrides.items) = false :=
      Bool.eq_false_iff.2 fun hyes ↦ by
        obtain ⟨e, he⟩ := (itemSpec _ hd _).raises.2 hyes
        cases hm'.symm.trans he
    exact Except.ok.inj (hm'.symm.trans (mergeItem_again hd hm (.of_not_raises hno)))
  · cases heq
  · cases heq

end Again

/-- The override of the matching is found where it was given. -/
theorem merge_paths_matchingDisabled : ∃ m,
    (merge "HugepageHarnessConfig".toList hugepageHarnessFields matchingDisabled).1 = .ok m ∧
      m.at ["matching".toList, "enabled".toList] = some (.other (.bool false)) := by
  have hget : Dict.getItem "matching".toList hugepageHarnessFields =
      some (.dict [("enabled".toList, .other (.bool true))]) := by rfl
  have hgives : GivesMappings (.config "HugepageHarnessConfig".toList hugepageHarnessFields)
      (.dict matchingDisabled.items) := by
    refine givesMappings_dict.2 fun e he o ho ↦ ?_
    obtain rfl := List.mem_singleton.1 he
    obtain rfl := Option.some.inj (hget.symm.trans ho)
    refine givesMappings_dict.2 fun e he o ho ↦ ?_
    obtain rfl := List.mem_singleton.1 he
    obtain rfl : Value.other (.bool true) = o := Option.some.inj ho
    exact trivial
  refine ⟨_, rfl, ?_⟩
  refine ((merge_paths _ _ matchingDisabled hgives).2 _ rfl).1.overridden _ _ rfl fun o ho ↦ ?_
  exact fun hmerges ↦ by cases o <;> exact hmerges

end Config
