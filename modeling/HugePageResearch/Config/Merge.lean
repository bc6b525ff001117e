import HugePageResearch.Python.Dict
import HugePageResearch.Python.Text
import Mathlib.Data.Rat.Defs

/-!
# Merging overrides into a configuration

`ConfigBase.merge` of `kernmlops_config/__init__.py` makes a new configuration out of an old one and
a mapping of overrides. The fields of the old one are copied into a fresh mapping, which the
overrides are merged into; a `dict` that is the value of a field, or of a key of such a `dict`, is
merged into where it is. Such a `dict` is also that of the old configuration.

## The result

`unchanged_iff`: the old configuration is left as it was exactly where no override that is reached
gives a key of a `dict` another value than it has.
-/

namespace Config

variable {κ α : Type*}

/-- A value of a configuration: a `ConfigBase` with its class and fields, a `dict`, or another. -/
inductive Value (κ α : Type*) where
  | other (a : α)
  | dict (items : List (κ × Value κ α))
  | config (cls : PyStr) (fields : List (κ × Value κ α))

/-- What the values of a mapping inherit, the mapping inherits. -/
theorem Value.induction {P : Value κ α → Prop} (other : ∀ a, P (.other a))
    (dict : ∀ items, (∀ e ∈ items, P e.2) → P (.dict items))
    (config : ∀ cls fields, (∀ e ∈ fields, P e.2) → P (.config cls fields)) (v : Value κ α) : P v :=
  @Value.rec κ α P (fun es ↦ ∀ e ∈ es, P e.2) (fun e ↦ P e.2) other dict config nofun
    (fun _ _ he hes ↦ List.forall_mem_cons.2 ⟨he, hes⟩) (fun _ _ h ↦ h) v

mutual

/-- No mapping in the value has a key twice. -/
def Value.Distinct : Value κ α → Prop
  | .other _ => True
  | .dict items => (items.map Prod.fst).Nodup ∧ AllDistinct items
  | .config _ fields => (fields.map Prod.fst).Nodup ∧ AllDistinct fields

/-- Nor has one in its values. -/
def AllDistinct : List (κ × Value κ α) → Prop
  | [] => True
  | (_, v) :: es => v.Distinct ∧ AllDistinct es

end

/-- **A mapping of overrides.** -/
structure Overrides (κ α : Type*) where
  items : List (κ × Value κ α)
  distinct : (Value.dict items).Distinct

variable [DecidableEq κ]

/-! ### The code -/

/-- How merging fails. -/
inductive MergeError where
  /-- The override of a configuration has no `items`. -/
  | attributeError
  /-- The constructor has no argument of this name. -/
  | typeError
  deriving DecidableEq

/-- `dataclasses.replace(self, **merged_config)`. -/
def replace (cls : PyStr) (fields mergedConfig : List (κ × Value κ α)) :
    Except MergeError (Value κ α) :=
  if ∀ e ∈ mergedConfig, e.1 ∈ fields.map Prod.fst then .ok (.config cls mergedConfig)
  else .error .typeError

mutual

/-- What `_merge` makes of the value `o` of a key and the override `v`, and `o` after it. -/
def mergeItem (o : Value κ α) : Value κ α → Except MergeError (Value κ α) × Value κ α
  | .dict new =>
    match o with
    | .config cls fields =>
      -- `merged_config` is a new mapping, but its values are those of the fields
      let r := mergeMap fields fields new
      (r.1.bind fun _ ↦ replace cls fields r.2.1, .config cls r.2.2)
    | .dict old =>
      let r := mergeMap old old new
      (r.1.map fun _ ↦ .dict r.2.1, .dict r.2.1)
    | .other a => (.ok (.dict new), .other a)
  | v =>
    match o with
    | .config cls fields => (.error .attributeError, .config cls fields)
    | o => (.ok v, o)

/-- **`_merge(old, new)`**: whether it returns, `old` after it, and the values that were in `old`,
after it. -/
def mergeMap (old were : List (κ × Value κ α)) : List (κ × Value κ α) →
    Except MergeError Unit × List (κ × Value κ α) × List (κ × Value κ α)
  | [] => (.ok (), old, were)
  | (k, v) :: new =>
    match Dict.getItem k old with
    | none => mergeMap (Dict.setItem k v old) were new
    | some o =>
      match mergeItem o v with
      | (.ok m, o') => mergeMap (Dict.setItem k m old) (Dict.setItem k o' were) new
      | (.error e, o') => (.error e, Dict.setItem k o' old, Dict.setItem k o' were)

end

/-- **`ConfigBase.merge`**: the new configuration, and the old one after the call. -/
def merge (cls : PyStr) (fields : List (κ × Value κ α)) (configOverrides : Overrides κ α) :
    Except MergeError (Value κ α) × Value κ α :=
  mergeItem (.config cls fields) (.dict configOverrides.items)

/-! ### What is needed -/

mutual

/-- An override of a configuration is no mapping, or names a field that it does not have. -/
def raises (o : Value κ α) : Value κ α → Bool
  | .dict new =>
    match o with
    | .config _ fields => !(new.all fun e ↦ e.1 ∈ fields.map Prod.fst) || anyRaises fields new
    | .dict old => anyRaises old new
    | .other _ => false
  | _ =>
    match o with
    | .config _ _ => true
    | _ => false

/-- One of the overrides does. -/
def anyRaises (old : List (κ × Value κ α)) : List (κ × Value κ α) → Bool
  | [] => false
  | (k, v) :: new => (Dict.getItem k old).any (fun o ↦ raises o v) || anyRaises old new

end

mutual

/-- **The override leaves the value as it is**: each override of a key of a `dict` that is reached
is the value that the key has. `held` says that the value is that of a key of a `dict`. -/
def Keeps (held : Bool) (o : Value κ α) : Value κ α → Prop
  | .dict new =>
    match o with
    | .config cls fields =>
      FieldsKeep (held && !raises (.config cls fields) (.dict new)) fields new
    | .dict old => ItemsKeep old new
    | .other a => held = true → Value.dict new = .other a
  | v =>
    match o with
    | .config _ _ => True
    | o => held = true → v = o

/-- The overrides of fields; one that raises is the last one. -/
def FieldsKeep (held : Bool) (fields : List (κ × Value κ α)) : List (κ × Value κ α) → Prop
  | [] => True
  | (k, v) :: new =>
    match Dict.getItem k fields with
    | none => FieldsKeep held fields new
    | some o => Keeps held o v ∧ (raises o v = false → FieldsKeep held fields new)

/-- The overrides of the keys of a `dict`; one that raises is the last one. -/
def ItemsKeep (old : List (κ × Value κ α)) : List (κ × Value κ α) → Prop
  | [] => True
  | (k, v) :: new =>
    match Dict.getItem k old with
    | none => False
    | some o => Keeps true o v ∧ (raises o v = false → ItemsKeep old new)

end

omit [DecidableEq κ] in
theorem AllDistinct.of_mem {es : List (κ × Value κ α)} {e : κ × Value κ α}
    (h : AllDistinct es) (he : e ∈ es) : e.2.Distinct := by
  induction es with
  | nil => exact nomatch he
  | cons e' es ih =>
    obtain ⟨hv, hes⟩ := h
    rcases List.mem_cons.1 he with rfl | he
    · exact hv
    · exact ih hes he

/-! ### One override -/

/-- **What an override of one value does**: when it raises, when it leaves the value as it is, and
when it stores the same value again. -/
structure ItemSpec (o v : Value κ α) : Prop where
  raises : (∃ e, (mergeItem o v).1 = .error e) ↔ raises o v = true
  after : (mergeItem o v).2 = o ↔ Keeps false o v
  held : ((∀ m, (mergeItem o v).1 = .ok m → m = o) ∧ (mergeItem o v).2 = o) ↔ Keeps true o v
  same : (mergeItem o v).1 = .ok o → (mergeItem o v).2 = o

section Map

variable {es old were new : List (κ × Value κ α)} {k : κ} {v o m o' : Value κ α}

/-- **One round**: the key is new, or its value is merged, or merging it raises. -/
theorem mergeMap_cons (old were : List (κ × Value κ α)) (k : κ) (v : Value κ α)
    (new : List (κ × Value κ α)) :
    (Dict.getItem k old = none ∧ mergeMap old were ((k, v) :: new) =
      mergeMap (Dict.setItem k v old) were new) ∨
    (∃ o m o', Dict.getItem k old = some o ∧ mergeItem o v = (.ok m, o') ∧
      mergeMap old were ((k, v) :: new) =
        mergeMap (Dict.setItem k m old) (Dict.setItem k o' were) new) ∨
    ∃ o e o', Dict.getItem k old = some o ∧ mergeItem o v = (.error e, o') ∧
      mergeMap old were ((k, v) :: new) =
        (.error e, Dict.setItem k o' old, Dict.setItem k o' were) := by
  rw [mergeMap]
  cases hget : Dict.getItem k old with
  | none => exact .inl ⟨rfl, rfl⟩
  | some o =>
    rcases hitem : mergeItem o v with ⟨e | m, o'⟩
    · exact .inr (.inr ⟨o, e, o', rfl, hitem, by simp only [hitem]⟩)
    · exact .inr (.inl ⟨o, m, o', rfl, hitem, by simp only [hitem]⟩)

/-- A key without an override. -/
theorem getItem_mergeMap (old were : List (κ × Value κ α)) (hk : k ∉ new.map Prod.fst) :
    Dict.getItem k (mergeMap old were new).2.1 = Dict.getItem k old ∧
      Dict.getItem k (mergeMap old were new).2.2 = Dict.getItem k were := by
  induction new generalizing old were with
  | nil => exact ⟨rfl, rfl⟩
  | cons e new ih =>
    obtain ⟨k₁, v⟩ := e
    obtain ⟨hne, hk⟩ := List.ne_and_not_mem_of_not_mem_cons hk
    rcases mergeMap_cons old were k₁ v new with ⟨-, h⟩ | ⟨o, m, o', -, -, h⟩ | ⟨o, e, o', -, -, h⟩
    · rw [h, (ih _ _ hk).1, (ih _ _ hk).2, Dict.getItem_setItem_of_ne hne.symm]
      exact ⟨rfl, rfl⟩
    · rw [h, (ih _ _ hk).1, (ih _ _ hk).2, Dict.getItem_setItem_of_ne hne.symm,
        Dict.getItem_setItem_of_ne hne.symm]
      exact ⟨rfl, rfl⟩
    · rw [h]
      exact ⟨Dict.getItem_setItem_of_ne hne.symm, Dict.getItem_setItem_of_ne hne.symm⟩

/-- The keys after a merge that returns. -/
theorem mem_keys_mergeMap (h : (mergeMap old were new).1 = .ok ()) :
    k ∈ (mergeMap old were new).2.1.map Prod.fst ↔
      k ∈ old.map Prod.fst ∨ k ∈ new.map Prod.fst := by
  have hset : ∀ (k₁ : κ) (x : Value κ α) (es : List (κ × Value κ α)),
      k ∈ (Dict.setItem k₁ x es).map Prod.fst ↔ k ∈ es.map Prod.fst ∨ k = k₁ := fun k₁ x es ↦ by
    rw [Dict.map_fst_setItem]
    split_ifs with hmem
    · exact ⟨.inl, fun h ↦ h.elim id fun h ↦ h ▸ hmem⟩
    · rw [List.mem_append, List.mem_singleton]
  induction new generalizing old were with
  | nil => exact ⟨.inl, fun h ↦ h.resolve_right List.not_mem_nil⟩
  | cons e new ih =>
    obtain ⟨k₁, v⟩ := e
    rw [List.map_cons, List.mem_cons, ← or_assoc]
    rcases mergeMap_cons old were k₁ v new with
      ⟨-, heq⟩ | ⟨o, m, o', -, -, heq⟩ | ⟨o, e, o', -, -, heq⟩
    · rw [heq] at h ⊢
      exact (ih h).trans (or_congr_left (hset k₁ v old))
    · rw [heq] at h ⊢
      exact (ih h).trans (or_congr_left (hset k₁ m old))
    · rw [heq] at h
      cases h

/-- **What merging a mapping does**, where `es` says what the keys have had at first. -/
structure MapSpec (es old were new : List (κ × Value κ α)) : Prop where
  raises : (∃ e, (mergeMap old were new).1 = .error e) ↔ anyRaises es new = true
  after : (mergeMap old were new).2.2 = were ↔ FieldsKeep false es new
  items : (mergeMap old were new).2.1 = old ↔ ItemsKeep es new
  fields : anyRaises es new = false → (∀ e ∈ new, e.1 ∈ es.map Prod.fst) →
    ((mergeMap old were new).2.1 = old ↔ FieldsKeep true es new)
  same : (mergeMap old were new).2.1 = old → (mergeMap old were new).2.2 = were

/-- A round for a new key: `were` is not concerned, and `old` is not what it was. -/
theorem mapSpec_cons_none (hk : k ∉ new.map Prod.fst) (hnone : Dict.getItem k old = none)
    (hes : Dict.getItem k es = none) (heq : mergeMap old were ((k, v) :: new) =
      mergeMap (Dict.setItem k v old) were new)
    (hrest : MapSpec es (Dict.setItem k v old) were new) :
    MapSpec es old were ((k, v) :: new) := by
  have hne : (mergeMap old were ((k, v) :: new)).2.1 ≠ old := fun h ↦ by
    have hget := (getItem_mergeMap (Dict.setItem k v old) were hk).1
    rw [← heq, h, hnone, Dict.getItem_setItem, if_pos rfl] at hget
    cases hget
  refine ⟨?_, ?_, ?_, fun _ hknown ↦ ?_, fun h ↦ absurd h hne⟩
  · rw [heq, hrest.raises, anyRaises, hes]
    rfl
  · rw [heq, hrest.after, FieldsKeep, hes]
  · rw [ItemsKeep, hes]
    exact iff_false_intro hne
  · exact absurd hes (Dict.getItem_ne_none (hknown _ List.mem_cons_self))

/-- A round that stores a value again. -/
theorem mapSpec_cons_ok (hitem : ItemSpec o v) (hk : k ∉ new.map Prod.fst)
    (hold : Dict.getItem k old = some o) (hwere : Dict.getItem k were = some o)
    (hes : Dict.getItem k es = some o) (hres : mergeItem o v = (.ok m, o'))
    (heq : mergeMap old were ((k, v) :: new) =
      mergeMap (Dict.setItem k m old) (Dict.setItem k o' were) new)
    (hrest : MapSpec es (Dict.setItem k m old) (Dict.setItem k o' were) new) :
    MapSpec es old were ((k, v) :: new) := by
  have hframe := getItem_mergeMap (Dict.setItem k m old) (Dict.setItem k o' were) hk
  rw [Dict.getItem_setItem, Dict.getItem_setItem, if_pos rfl, if_pos rfl] at hframe
  obtain ⟨hraises, hafter, hheld, hsame⟩ := hitem
  simp only [hres, reduceCtorEq, exists_false, false_iff, Bool.not_eq_true] at hraises
  simp only [hres, Except.ok.injEq, forall_eq'] at hafter hheld hsame
  have hstored : m = o ↔ Keeps true o v :=
    ⟨fun h ↦ hheld.1 ⟨h, hsame h⟩, fun h ↦ (hheld.2 h).1⟩
  have hold_iff := Dict.eq_iff_of_getItem hold hframe.1
  have hwere_iff := Dict.eq_iff_of_getItem hwere hframe.2
  refine ⟨?_, ?_, ?_, fun hno hknown ↦ ?_, ?_⟩
  · rw [heq, hrest.raises, anyRaises, hes, Option.any_some, hraises, Bool.false_or]
  · rw [heq, hwere_iff, hrest.after, hafter, FieldsKeep, hes]
    exact and_congr_right fun _ ↦ ⟨fun h _ ↦ h, fun h ↦ h hraises⟩
  · rw [heq, hold_iff, hrest.items, hstored, ItemsKeep, hes]
    exact and_congr_right fun _ ↦ ⟨fun h _ ↦ h, fun h ↦ h hraises⟩
  · rw [anyRaises, hes, Option.any_some, hraises, Bool.false_or] at hno
    rw [heq, hold_iff, hrest.fields hno (List.forall_mem_cons.1 hknown).2, hstored, FieldsKeep, hes]
    exact and_congr_right fun _ ↦ ⟨fun h _ ↦ h, fun h ↦ h hraises⟩
  · rw [heq]
    intro h
    obtain ⟨hm, h⟩ := hold_iff.1 h
    exact hwere_iff.2 ⟨hsame hm, hrest.same h⟩

/-- A round that raises, which is the last one. -/
theorem mapSpec_cons_error {e : MergeError} (hitem : ItemSpec o v)
    (hold : Dict.getItem k old = some o) (hwere : Dict.getItem k were = some o)
    (hes : Dict.getItem k es = some o) (hres : mergeItem o v = (.error e, o'))
    (heq : mergeMap old were ((k, v) :: new) =
      (.error e, Dict.setItem k o' old, Dict.setItem k o' were)) :
    MapSpec es old were ((k, v) :: new) := by
  obtain ⟨hraises, hafter, hheld, -⟩ := hitem
  have hyes : raises o v = true := hraises.1 ⟨e, by rw [hres]⟩
  have hnot : raises o v ≠ false := fun h ↦ Bool.false_ne_true (h.symm.trans hyes)
  simp only [hres, reduceCtorEq, false_implies, implies_true, true_and] at hafter hheld
  refine ⟨?_, ?_, ?_, fun hno ↦ ?_, ?_⟩
  · rw [heq, anyRaises, hes, Option.any_some, hyes, Bool.true_or]
    exact ⟨fun _ ↦ rfl, fun _ ↦ ⟨e, rfl⟩⟩
  · rw [heq, FieldsKeep, hes]
    exact (Dict.setItem_eq_iff hwere).trans
      (hafter.trans (and_iff_left fun h ↦ absurd h hnot).symm)
  · rw [heq, ItemsKeep, hes]
    exact (Dict.setItem_eq_iff hold).trans
      (hheld.trans (and_iff_left fun h ↦ absurd h hnot).symm)
  · rw [anyRaises, hes, Option.any_some, hyes, Bool.true_or] at hno
    cases hno
  · rw [heq]
    exact fun h ↦ (Dict.setItem_eq_iff hwere).2 ((Dict.setItem_eq_iff hold).1 h)

/-- **Merging a mapping**, where its values are as specified. -/
theorem mergeMap_spec (old were : List (κ × Value κ α)) (hnd : (new.map Prod.fst).Nodup)
    (hitems : ∀ e ∈ new, ∀ o, ItemSpec o e.2)
    (hold : ∀ k ∈ new.map Prod.fst, Dict.getItem k old = Dict.getItem k es)
    (hwere : ∀ k ∈ new.map Prod.fst, Dict.getItem k were = Dict.getItem k es) :
    MapSpec es old were new := by
  induction new generalizing old were with
  | nil =>
    refine ⟨⟨nofun, nofun⟩, ?_, ?_, fun _ _ ↦ ?_, fun _ ↦ rfl⟩
    all_goals exact ⟨fun _ ↦ trivial, fun _ ↦ rfl⟩
  | cons e new ih =>
    obtain ⟨k, v⟩ := e
    obtain ⟨hk, hnd⟩ := List.nodup_cons.1 hnd
    obtain ⟨hitem, hitems⟩ := List.forall_mem_cons.1 hitems
    obtain ⟨holdk, hold⟩ := List.forall_mem_cons.1 hold
    obtain ⟨hwerek, hwere⟩ := List.forall_mem_cons.1 hwere
    have hother : ∀ (x : Value κ α) (l : List (κ × Value κ α)), ∀ k' ∈ new.map Prod.fst,
        Dict.getItem k' (Dict.setItem k x l) = Dict.getItem k' l := fun x l k' hk' ↦
      Dict.getItem_setItem_of_ne fun h ↦ hk (h ▸ hk')
    rcases mergeMap_cons old were k v new with
      ⟨hnone, heq⟩ | ⟨o, m, o', hsome, hres, heq⟩ | ⟨o, e, o', hsome, hres, heq⟩
    · have hrest := ih (Dict.setItem k v old) were hnd hitems
        (fun k' hk' ↦ (hother v old k' hk').trans (hold k' hk')) hwere
      exact mapSpec_cons_none hk hnone (holdk ▸ hnone) heq hrest
    · have hrest := ih (Dict.setItem k m old) (Dict.setItem k o' were) hnd hitems
        (fun k' hk' ↦ (hother m old k' hk').trans (hold k' hk'))
        fun k' hk' ↦ (hother o' were k' hk').trans (hwere k' hk')
      have hes : Dict.getItem k es = some o := holdk ▸ hsome
      exact mapSpec_cons_ok (hitem o) hk hsome (hwerek.trans hes) hes hres heq hrest
    · have hes : Dict.getItem k es = some o := holdk ▸ hsome
      exact mapSpec_cons_error (hitem o) hsome (hwerek.trans hes) hes hres heq

end Map

/-! ### A configuration -/

section Item

variable {cls : PyStr} {fields old new : List (κ × Value κ α)}

/-- **A configuration is merged**, or it raises. -/
theorem mergeItem_config_cases (cls : PyStr) (h : MapSpec fields fields fields new) :
    (raises (.config cls fields) (.dict new) = true ∧
      ∃ e, (mergeItem (.config cls fields) (.dict new)).1 = .error e) ∨
    (raises (.config cls fields) (.dict new) = false ∧ anyRaises fields new = false ∧
      (∀ e ∈ new, e.1 ∈ fields.map Prod.fst) ∧ (mergeItem (.config cls fields) (.dict new)).1 =
        .ok (.config cls (mergeMap fields fields new).2.1)) := by
  have hraises : raises (.config cls fields) (.dict new) =
      (!(new.all fun e ↦ e.1 ∈ fields.map Prod.fst) || anyRaises fields new) := by rw [raises]
  have hfst : (mergeItem (.config cls fields) (.dict new)).1 = (mergeMap fields fields new).1.bind
      fun _ ↦ replace cls fields (mergeMap fields fields new).2.1 := by rw [mergeItem]
  rw [hraises, hfst]
  cases hreturns : (mergeMap fields fields new).1 with
  | error e =>
    have hany := h.raises.1 ⟨e, hreturns⟩
    exact .inl ⟨by rw [hany, Bool.or_true], e, rfl⟩
  | ok u =>
    have hany : anyRaises fields new = false := Bool.eq_false_iff.2 fun hany ↦ by
      obtain ⟨e, he⟩ := h.raises.2 hany
      exact nomatch hreturns.symm.trans he
    have hkeys := fun k ↦ mem_keys_mergeMap (k := k) hreturns
    show (_ ∧ ∃ e, replace _ _ _ = _) ∨ (_ ∧ _ ∧ _ ∧ replace _ _ _ = _)
    rw [hany, Bool.or_false, replace]
    by_cases hknown : ∀ e ∈ new, e.1 ∈ fields.map Prod.fst
    · refine .inr ⟨?_, rfl, hknown, if_pos fun e he ↦ ?_⟩
      · rw [Bool.not_eq_false', List.all_eq_true]
        exact fun e he ↦ decide_eq_true (hknown e he)
      · refine ((hkeys e.1).1 (List.mem_map_of_mem he)).elim id fun hmem ↦ ?_
        obtain ⟨e', he', heq⟩ := List.mem_map.1 hmem
        exact heq ▸ hknown e' he'
    · refine .inl ⟨?_, _, if_neg fun hall ↦ hknown fun e he ↦ ?_⟩
      · rw [Bool.not_eq_true', ← Bool.not_eq_true, List.all_eq_true]
        exact fun hall ↦ hknown fun e he ↦ of_decide_eq_true (hall e he)
      · obtain ⟨e', he', heq⟩ := List.mem_map.1 ((hkeys e.1).2 (.inr (List.mem_map_of_mem he)))
        exact heq ▸ hall e' he'

/-- **A configuration with overrides.** -/
theorem itemSpec_config (h : MapSpec fields fields fields new) :
    ItemSpec (.config cls fields) (.dict new) := by
  have hsnd : (mergeItem (.config cls fields) (.dict new)).2 =
      .config cls (mergeMap fields fields new).2.2 := by rw [mergeItem]
  have hafter : (mergeItem (.config cls fields) (.dict new)).2 = .config cls fields ↔
      FieldsKeep false fields new := by
    rw [hsnd, Value.config.injEq, h.after]
    exact and_iff_right rfl
  rcases mergeItem_config_cases cls h with ⟨hraises, e, hfst⟩ | ⟨hno, hany, hknown, hfst⟩
  · refine ⟨⟨fun _ ↦ hraises, fun _ ↦ ⟨e, hfst⟩⟩, ?_, ?_, fun hok ↦ ?_⟩
    · rw [hafter, Keeps, Bool.false_and]
    · rw [hafter, hfst, Keeps, hraises, Bool.not_true, Bool.and_false]
      exact and_iff_right nofun
    · exact nomatch hfst.symm.trans hok
  · have hheld := h.fields hany hknown
    refine ⟨⟨?_, ?_⟩, ?_, ?_, fun hok ↦ ?_⟩
    · rintro ⟨e, he⟩
      exact nomatch hfst.symm.trans he
    · exact fun hyes ↦ nomatch hno.symm.trans hyes
    · rw [hafter, Keeps, Bool.false_and]
    · rw [hfst, hsnd, Keeps, hno, Bool.not_false, Bool.and_true, ← hheld]
      simp only [Except.ok.injEq, forall_eq', Value.config.injEq, true_and]
      exact and_iff_left_of_imp h.same
    · rw [hfst, Except.ok.injEq, Value.config.injEq] at hok
      rw [hsnd, h.same hok.2]

/-- **A `dict` with overrides.** -/
theorem itemSpec_dict (h : MapSpec old old old new) : ItemSpec (.dict old) (.dict new) := by
  have hfst : (mergeItem (.dict old) (.dict new)).1 = (mergeMap old old new).1.map
      fun _ ↦ Value.dict (mergeMap old old new).2.1 := by rw [mergeItem]
  have hsnd : (mergeItem (.dict old) (.dict new)).2 = .dict (mergeMap old old new).2.1 := by
    rw [mergeItem]
  have hafter : (mergeItem (.dict old) (.dict new)).2 = .dict old ↔ ItemsKeep old new := by
    rw [hsnd, Value.dict.injEq, h.items]
  have hsame : ∀ m, (mergeItem (.dict old) (.dict new)).1 = .ok m →
      m = (mergeItem (.dict old) (.dict new)).2 := fun m hm ↦ by
    rw [hfst] at hm
    rw [hsnd]
    cases hreturns : (mergeMap old old new).1 with
    | error e =>
      rw [hreturns] at hm
      cases hm
    | ok u =>
      rw [hreturns] at hm
      exact (Except.ok.inj hm).symm
  refine ⟨?_, ?_, ?_, fun hok ↦ (hsame _ hok).symm⟩
  · rw [raises, ← h.raises, hfst]
    cases (mergeMap old old new).1 with
    | error e => exact ⟨fun _ ↦ ⟨e, rfl⟩, fun _ ↦ ⟨e, rfl⟩⟩
    | ok u => exact ⟨nofun, nofun⟩
  · rw [hafter, Keeps]
  · rw [Keeps, ← hafter]
    exact and_iff_right_of_imp fun h m hm ↦ (hsame m hm).trans h

/-- A value that is replaced. -/
theorem itemSpec_replaced {o v : Value κ α} (h : mergeItem o v = (.ok v, o))
    (hraises : raises o v = false) (hkeeps : ∀ held, Keeps held o v ↔ (held = true → v = o)) :
    ItemSpec o v := by
  refine ⟨?_, ?_, ?_, fun _ ↦ by rw [h]⟩
  · rw [h, hraises]
    exact ⟨nofun, nofun⟩
  · rw [h, hkeeps]
    exact ⟨nofun, fun _ ↦ rfl⟩
  · rw [h, hkeeps]
    simp

/-- A configuration is not replaced. -/
theorem itemSpec_attributeError {v : Value κ α}
    (h : mergeItem (.config cls fields) v = (.error .attributeError, .config cls fields))
    (hraises : raises (.config cls fields) v = true)
    (hkeeps : ∀ held, Keeps held (.config cls fields) v) : ItemSpec (.config cls fields) v := by
  refine ⟨?_, ?_, ?_, ?_⟩
  · rw [h, hraises]
    exact ⟨fun _ ↦ rfl, fun _ ↦ ⟨_, rfl⟩⟩
  · rw [h]
    exact ⟨fun _ ↦ hkeeps _, fun _ ↦ rfl⟩
  · rw [h]
    exact ⟨fun _ ↦ hkeeps _, fun _ ↦ ⟨nofun, rfl⟩⟩
  · rw [h]
    exact nofun

/-- **An override of any value.** -/
theorem itemSpec (v : Value κ α) (hv : v.Distinct) (o : Value κ α) : ItemSpec o v := by
  induction v using Value.induction generalizing o with
  | other a =>
    cases o with
    | config cls fields => exact itemSpec_attributeError rfl rfl fun _ ↦ trivial
    | dict old => exact itemSpec_replaced rfl rfl fun _ ↦ .rfl
    | other b => exact itemSpec_replaced rfl rfl fun _ ↦ .rfl
  | config =>
    cases o with
    | config cls fields => exact itemSpec_attributeError rfl rfl fun _ ↦ trivial
    | dict old => exact itemSpec_replaced rfl rfl fun _ ↦ .rfl
    | other b => exact itemSpec_replaced rfl rfl fun _ ↦ .rfl
  | dict new ih =>
    have hmap : ∀ es, MapSpec es es es new := fun es ↦
      mergeMap_spec es es hv.1 (fun e he ↦ ih e he (hv.2.of_mem he)) (fun _ _ ↦ rfl) fun _ _ ↦ rfl
    cases o with
    | config cls fields => exact itemSpec_config (hmap fields)
    | dict old => exact itemSpec_dict (hmap old)
    | other b => exact itemSpec_replaced rfl rfl fun _ ↦ .rfl

/-- **The old configuration is left as it was exactly where no override that is reached gives a key
of a `dict` another value than it has.** -/
theorem unchanged_iff (cls : PyStr) (fields : List (κ × Value κ α))
    (configOverrides : Overrides κ α) :
    (merge cls fields configOverrides).2 = .config cls fields ↔
      FieldsKeep false fields configOverrides.items := by
  rw [merge, (itemSpec _ configOverrides.distinct _).after, Keeps, Bool.false_and]

end Item

/-! ### The defaults -/

section Defaults

variable {cls : PyStr} {fields : List (κ × Value κ α)}

/-- The default instances after merging overrides into one new configuration after another: they are
the same objects in each of them. -/
def defaultsAfter (cls : PyStr) (fields : List (κ × Value κ α))
    (runs : List (Overrides κ α)) : Value κ α :=
  runs.foldl (fun defaults configOverrides ↦
    (mergeItem defaults (.dict configOverrides.items)).2) (.config cls fields)

/-- **The defaults of every later configuration** are those of the first one, where no overrides
change them. -/
theorem defaultsAfter_eq {runs : List (Overrides κ α)}
    (h : ∀ configOverrides ∈ runs, FieldsKeep false fields configOverrides.items) :
    defaultsAfter cls fields runs = .config cls fields := by
  induction runs with
  | nil => rfl
  | cons configOverrides runs ih =>
    obtain ⟨hfirst, hrest⟩ := List.forall_mem_cons.1 h
    rw [defaultsAfter, List.foldl_cons]
    rw [show (mergeItem (.config cls fields) (.dict configOverrides.items)).2 = _ from
      (unchanged_iff cls fields configOverrides).2 hfirst]
    exact ih hrest

/-- A value of a field of `HugepageHarnessConfig` that is no mapping. -/
inductive Scalar where
  | bool (b : Bool)
  | int (n : ℤ)
  | str (s : PyStr)
  | ints (ns : List ℤ)
  | floats (qs : List ℚ)
  deriving DecidableEq

/-- `HugepageHarnessConfig()`. -/
def hugepageHarnessFields : List (PyStr × Value PyStr Scalar) :=
  [("enabled".toList, .other (.bool true)),
    ("redis_name_regex".toList, .other (.str "redis-server".toList)),
    ("window_ms".toList, .other (.ints [100, 1000, 10000])),
    ("smaps_rollup_interval_ms".toList, .other (.int 500)),
    ("smaps_vma_interval_ms".toList, .other (.int 2000)),
    ("vmstat_interval_ms".toList, .other (.int 200)),
    ("negative_sample_period_s".toList, .other (.int 2)),
    ("intervention_enabled".toList, .other (.bool true)),
    ("intervention_period_s".toList, .other (.int 10)),
    ("intervention_warmup_s".toList, .other (.int 30)),
    ("matching_enabled".toList, .other (.bool true)),
    ("matching".toList, .dict [("enabled".toList, .other (.bool true))]),
    ("split_debugfs_path".toList, .other (.str "/sys/kernel/debug/split_huge_pages".toList)),
    ("age_bucket_weights".toList, .other (.floats [2 / 5, 2 / 5, 1 / 5])),
    ("random_seed".toList, .other (.int 17))]

/-- `{"matching": {"enabled": False}}`. -/
def matchingDisabled : Overrides PyStr Scalar where
  items := [("matching".toList, .dict [("enabled".toList, .other (.bool false))])]
  distinct := ⟨List.nodup_singleton _, ⟨List.nodup_singleton _, trivial, trivial⟩, trivial⟩

/-- **The default of `matching` is overridden for good.** -/
theorem not_unchanged_matchingDisabled :
    ¬ ∀ (cls : PyStr) (fields : List (PyStr × Value PyStr Scalar))
      (configOverrides : Overrides PyStr Scalar),
        (merge cls fields configOverrides).2 = .config cls fields := by
  intro hall
  have hget : Dict.getItem "matching".toList hugepageHarnessFields =
      some (.dict [("enabled".toList, .other (.bool true))]) := by rfl
  have h := (unchanged_iff _ _ matchingDisabled).1
    (hall "HugepageHarnessConfig".toList hugepageHarnessFields matchingDisabled)
  rw [matchingDisabled, FieldsKeep, hget] at h
  have heq : Value.other (.bool false) = Value.other (κ := PyStr) (Scalar.bool true) := h.1.1 rfl
  cases heq

end Defaults

end Config
