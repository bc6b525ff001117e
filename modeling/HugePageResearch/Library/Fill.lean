import Mathlib.Data.List.Nodup
import Mathlib.Order.Lattice

/-!
# Filling the gaps of a column

A column with gaps is filled forward, each gap with the latest value above it, or backward, with the
earliest one below. Filled one way and then the other, it has a gap only where it has no value at
all (`backward_forward_eq_or`).

## The result

`lastObservation_fill`: of events in the order of their times, some of which observe a value, the
column that is filled forward and then backward holds at each event the last observation: the latest
one up to its time, or else the earliest one after it.
-/

namespace Fill

variable {α : Type*}

/-! ### Columns -/

/-- Fill forward, with the last value that was seen. -/
def forwardFrom (last : Option α) : List (Option α) → List (Option α)
  | [] => []
  | x :: xs => x.or last :: forwardFrom (x.or last) xs

/-- Fill forward. -/
def forward (xs : List (Option α)) : List (Option α) := forwardFrom none xs

/-- Fill backward. -/
def backward (xs : List (Option α)) : List (Option α) := (forward xs.reverse).reverse

/-- The first value of a column. -/
def earliest (xs : List (Option α)) : Option α := xs.findSome? id

/-- The last value of a column. -/
def latest (xs : List (Option α)) : Option α := xs.reverse.findSome? id

variable {last : Option α} {x : Option α} {xs ys : List (Option α)}

@[simp] theorem length_forwardFrom (last : Option α) (xs : List (Option α)) :
    (forwardFrom last xs).length = xs.length := by
  induction xs generalizing last with
  | nil => rfl
  | cons x xs ih => rw [forwardFrom, List.length_cons, List.length_cons, ih]

@[simp] theorem length_forward (xs : List (Option α)) : (forward xs).length = xs.length :=
  length_forwardFrom none xs

@[simp] theorem length_backward (xs : List (Option α)) : (backward xs).length = xs.length := by
  rw [backward, List.length_reverse, length_forward, List.length_reverse]

theorem earliest_cons (x : Option α) (xs : List (Option α)) :
    earliest (x :: xs) = x.or (earliest xs) := by
  rcases x with - | v
  · rfl
  · rfl

theorem latest_cons (x : Option α) (xs : List (Option α)) :
    latest (x :: xs) = (latest xs).or x := by
  rw [latest, List.reverse_cons, List.findSome?_append]
  rcases x with - | v
  · rfl
  · rfl

theorem latest_reverse (xs : List (Option α)) : latest xs.reverse = earliest xs := by
  rw [latest, List.reverse_reverse]
  rfl

/-- **Filling forward goes on** with the last value of what is above. -/
theorem forwardFrom_append (last : Option α) (xs ys : List (Option α)) :
    forwardFrom last (xs ++ ys) =
      forwardFrom last xs ++ forwardFrom ((latest xs).or last) ys := by
  induction xs generalizing last with
  | nil => rfl
  | cons x xs ih => rw [List.cons_append, forwardFrom, ih, forwardFrom, latest_cons,
      Option.or_assoc, List.cons_append]

theorem backward_cons (x : Option α) (xs : List (Option α)) :
    backward (x :: xs) = x.or (earliest xs) :: backward xs := by
  rw [backward, List.reverse_cons, forward, forwardFrom_append, List.reverse_append,
    latest_reverse, Option.or_none]
  rfl

/-- Filling backward does not look above. -/
theorem exists_backward_append (xs ys : List (Option α)) :
    ∃ zs, zs.length = xs.length ∧ backward (xs ++ ys) = zs ++ backward ys := by
  induction xs with
  | nil => exact ⟨[], rfl, rfl⟩
  | cons x xs ih =>
    obtain ⟨zs, hlength, hzs⟩ := ih
    refine ⟨x.or (earliest (xs ++ ys)) :: zs, by rw [List.length_cons, hlength, List.length_cons],
      ?_⟩
    rw [List.cons_append, backward_cons, hzs, List.cons_append]

theorem earliest_forward (xs : List (Option α)) : earliest (forward xs) = earliest xs := by
  induction xs with
  | nil => rfl
  | cons x xs ih =>
    rw [forward, forwardFrom, earliest_cons, earliest_cons]
    rcases x with - | v
    · exact ih
    · rfl

/-- **What a column holds that was filled both ways.** -/
theorem getElem?_backward_forward (xs : List (Option α)) (x : Option α) (ys : List (Option α)) :
    (backward (forward (xs ++ x :: ys)))[xs.length]? =
      some ((x.or (latest xs)).or (earliest ys)) := by
  rw [forward, forwardFrom_append, forwardFrom, Option.or_none]
  obtain ⟨zs, hlength, hzs⟩ := exists_backward_append (forwardFrom none xs)
    (x.or (latest xs) :: forwardFrom (x.or (latest xs)) ys)
  rw [length_forwardFrom] at hlength
  rw [hzs, List.getElem?_append_right (Nat.le_of_eq hlength), hlength, Nat.sub_self, backward_cons]
  rcases x.or (latest xs) with - | v
  · exact congrArg some (earliest_forward ys)
  · rfl

theorem earliest_eq_none : earliest xs = none ↔ ∀ x ∈ xs, x = none :=
  List.findSome?_eq_none_iff

theorem latest_eq_none : latest xs = none ↔ ∀ x ∈ xs, x = none := by
  rw [latest, List.findSome?_eq_none_iff]
  simp only [List.mem_reverse, id]

theorem forwardFrom_of_none (last : Option α) (h : ∀ x ∈ xs, x = none) :
    forwardFrom last xs = xs.map fun _ ↦ last := by
  induction xs with
  | nil => rfl
  | cons x xs ih =>
    obtain ⟨rfl, hxs⟩ := List.forall_mem_cons.1 h
    rw [forwardFrom, Option.none_or, ih hxs, List.map_cons]

theorem forwardFrom_of_isSome (last : Option α) (h : ∀ x ∈ xs, x.isSome = true) :
    forwardFrom last xs = xs := by
  induction xs generalizing last with
  | nil => rfl
  | cons x xs ih =>
    obtain ⟨hx, hxs⟩ := List.forall_mem_cons.1 h
    rw [forwardFrom, ih _ hxs, Option.or_of_isSome hx]

theorem exists_of_mem_backward_forward {v : Option α} (hv : v ∈ backward (forward xs)) :
    ∃ above x below, xs = above ++ x :: below ∧ v = (x.or (latest above)).or (earliest below) := by
  obtain ⟨i, hi, rfl⟩ := List.getElem_of_mem hv
  have hlt : i < xs.length := by rwa [length_backward, length_forward] at hi
  have hsplit : xs = xs.take i ++ xs[i] :: xs.drop (i + 1) := by
    rw [List.getElem_cons_drop, List.take_append_drop]
  have hvalue := getElem?_backward_forward (xs.take i) xs[i] (xs.drop (i + 1))
  rw [← hsplit, List.length_take_of_le (Nat.le_of_lt hlt), List.getElem?_eq_getElem hi] at hvalue
  exact ⟨_, _, _, hsplit, Option.some.inj hvalue⟩

/-- A gap that remains is one in a column without values. -/
theorem forall_eq_none_of_mem (h : none ∈ backward (forward xs)) : ∀ x ∈ xs, x = none := by
  obtain ⟨above, x, below, rfl, hnone⟩ := exists_of_mem_backward_forward h
  obtain ⟨hleft, hbelow⟩ := Option.or_eq_none_iff.1 hnone.symm
  obtain ⟨hx, habove⟩ := Option.or_eq_none_iff.1 hleft
  exact List.forall_mem_append.2
    ⟨latest_eq_none.1 habove, List.forall_mem_cons.2 ⟨hx, earliest_eq_none.1 hbelow⟩⟩

/-- **A column that was filled both ways** has no value, or no gap. -/
theorem backward_forward_eq_or (xs : List (Option α)) :
    (∀ x ∈ backward (forward xs), x = none) ∨ ∀ x ∈ backward (forward xs), x.isSome = true := by
  by_cases hgap : none ∈ backward (forward xs)
  · have hnone := forall_eq_none_of_mem hgap
    refine Or.inl fun v hv ↦ ?_
    obtain ⟨above, x, below, rfl, rfl⟩ := exists_of_mem_backward_forward hv
    obtain ⟨habove, hrest⟩ := List.forall_mem_append.1 hnone
    obtain ⟨rfl, hbelow⟩ := List.forall_mem_cons.1 hrest
    rw [latest_eq_none.2 habove, earliest_eq_none.2 hbelow]
    rfl
  · exact Or.inr fun v hv ↦ Option.isSome_iff_ne_none.2 fun hnone ↦ hgap (hnone ▸ hv)

/-- Filling such a column once more gives its gaps the value from above. -/
theorem forwardFrom_backward_forward (z : α) (xs : List (Option α)) :
    forwardFrom (some z) (backward (forward xs)) =
      (backward (forward xs)).map fun x ↦ some (x.getD z) := by
  rcases backward_forward_eq_or xs with h | h
  · rw [forwardFrom_of_none _ h]
    exact List.map_congr_left fun x hx ↦ by rw [h x hx, Option.getD_none]
  · rw [forwardFrom_of_isSome _ h]
    refine (List.map_id _).symm.trans (List.map_congr_left fun x hx ↦ ?_)
    obtain ⟨v, rfl⟩ := Option.isSome_iff_exists.1 (h x hx)
    rfl

/-! ### Observations -/

section Observation

variable {ε τ : Type*} [LinearOrder τ]

/-- **The last observation at a time**: what the latest event up to then observes that observes
anything, or else the earliest one after it. -/
inductive LastObservation (time : ε → τ) (observe : ε → Option α) (es : List ε) (t : τ) :
    Option α → Prop
  /-- There is an observation up to then. -/
  | upTo {e : ε} {v : α} (mem : e ∈ es) (observes : observe e = some v) (le : time e ≤ t)
    (last : ∀ e' ∈ es, (observe e').isSome = true → time e' ≤ t → time e' ≤ time e) :
    LastObservation time observe es t (some v)
  /-- All observations are later. -/
  | after {e : ε} {v : α} (later : ∀ e' ∈ es, (observe e').isSome = true → t < time e')
    (mem : e ∈ es) (observes : observe e = some v)
    (first : ∀ e' ∈ es, (observe e').isSome = true → time e ≤ time e') :
    LastObservation time observe es t (some v)
  /-- There is no observation. -/
  | never (silent : ∀ e ∈ es, observe e = none) : LastObservation time observe es t none

variable {time : ε → τ} {observe : ε → Option α} {es : List ε} {t : τ}
  {v w : Option α}

/-- **Only what is observed and when matters.** -/
theorem LastObservation.congr {ε' : Type*} {time' : ε' → τ} {observe' : ε' → Option α}
    {es' : List ε'} (h : LastObservation time observe es t v)
    (hes : ∀ s x, (∃ e ∈ es, time e = s ∧ observe e = some x) ↔
      ∃ e ∈ es', time' e = s ∧ observe' e = some x) :
    LastObservation time' observe' es' t v := by
  have hback : ∀ e' ∈ es', (observe' e').isSome = true →
      ∃ e ∈ es, time e = time' e' ∧ (observe e).isSome = true := by
    intro e' he' hsome
    obtain ⟨x, hx⟩ := Option.isSome_iff_exists.1 hsome
    obtain ⟨e, he, htime, hx⟩ := (hes _ x).2 ⟨e', he', rfl, hx⟩
    exact ⟨e, he, htime, Option.isSome_of_eq_some hx⟩
  cases h with
  | @upTo e x mem observes le last =>
    obtain ⟨e', mem', htime, observes'⟩ := (hes _ x).1 ⟨e, mem, rfl, observes⟩
    refine .upTo mem' observes' (htime.trans_le le) fun f' hf' hsome hle ↦ ?_
    obtain ⟨f, hf, hft, hsome⟩ := hback f' hf' hsome
    rw [htime, ← hft]
    exact last f hf hsome (hft.trans_le hle)
  | @after e x later mem observes first =>
    obtain ⟨e', mem', htime, observes'⟩ := (hes _ x).1 ⟨e, mem, rfl, observes⟩
    refine .after (fun f' hf' hsome ↦ ?_) mem' observes' fun f' hf' hsome ↦ ?_
    · obtain ⟨f, hf, hft, hsome⟩ := hback f' hf' hsome
      exact (later f hf hsome).trans_eq hft
    · obtain ⟨f, hf, hft, hsome⟩ := hback f' hf' hsome
      rw [htime, ← hft]
      exact first f hf hsome
  | never silent =>
    refine .never fun e' he' ↦ Option.eq_none_iff_forall_ne_some.2 fun x hx ↦ ?_
    obtain ⟨e, he, -, hx⟩ := (hes _ x).2 ⟨e', he', rfl, hx⟩
    exact absurd ((silent e he).symm.trans hx) (Option.some_ne_none x).symm

/-- **There is one last observation**, where no two that observe something do so at one time. -/
theorem LastObservation.unique (h : LastObservation time observe es t v)
    (h' : LastObservation time observe es t w)
    (hinj : ∀ e ∈ es, ∀ e' ∈ es, (observe e).isSome = true → (observe e').isSome = true →
      time e = time e' → observe e = observe e') : v = w := by
  cases h with
  | @upTo e x mem observes le last =>
    have hx : (observe e).isSome = true := Option.isSome_of_eq_some observes
    cases h' with
    | @upTo e' y mem' observes' le' last' =>
      have hy : (observe e').isSome = true := Option.isSome_of_eq_some observes'
      rw [← observes, ← observes']
      exact hinj e mem e' mem' hx hy ((last' e mem hx le).antisymm (last e' mem' hy le'))
    | after later' _ _ _ => exact absurd (later' e mem hx) (not_lt.2 le)
    | never silent' =>
      exact absurd ((silent' e mem).symm.trans observes) (Option.some_ne_none x).symm
  | @after e x later mem observes first =>
    have hx : (observe e).isSome = true := Option.isSome_of_eq_some observes
    cases h' with
    | @upTo e' y mem' observes' le' _ =>
      exact absurd (later e' mem' (Option.isSome_of_eq_some observes')) (not_lt.2 le')
    | @after e' y _ mem' observes' first' =>
      have hy : (observe e').isSome = true := Option.isSome_of_eq_some observes'
      rw [← observes, ← observes']
      exact hinj e mem e' mem' hx hy ((first e' mem' hy).antisymm (first' e mem hx))
    | never silent' =>
      exact absurd ((silent' e mem).symm.trans observes) (Option.some_ne_none x).symm
  | never silent =>
    cases h' with
    | @upTo e' y mem' observes' _ _ =>
      exact absurd ((silent e' mem').symm.trans observes') (Option.some_ne_none y).symm
    | @after e' y _ mem' observes' _ =>
      exact absurd ((silent e' mem').symm.trans observes') (Option.some_ne_none y).symm
    | never _ => rfl

theorem earliest_map_eq_some {x : α} (h : earliest (es.map observe) = some x) :
    ∃ above e below, es = above ++ e :: below ∧ observe e = some x ∧
      ∀ e' ∈ above, observe e' = none := by
  rw [earliest, List.findSome?_map, Function.id_comp] at h
  exact List.findSome?_eq_some_iff.1 h

theorem latest_map_eq_some {x : α} (h : latest (es.map observe) = some x) :
    ∃ above e below, es = above ++ e :: below ∧ observe e = some x ∧
      ∀ e' ∈ below, observe e' = none := by
  rw [latest, ← List.map_reverse] at h
  obtain ⟨below, e, above, hsplit, hobs, hnone⟩ := earliest_map_eq_some h
  refine ⟨above.reverse, e, below.reverse, ?_, hobs, fun e' he' ↦ hnone e' (List.mem_reverse.1 he')⟩
  rw [← List.reverse_reverse es, hsplit]
  simp

section Split

variable {above below : List ε} {e : ε} {x : α}

/-- **The last of those above** is the last observation, where the event observes nothing. -/
theorem lastObservation_of_latest
    (hes : (above ++ e :: below).Pairwise fun a b ↦ time a < time b) (hobs : observe e = none)
    (hlatest : latest (above.map observe) = some x) :
    LastObservation time observe (above ++ e :: below) (time e) (some x) := by
  obtain ⟨habove, hrest, hcross⟩ := List.pairwise_append.1 hes
  obtain ⟨hbelow, -⟩ := List.pairwise_cons.1 hrest
  obtain ⟨before, a, rest, rfl, ha, hskip⟩ := latest_map_eq_some hlatest
  have hmem : a ∈ before ++ a :: rest ++ e :: below := by simp
  refine .upTo hmem ha (hcross a (by simp) e (by simp)).le fun e' he' hsome hle ↦ ?_
  rcases List.mem_append.1 he' with hin | hin
  · rcases List.mem_append.1 hin with hin | hin
    · exact ((List.pairwise_append.1 habove).2.2 e' hin a List.mem_cons_self).le
    rcases List.mem_cons.1 hin with rfl | hin
    · exact le_rfl
    · exact absurd (hskip e' hin) (Option.isSome_iff_ne_none.1 hsome)
  · rcases List.mem_cons.1 hin with rfl | hin
    · exact absurd hobs (Option.isSome_iff_ne_none.1 hsome)
    · exact absurd hle (not_le.2 (hbelow e' hin))

/-- **The first of those below** is the last observation, where there is none up to the event. -/
theorem lastObservation_of_earliest
    (hes : (above ++ e :: below).Pairwise fun a b ↦ time a < time b) (hobs : observe e = none)
    (hnone : ∀ a ∈ above, observe a = none)
    (hearliest : earliest (below.map observe) = some x) :
    LastObservation time observe (above ++ e :: below) (time e) (some x) := by
  obtain ⟨-, hrest, -⟩ := List.pairwise_append.1 hes
  obtain ⟨hbelow, hpairs⟩ := List.pairwise_cons.1 hrest
  obtain ⟨before, b, rest, rfl, hb, hskip⟩ := earliest_map_eq_some hearliest
  have hmem : b ∈ above ++ e :: (before ++ b :: rest) := by simp
  have hle : ∀ e' ∈ above ++ e :: (before ++ b :: rest), (observe e').isSome = true →
      time b ≤ time e' := by
    intro e' he' hsome
    rcases List.mem_append.1 he' with hin | hin
    · exact absurd (hnone e' hin) (Option.isSome_iff_ne_none.1 hsome)
    rcases List.mem_cons.1 hin with rfl | hin
    · exact absurd hobs (Option.isSome_iff_ne_none.1 hsome)
    rcases List.mem_append.1 hin with hin | hin
    · exact absurd (hskip e' hin) (Option.isSome_iff_ne_none.1 hsome)
    rcases List.mem_cons.1 hin with rfl | hin
    · exact le_rfl
    · exact ((List.pairwise_cons.1 (List.pairwise_append.1 hpairs).2.1).1 e' hin).le
  exact .after (fun e' he' hsome ↦ (hbelow b (by simp)).trans_le (hle e' he' hsome)) hmem hb hle

variable (observe) in
/-- What is filled in at an event is the last observation. -/
theorem lastObservation_of_split
    (hes : (above ++ e :: below).Pairwise fun a b ↦ time a < time b) :
    LastObservation time observe (above ++ e :: below) (time e)
      (((observe e).or (latest (above.map observe))).or (earliest (below.map observe))) := by
  -- the event's own observation, else the last above, else the first below
  rcases hobs : observe e with - | x
  · rcases hlatest : latest (above.map observe) with - | x
    · have hnone : ∀ a ∈ above, observe a = none := by
        simpa using latest_eq_none.1 hlatest
      rcases hearliest : earliest (below.map observe) with - | x
      · refine .never (List.forall_mem_append.2 ⟨hnone, List.forall_mem_cons.2 ⟨hobs, ?_⟩⟩)
        simpa using earliest_eq_none.1 hearliest
      · exact lastObservation_of_earliest hes hobs hnone hearliest
    · exact lastObservation_of_latest hes hobs hlatest
  · exact .upTo (List.mem_append_right _ List.mem_cons_self) hobs le_rfl fun _ _ _ hle ↦ hle

end Split

/-- **A column that is filled both ways holds the last observations.** -/
theorem lastObservation_fill (hes : es.Pairwise fun a b ↦ time a < time b) {i : ℕ} {e : ε}
    (he : es[i]? = some e) (hv : (backward (forward (es.map observe)))[i]? = some v) :
    LastObservation time observe es (time e) v := by
  obtain ⟨hi, rfl⟩ := List.getElem?_eq_some_iff.1 he
  have hsplit : es = es.take i ++ es[i] :: es.drop (i + 1) := by
    rw [List.getElem_cons_drop, List.take_append_drop]
  have hvalue := getElem?_backward_forward ((es.take i).map observe) (observe es[i])
    ((es.drop (i + 1)).map observe)
  rw [← List.map_cons, ← List.map_append, ← hsplit, List.length_map,
    List.length_take_of_le (Nat.le_of_lt hi), hv] at hvalue
  rw [Option.some.inj hvalue]
  have hlast := lastObservation_of_split observe (hsplit ▸ hes)
  rwa [← hsplit] at hlast

end Observation

end Fill
