import HugePageResearch.Library.Weighted
import HugePageResearch.Thp.Splits

/-!
# From which bucket a region is drawn

`_select_stratified_region` puts the regions into age buckets, chooses one of the buckets that hold
a region by the configured weights, and draws from it. The walk over the buckets is that of
`Weighted`, on the buckets that are left with their weights clamped at 0.

`selectStratifiedRegion_stratified`: one of the given regions is returned, and where the total
weight is positive the draws of each bucket form an interval whose length is the bucket's share.

A region that was first seen after now has no bucket and is drawn only where no bucket holds a
region, which leaves no weight.
-/

namespace Thp

/-! ### Shares -/

/-- The bucket of a region. -/
def State.bucketOf (s : State) (nowNs : ℤ) (r : SmapsVMARegionSample) : AgeBucket :=
  ageBucketFor (some (s.ageSec r.key nowNs)) false

/-- The configured weight of a bucket, where a negative one counts as 0. -/
def HugepageHarness.weightOf (h : HugepageHarness) (b : AgeBucket) : ℚ :=
  max (Weighted.weight b h.bucketWeights) 0

section Shares

variable (h : HugepageHarness) (s : State) (regions : List SmapsVMARegionSample) (nowNs : ℤ)

/-- The age buckets that hold a region. -/
def filledBuckets : List AgeBucket :=
  [.young, .mid, .old].filter fun b ↦ byBucket s regions nowNs b ≠ []

/-- The total weight of the age buckets that hold a region. -/
def totalWeight : ℚ := ((filledBuckets s regions nowNs).map h.weightOf).sum

/-- The draws of `self.rand.random()` for which the region is taken from a bucket. -/
def drawsFrom (b : AgeBucket) : Set ℚ :=
  {u | ∃ (d : Draws) (r : SmapsVMARegionSample), d.unit = u ∧
    selectStratifiedRegion h s regions nowNs d = some r ∧ s.bucketOf nowNs r = b}

/-- **Buckets are drawn by weight**: the draws of a bucket that holds a region form an interval, the
end points of which differ by its share of the weight, and these intervals partition `[0, 1)`. No
other bucket is chosen, and none of weight 0 unless the draw is 0. -/
structure Stratified : Prop where
  interval : ∀ b, byBucket s regions nowNs b ≠ [] → ∃ lo hi,
    hi - lo = h.weightOf b / totalWeight h s regions nowNs ∧
      Weighted.IsIntervalOf lo hi (drawsFrom h s regions nowNs b)
  subset_ico : ∀ b, drawsFrom h s regions nowNs b ⊆ Set.Ico 0 1
  partition : ∀ u ∈ Set.Ico (0 : ℚ) 1, ∃! b, u ∈ drawsFrom h s regions nowNs b
  filled : ∀ b, ∀ u ∈ drawsFrom h s regions nowNs b, byBucket s regions nowNs b ≠ []
  weight_pos : ∀ b, ∀ u ∈ drawsFrom h s regions nowNs b, 0 < u → 0 < h.weightOf b

end Shares

variable {h : HugepageHarness} {s : State} {regions : List SmapsVMARegionSample} {nowNs : ℤ}
  {b : AgeBucket}

/-! ### The buckets that are left -/

/-- The clamped weights of the buckets that are left. -/
theorem weight_weighted (hb : byBucket s regions nowNs b ≠ []) :
    Weighted.weight b (weighted h s regions nowNs) = h.weightOf b := by
  have hmap := Weighted.weight_map_filter (p := fun b ↦ decide (byBucket s regions nowNs b ≠ []))
    (f := fun w : ℚ ↦ max w 0) (max_self 0) b h.bucketWeights
  rw [if_pos (decide_eq_true hb)] at hmap
  exact hmap

theorem weighted_nonneg : ∀ e ∈ weighted h s regions nowNs, 0 ≤ e.2 := fun e he ↦ by
  obtain ⟨e', -, rfl⟩ := List.mem_map.1 he
  exact le_max_right _ _

/-- **The buckets that are left**, with their weights. -/
theorem weighted_eq : weighted h s regions nowNs =
    (filledBuckets s regions nowNs).map fun b ↦ (b, h.weightOf b) := by
  have hweights : h.bucketWeights =
      [.young, .mid, .old].map fun b ↦ (b, Weighted.weight b h.bucketWeights) := rfl
  rw [weighted, hweights, List.filter_map, List.map_map]
  rfl

theorem map_fst_weighted :
    (weighted h s regions nowNs).map Prod.fst = filledBuckets s regions nowNs := by
  rw [weighted_eq, List.map_map]
  exact List.map_id _

theorem total_weighted :
    Weighted.total (weighted h s regions nowNs) = totalWeight h s regions nowNs := by
  rw [Weighted.total, weighted_eq, List.map_map]
  rfl

theorem nodup_filledBuckets : (filledBuckets s regions nowNs).Nodup :=
  List.Nodup.filter _ (by decide)

/-! ### The draws of a bucket -/

theorem firstReached_eq_reach (pick run : ℚ) (ws : List (AgeBucket × ℚ)) :
    firstReached pick run ws = Weighted.reach pick run ws := by
  induction ws generalizing run with
  | nil => rfl
  | cons e ws ih =>
    rw [firstReached, Weighted.reach, ih]

/-- **The region is drawn from the bucket that the walk reaches.** -/
theorem selectStratifiedRegion_of_reach {d : Draws}
    (hb : Weighted.reach (d.unit * Weighted.total (weighted h s regions nowNs)) 0
      (weighted h s regions nowNs) = some b) :
    selectStratifiedRegion h s regions nowNs d = choice (byBucket s regions nowNs b) d.pick := by
  rw [selectStratifiedRegion]
  rcases hlast : (weighted h s regions nowNs).getLast? with - | last
  · rw [List.getLast?_eq_none_iff.1 hlast] at hb
    exact absurd hb.symm (Option.some_ne_none b)
  · rw [← firstReached_eq_reach, Weighted.total] at hb
    show choice (byBucket s regions nowNs ((firstReached _ 0 _).getD last.1)) d.pick = _
    rw [hb]
    rfl

/-- **The draws of a bucket** are those that reach it. -/
theorem drawsFrom_eq (hpos : 0 < totalWeight h s regions nowNs) :
    drawsFrom h s regions nowNs b = Weighted.draws (weighted h s regions nowNs) b := by
  rw [← total_weighted] at hpos
  refine Set.ext fun u ↦ ⟨?_, ?_⟩
  · rintro ⟨d, r, rfl, hselect, rfl⟩
    have hunit : d.unit ∈ Set.Ico 0 1 := ⟨d.unit_nonneg, d.unit_lt⟩
    obtain ⟨b, hb, -⟩ := Weighted.existsUnique_mem_draws hpos hunit
    rw [selectStratifiedRegion_of_reach hb.2] at hselect
    have hbucket : s.bucketOf nowNs r = b :=
      of_decide_eq_true (List.mem_filter.1 (choice_mem hselect)).2
    rwa [hbucket]
  · rintro ⟨hu, hreach⟩
    have hfilled : byBucket s regions nowNs b ≠ [] := byBucket_ne_nil (Weighted.mem_of_reach hreach)
    obtain ⟨r, hr⟩ := exists_choice hfilled 0
    refine ⟨⟨0, u, 0, hu.1, hu.2⟩, r, rfl, ?_, ?_⟩
    · exact (selectStratifiedRegion_of_reach hreach).trans hr
    · exact of_decide_eq_true (List.mem_filter.1 (choice_mem hr)).2

/-- **A positive total weight** makes the choice stratified. -/
theorem stratified_of_pos (hpos : 0 < totalWeight h s regions nowNs) :
    Stratified h s regions nowNs := by
  have htotal : 0 < Weighted.total (weighted h s regions nowNs) := by rwa [total_weighted]
  have hnodup : ((weighted h s regions nowNs).map Prod.fst).Nodup := by
    rw [map_fst_weighted]
    exact nodup_filledBuckets
  have hfilled : ∀ b, ∀ u ∈ drawsFrom h s regions nowNs b, byBucket s regions nowNs b ≠ [] :=
    fun b u hu ↦ by
      rw [drawsFrom_eq hpos] at hu
      exact byBucket_ne_nil (Weighted.mem_of_reach hu.2)
  refine ⟨fun b hb ↦ ?_, ?_, fun u hu ↦ ?_, hfilled, fun b u hu hupos ↦ ?_⟩
  · refine ⟨_, _, ?_, (drawsFrom_eq (b := b) hpos).symm ▸
      Weighted.isIntervalOf_draws hnodup htotal weighted_nonneg⟩
    rw [add_sub_cancel_left, weight_weighted hb, total_weighted]
  · rintro b u ⟨d, r, rfl, -⟩
    exact ⟨d.unit_nonneg, d.unit_lt⟩
  · simp only [drawsFrom_eq hpos]
    exact Weighted.existsUnique_mem_draws htotal hu
  · rw [← weight_weighted (hfilled b u hu)]
    rw [drawsFrom_eq hpos] at hu
    exact Weighted.weight_pos_of_mem_draws hnodup htotal hu hupos

/-- **One of the given regions is returned**, and where the total weight is positive its bucket is
drawn by weight. -/
theorem selectStratifiedRegion_stratified (h : HugepageHarness) (s : State)
    (regions : List SmapsVMARegionSample) (nowNs : ℤ) (hne : regions ≠ []) :
    (∀ d, ∃ r ∈ regions, selectStratifiedRegion h s regions nowNs d = some r) ∧
      (0 < totalWeight h s regions nowNs → Stratified h s regions nowNs) :=
  ⟨exists_selectStratifiedRegion hne h s nowNs, stratified_of_pos⟩

/-- A region with only its bounds. -/
def boundedRegion (startAddr endAddr : ℤ) : SmapsVMARegionSample :=
  ⟨1, 1, 0, startAddr, endAddr, 0, 0, 0, 0, 0, 0, 0, []⟩

/-- The first bounds were seen at time 0. -/
def seenOnce : State := { load [] 0 with firstSeenNs := Dict.empty.set (0, 1) 0 }

/-- Forty seconds later one region is of middle age and one is young. -/
theorem selectStratifiedRegion_stratified_pair :
    (∀ d, ∃ r ∈ [boundedRegion 0 1, boundedRegion 1 2],
      selectStratifiedRegion redisHarness seenOnce [boundedRegion 0 1, boundedRegion 1 2]
        40000000000 d = some r) ∧
      Stratified redisHarness seenOnce [boundedRegion 0 1, boundedRegion 1 2] 40000000000 := by
  have h := selectStratifiedRegion_stratified redisHarness seenOnce
    [boundedRegion 0 1, boundedRegion 1 2] 40000000000 (List.cons_ne_nil _ _)
  exact ⟨h.1, h.2 (by decide +kernel)⟩

end Thp
