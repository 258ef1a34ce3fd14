import Itmo.KMeansTree.Seeding

/-! When a cluster of `cluster_centroids` becomes empty. In the first pass every cluster has
its own centroid, which is a row of the table. After the centroids have moved to the means, a
cluster has a row just if its mean is the nearest mean of some row. The update skips an empty
cluster, but the sum of the distances divides by its size, so the loop returns just if every
pass it goes on after leaves every mean a row. Two centroids always do. -/

namespace Itmo.KMeansTree

open Lib

section Definitions

variable {d : ℕ} {K : Type*} [Zero K] [Add K] [Sub K] [Mul K] [Div K] [NatCast K] [LT K]
  [DecidableLT K] [Sqrt K]

/-- The values of a dictionary whose keys are the numbers from zero. -/
def centroidsOf (centroids : List (ℕ × Row d K)) : Centroids (centroids.length - 1) d K :=
  fun j => (centroids.getD j (0, fun _ => 0)).2

/-- `cluster_centroids`, with the first row, the values of `random()` and a number of passes. -/
def seededClusterCentroids (data : List (Row d K)) (first : Row d K) (random : ℕ → K) (k : ℕ)
    (passes : ℕ) : Outcome ((initializeClusters data first random k).length - 1) d K :=
  clusterCentroids data passes (centroidsOf (initializeClusters data first random k))

/-- Every mean of the clusters of a pass is the nearest of the means for some row. -/
def Keeps {k : ℕ} (data : List (Row d K)) (centroids : Centroids k d K) : Prop :=
  ∀ j, ∃ row ∈ data, nearest (means data centroids) row = j

end Definitions

/-! ### Empty clusters -/

section Empty

variable {k d : ℕ} {K : Type*} [Zero K] [Add K] [Sub K] [Mul K] [Div K] [NatCast K] [LT K]
  [DecidableLT K] [Sqrt K]

omit [Div K] [NatCast K] in
theorem cluster_ne_nil_iff {data : List (Row d K)} {centroids : Centroids k d K}
    {j : Fin (k + 1)} :
    cluster data centroids j ≠ [] ↔ ∃ row ∈ data, nearest centroids row = j := by
  constructor
  · intro h
    obtain ⟨row, hrow⟩ := List.exists_mem_of_ne_nil _ h
    obtain ⟨hdata, hnearest⟩ := List.mem_filter.mp hrow
    exact ⟨row, hdata, of_decide_eq_true hnearest⟩
  · rintro ⟨row, hdata, hnearest⟩
    exact List.ne_nil_of_mem (List.mem_filter.mpr ⟨hdata, decide_eq_true hnearest⟩)

/-- A loop that raises has come to a pass with an empty cluster. -/
theorem exists_visited_of_raised {data : List (Row d K)} {n : ℕ} {c : Centroids k d K}
    (h : clusterCentroids data n c = .raised) :
    ∃ c₁, Visited data c c₁ ∧ iteration data c₁ = none := by
  induction n generalizing c with
  | zero => cases h
  | succ n ih =>
    rw [clusterCentroids] at h
    cases hpass : iteration data c with
    | none => exact ⟨c, Relation.ReflTransGen.refl, hpass⟩
    | some result =>
      obtain ⟨c', leaves⟩ := result
      rw [hpass] at h
      cases leaves with
      | true => cases h
      | false =>
        obtain ⟨c₁, hvisited, hnone⟩ := ih h
        exact ⟨c₁, Relation.ReflTransGen.head hpass hvisited, hnone⟩

/-- No pass has an empty cluster just if the first has none and none comes up. -/
theorem forall_visited_iff {data : List (Row d K)} {c : Centroids k d K}
    (hfirst : ∀ j, cluster data c j ≠ []) :
    (∀ c₁, Visited data c c₁ → ∀ j, cluster data c₁ j ≠ []) ↔
      ∀ c₁ c₂, Visited data c c₁ → Continues data c₁ c₂ → Keeps data c₁ := by
  constructor
  · intro hall c₁ c₂ hvisited hstep j
    obtain ⟨-, rfl⟩ := iteration_some hstep
    exact cluster_ne_nil_iff.mp (hall _ (hvisited.tail hstep) j)
  · intro hkeeps c₁ hvisited
    cases hvisited with
    | refl => exact hfirst
    | tail hvisited hstep =>
      intro j
      obtain ⟨-, rfl⟩ := iteration_some hstep
      exact cluster_ne_nil_iff.mpr (hkeeps _ _ hvisited hstep j)

end Empty

/-! ### The first pass -/

variable {k d : ℕ}

theorem nearest_eq_of_lt {centroids : Centroids k d ℝ} {row : Row d ℝ} {j : Fin (k + 1)}
    (h : ∀ i, i ≠ j → square (distance row (centroids j)) < square (distance row (centroids i))) :
    nearest centroids row = j := by
  by_contra hne
  exact absurd (nearest_le centroids row j) (not_le.mpr (h _ hne))

/-- Different rows of the table as centroids: each is in its own cluster. -/
theorem cluster_ne_nil_of_injective {data : List (Row d ℝ)} {centroids : Centroids k d ℝ}
    (hinjective : Function.Injective centroids) (hdata : ∀ j, centroids j ∈ data)
    (j : Fin (k + 1)) : cluster data centroids j ≠ [] := by
  refine cluster_ne_nil_iff.mpr ⟨centroids j, hdata j, nearest_eq_of_lt fun i hi => ?_⟩
  rw [square_distance_eq_zero.mpr rfl]
  refine lt_of_le_of_ne (square_nonneg _) fun hzero => hi ?_
  exact (hinjective (square_distance_eq_zero.mp hzero.symm)).symm

theorem cluster_initial_ne_nil {data : List (Row d ℝ)} {turn : ℕ}
    {centroids : List (ℕ × Row d ℝ)} (h : Seeded data turn centroids)
    (j : Fin (centroids.length - 1 + 1)) : cluster data (centroidsOf centroids) j ≠ [] := by
  have hpos : 0 < centroids.length := List.length_pos_iff.mpr h.nonempty
  have hlength : centroids.length - 1 + 1 = (centroids.map Prod.snd).length := by
    rw [List.length_map]
    omega
  have hvalue : ∀ i : Fin (centroids.length - 1 + 1), centroidsOf centroids i =
      (centroids.map Prod.snd).get (i.cast hlength) := by
    intro i
    have hi : (i : ℕ) < centroids.length := by omega
    rw [centroidsOf, List.getD_eq_getElem?_getD, List.getElem?_eq_getElem hi, Option.getD_some]
    simp
  refine cluster_ne_nil_of_injective (fun i i' hii' => ?_) (fun i => ?_) j
  · rw [hvalue, hvalue] at hii'
    exact Fin.cast_injective hlength (List.nodup_iff_injective_get.mp h.distinct hii')
  · rw [hvalue]
    exact h.rows _ (List.get_mem _ _)

/-! ### Two centroids -/

theorem nearest_two (centroids : Centroids 1 d ℝ) (row : Row d ℝ) :
    nearest centroids row = 1 ↔
      square (distance row (centroids 1)) < square (distance row (centroids 0)) := by
  have hrange : (List.finRange 1).map Fin.succ = [(1 : Fin 2)] := rfl
  rw [nearest, hrange, firstMin, firstMin, firstMin]
  split_ifs with h
  · exact iff_of_true rfl h
  · exact iff_of_false Fin.zero_ne_one h

/-- Of two points, the rows are nearer to the one that their mean is nearer to. -/
theorem spread_le_iff {rows : List (Row d ℝ)} (h : rows ≠ []) (y z : Row d ℝ) :
    spread rows y ≤ spread rows z ↔
      ∑ i, (mean rows i - y i) ^ 2 ≤ ∑ i, (mean rows i - z i) ^ 2 := by
  have hlength : (0 : ℝ) < rows.length := by
    rw [Nat.cast_pos]
    exact List.length_pos_iff.mpr h
  rw [spread_eq h y, spread_eq h z, add_le_add_iff_left, mul_le_mul_iff_right₀ hlength]

/-- If one of two means has no row, both are the same point, and then the rows of one cluster
are as near to the other centroid as those of the other cluster say they are not. -/
theorem keeps_two {data : List (Row d ℝ)} {centroids : Centroids 1 d ℝ}
    (h : ∀ j, cluster data centroids j ≠ []) : Keeps data centroids := by
  have hsame : ¬ Keeps data centroids → means data centroids 0 = means data centroids 1 := by
    intro hnot
    rw [Keeps, not_forall] at hnot
    obtain ⟨j, hj⟩ := hnot
    rw [not_exists] at hj
    have hother : ∃ i, i ≠ j ∧ means data centroids j = means data centroids i := by
      obtain ⟨row, hrow⟩ := List.exists_mem_of_ne_nil _ (h j)
      obtain ⟨hdata, -⟩ := List.mem_filter.mp hrow
      have hi : nearest (means data centroids) row ≠ j := fun hi => hj row ⟨hdata, hi⟩
      refine ⟨nearest (means data centroids) row, hi, ?_⟩
      by_contra hne
      refine absurd (spread_mean_lt (h j) hne) (not_lt.mpr (List.sum_le_sum fun row' hrow' => ?_))
      have hi' : nearest (means data centroids) row' ≠ j :=
        fun hi' => hj row' ⟨(List.mem_filter.mp hrow').1, hi'⟩
      have heq : nearest (means data centroids) row = nearest (means data centroids) row' := by
        omega
      rw [heq]
      exact nearest_le (means data centroids) row' j
    obtain ⟨i, hij, hmeans⟩ := hother
    fin_cases j <;> fin_cases i
    · exact absurd rfl hij
    · exact hmeans
    · exact hmeans.symm
    · exact absurd rfl hij
  by_contra hnot
  have hmeans : mean (cluster data centroids 0) = mean (cluster data centroids 1) := hsame hnot
  have hzero : spread (cluster data centroids 0) (centroids 0) ≤
      spread (cluster data centroids 0) (centroids 1) := by
    refine List.sum_le_sum fun row hrow => ?_
    have hnearest := nearest_le centroids row 1
    rwa [of_decide_eq_true (List.mem_filter.mp hrow).2] at hnearest
  have hone : spread (cluster data centroids 1) (centroids 1) <
      spread (cluster data centroids 1) (centroids 0) := by
    refine List.sum_lt_sum_of_ne_nil (h 1) _ _ fun row hrow => ?_
    exact (nearest_two centroids row).mp (of_decide_eq_true (List.mem_filter.mp hrow).2)
  rw [spread_le_iff (h 0), hmeans] at hzero
  rw [← not_le, spread_le_iff (h 1)] at hone
  exact hone hzero

theorem keeps_of_le {data : List (Row d ℝ)} {centroids : Centroids k d ℝ} (hk : k ≤ 1)
    (h : ∀ j, cluster data centroids j ≠ []) : Keeps data centroids := by
  rcases Nat.le_one_iff_eq_zero_or_eq_one.mp hk with rfl | rfl
  · intro j
    obtain ⟨row, hrow⟩ := List.exists_mem_of_ne_nil _ (h j)
    exact ⟨row, (List.mem_filter.mp hrow).1, Subsingleton.elim (α := Fin 1) _ _⟩
  · exact keeps_two h

/-! ### Runs -/

/-- A run returns, and never raises, just if every pass after which it goes on keeps all its
means. With two centroids every pass does. -/
theorem seededClusterCentroids_left_iff {data : List (Row d ℝ)} {first : Row d ℝ}
    (hfirst : first ∈ data) {random : ℕ → ℝ} (hrandom : ∀ i, 0 ≤ random i ∧ random i < 1) {k : ℕ}
    (hk : 1 ≤ k) :
    ((∃ n c, seededClusterCentroids data first random k n = .left c) ↔
      ∀ c c', Visited data (centroidsOf (initializeClusters data first random k)) c →
        Continues data c c' → Keeps data c) ∧
    ((∀ n, seededClusterCentroids data first random k n ≠ .raised) ↔
      ∀ c c', Visited data (centroidsOf (initializeClusters data first random k)) c →
        Continues data c c' → Keeps data c) ∧
    (min k data.toFinset.card ≤ 2 →
      ∃ n c, seededClusterCentroids data first random k n = .left c) := by
  have hseeded := seeded_initializeClusters hfirst hrandom hk
  have hiff := forall_visited_iff (cluster_initial_ne_nil hseeded)
  have hleft : (∃ n c, seededClusterCentroids data first random k n = .left c) ↔
      ∀ c c', Visited data (centroidsOf (initializeClusters data first random k)) c →
        Continues data c c' → Keeps data c := by
    rw [← hiff]
    constructor
    · rintro ⟨n, c, hleft⟩ c₁ hvisited j hempty
      exact (raised_of_visited hvisited (iteration_eq_none_iff.mpr ⟨j, hempty⟩)).2 n c hleft
    · exact leaves_of_nonempty
  refine ⟨hleft, ?_, fun hmin => hleft.mpr fun c c' _ hstep => ?_⟩
  · rw [← hiff]
    constructor
    · intro hnever c₁ hvisited j hempty
      obtain ⟨n, hn⟩ := (raised_of_visited hvisited (iteration_eq_none_iff.mpr ⟨j, hempty⟩)).1
      exact hnever n hn
    · intro hall n hraised
      obtain ⟨c₁, hvisited, hnone⟩ := exists_visited_of_raised hraised
      obtain ⟨j, hempty⟩ := iteration_eq_none_iff.mp hnone
      exact hall c₁ hvisited j hempty
  · have hlength := hseeded.length_eq
    exact keeps_of_le (by omega) (iteration_some hstep).1

/-- Two rows, each of which stays a cluster of its own. -/
theorem seededClusterCentroids_left_pair : ∃ n c,
    seededClusterCentroids [![0], ![1]] (![0] : Row 1 ℝ) (fun _ => 1 / 2) 2 n = .left c :=
  (seededClusterCentroids_left_iff List.mem_cons_self
    (fun _ => ⟨one_half_pos.le, one_half_lt_one⟩) (Nat.le_succ 1)).2.2 (min_le_left 2 _)

/-! ### A cluster that loses its rows -/

section Lost

/-- The values of a table of one column. -/
def line {n : ℕ} (values : Fin n → ℚ) (i : Fin n) : Row 1 ℝ := ![(values i : ℝ)]

def lostRows : List (Row 1 ℝ) := List.ofFn (line ![-1, 0, 8, 9, 9, 17])

/-- The value zero draws the first other row, and a half the last one. -/
noncomputable def lostRandom (i : ℕ) : ℝ := if i = 1 then 0 else (2 : ℕ)⁻¹

def lostCentroids : Centroids 2 1 ℝ := line ![-1, 0, 17]

def lostMeans : Centroids 2 1 ℝ := line ![-1, 4, 35 / 3]

theorem lostRows_eq : lostRows = [![-1], ![0], ![8], ![9], ![9], ![17]] := by
  simp [lostRows, List.ofFn_succ, line]

theorem lostCentroids_eq : lostCentroids = ![![-1], ![0], ![17]] := by
  funext j
  fin_cases j <;> simp [lostCentroids, line]

theorem lostMeans_eq : lostMeans = ![![-1], ![4], ![35 / 3]] := by
  funext j
  fin_cases j <;> simp [lostMeans, line]

theorem initializeClusters_lost :
    initializeClusters lostRows ![-1] lostRandom 3 = [(0, ![-1]), (1, ![0]), (2, ![17])] := by
  simp [initializeClusters, lostRows_eq, lostRandom, List.range', drawCentroid, rowDistances,
    minimum, firstMin, square_distance, pick, sum_real]
  norm_num

theorem nearest_line (l m r x : ℝ) : nearest (![![l], ![m], ![r]] : Centroids 2 1 ℝ) ![x] =
    if (x - m) ^ 2 < (x - l) ^ 2 then if (x - r) ^ 2 < (x - m) ^ 2 then 2 else 1
    else if (x - r) ^ 2 < (x - l) ^ 2 then 2 else 0 := by
  have hrange : (List.finRange 2).map Fin.succ = [(1 : Fin 3), 2] := rfl
  simp only [nearest, hrange, firstMin, square_distance, Fin.sum_univ_one]
  rfl

theorem distance_line (x y : ℝ) : distance (![x] : Row 1 ℝ) ![y] = |x - y| := by
  have hsum : sum (List.ofFn fun i => square ((![x] : Row 1 ℝ) i - ![y] i)) =
      (x - y) * (x - y) := by
    simp [sum_real, square]
  rw [distance, hsum]
  exact Real.sqrt_mul_self_eq_abs (x - y)

theorem cluster_lostCentroids : cluster lostRows lostCentroids 0 = [![-1]] ∧
    cluster lostRows lostCentroids 1 = [![0], ![8]] ∧
    cluster lostRows lostCentroids 2 = [![9], ![9], ![17]] := by
  have hnumbers : (2 : Fin (2 + 1)) ≠ 0 ∧ (2 : Fin (2 + 1)) ≠ 1 ∧ (0 : Fin (2 + 1)) ≠ 2 ∧
      (1 : Fin (2 + 1)) ≠ 2 := by decide
  simp only [cluster, lostRows_eq, lostCentroids_eq, List.filter_cons, List.filter_nil,
    nearest_line]
  norm_num [hnumbers]

/-- The two rows of the middle cluster are nearer to the other means. -/
theorem cluster_lostMeans : cluster lostRows lostMeans 1 = [] := by
  have hnumbers : (2 : Fin (2 + 1)) ≠ 1 ∧ (0 : Fin (2 + 1)) ≠ 1 := by decide
  simp only [cluster, lostRows_eq, lostMeans_eq, List.filter_cons, List.filter_nil, nearest_line]
  norm_num [hnumbers]

theorem update_lost : update lostCentroids (cluster lostRows lostCentroids) = lostMeans := by
  obtain ⟨h0, h1, h2⟩ := cluster_lostCentroids
  funext j i
  fin_cases j <;> fin_cases i
  · simp [update, h0, mean, sum, lostMeans_eq]
  · simp [update, h1, mean, sum, lostMeans_eq]
    norm_num
  · simp [update, h2, mean, sum, lostMeans_eq]
    norm_num

theorem intraclusterDistance_eq {centroids : Centroids k d ℝ}
    {clusters : Fin (k + 1) → List (Row d ℝ)} (h : ∀ j, clusters j ≠ []) :
    intraclusterDistance centroids clusters = some (∑ j,
      ((clusters j).map fun row => distance row (centroids j)).sum /
        ((clusters j).length : ℝ)) := by
  rw [intraclusterDistance_of_nonempty centroids h, sum_real, List.sum_ofFn]
  simp only [sum_real]

theorem iteration_lostCentroids : iteration lostRows lostCentroids = some (lostMeans, false) := by
  obtain ⟨h0, h1, h2⟩ := cluster_lostCentroids
  have hnonempty : ∀ j, cluster lostRows lostCentroids j ≠ [] := by
    intro j
    fin_cases j
    · exact ne_of_eq_of_ne h0 (List.cons_ne_nil _ _)
    · exact ne_of_eq_of_ne h1 (List.cons_ne_nil _ _)
    · exact ne_of_eq_of_ne h2 (List.cons_ne_nil _ _)
  have hunder : intraclusterDistance lostCentroids (cluster lostRows lostCentroids) =
      some (28 / 3) := by
    rw [intraclusterDistance_eq hnonempty, Fin.sum_univ_three, h0, h1, h2]
    simp [lostCentroids_eq, distance_line]
    norm_num
  have hpost : intraclusterDistance lostMeans (cluster lostRows lostCentroids) =
      some (68 / 9) := by
    rw [intraclusterDistance_eq hnonempty, Fin.sum_univ_three, h0, h1, h2]
    simp [lostMeans_eq, distance_line]
    norm_num [abs_of_nonneg, abs_of_neg]
  have hcontinues : ¬ fabs ((68 : ℝ) / 9 - 28 / 3) < ((1 : ℕ) : ℝ) / ((1000 : ℕ) : ℝ) := by
    norm_num [fabs]
  rw [iteration, update_lost]
  dsimp only
  rw [hunder, hpost]
  change some (lostMeans, decide _) = _
  rw [decide_eq_false hcontinues]

/-- The second pass of these six rows divides by the size of an empty cluster. -/
theorem seededClusterCentroids_raised : ∃ (data : List (Row 1 ℝ)) (first : Row 1 ℝ)
    (random : ℕ → ℝ), first ∈ data ∧ (∀ i, 0 ≤ random i ∧ random i < 1) ∧
      seededClusterCentroids data first random 3 2 = .raised := by
  refine ⟨lostRows, ![-1], lostRandom, by rw [lostRows_eq]; exact List.mem_cons_self,
    fun i => ?_, ?_⟩
  · rw [lostRandom]
    split_ifs <;> norm_num
  · have hcentroids : centroidsOf [(0, (![-1] : Row 1 ℝ)), (1, ![0]), (2, ![17])] =
        lostCentroids := by
      rw [lostCentroids_eq]
      funext j
      fin_cases j <;> rfl
    rw [seededClusterCentroids, initializeClusters_lost]
    have hraised : clusterCentroids lostRows 2 lostCentroids = .raised := by
      rw [clusterCentroids, iteration_lostCentroids]
      dsimp only
      rw [clusterCentroids, iteration_eq_none_iff.mpr ⟨1, cluster_lostMeans⟩]
    rw [hcentroids]
    exact hraised

end Lost

end Itmo.KMeansTree
