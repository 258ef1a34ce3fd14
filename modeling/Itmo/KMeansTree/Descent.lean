import Itmo.KMeansTree.KMeans
import Mathlib.Analysis.Real.Sqrt

/-! The clustering over the real numbers. Assigning every row to its nearest
centroid and moving the centroids to the means of their rows both lower the sum of
the squared distances, the second strictly unless every centroid already is the
mean of its rows. There are finitely many ways to split the rows into clusters, so
the centroids come to rest, and then the two sums of plain distances that the loop
compares are the same. -/

namespace Itmo.KMeansTree

open Lib

noncomputable instance : Sqrt ℝ := ⟨Real.sqrt⟩

variable {k d : ℕ}

/-! ### Distances -/

theorem sum_real (l : List ℝ) : sum l = l.sum := List.sum_eq_foldl.symm

theorem square_distance (a b : Row d ℝ) : square (distance a b) = ∑ i, (a i - b i) ^ 2 := by
  have hsum : sum (List.ofFn fun i => square (a i - b i)) = ∑ i, (a i - b i) ^ 2 := by
    rw [sum_real, List.sum_ofFn]
    refine Finset.sum_congr rfl fun i _ => ?_
    rw [square, ← sq]
  have hnonneg : 0 ≤ ∑ i, (a i - b i) ^ 2 := Finset.sum_nonneg fun i _ => sq_nonneg _
  unfold square distance
  rw [hsum]
  exact Real.mul_self_sqrt hnonneg

theorem mean_real (rows : List (Row d ℝ)) (i : Fin d) :
    mean rows i = (rows.map fun row => row i).sum / (rows.map fun row => row i).length := by
  unfold mean
  rw [sum_real, List.length_map]

/-- The sum of the squared distances of the rows to a point. -/
noncomputable def spread (rows : List (Row d ℝ)) (y : Row d ℝ) : ℝ :=
  (rows.map fun row => square (distance row y)).sum

/-- The mean has the least spread. -/
theorem spread_eq {rows : List (Row d ℝ)} (h : rows ≠ []) (y : Row d ℝ) :
    spread rows y = spread rows (mean rows) + rows.length * ∑ i, (mean rows i - y i) ^ 2 := by
  have hcolumns : ∀ z : Row d ℝ, spread rows z =
      ∑ i, ((rows.map fun row => row i).map fun x => (x - z i) ^ 2).sum := by
    intro z
    unfold spread
    simp only [square_distance]
    rw [sum_map_comm]
    refine Finset.sum_congr rfl fun i _ => ?_
    rw [List.map_map]
    rfl
  rw [hcolumns, hcolumns, Finset.mul_sum, ← Finset.sum_add_distrib]
  refine Finset.sum_congr rfl fun i _ => ?_
  rw [sum_sub_sq _ (fun hnil => h (List.map_eq_nil_iff.mp hnil)) (y i), mean_real,
    List.length_map]

theorem spread_mean_le {rows : List (Row d ℝ)} (h : rows ≠ []) (y : Row d ℝ) :
    spread rows (mean rows) ≤ spread rows y := by
  rw [spread_eq h y]
  have hnonneg : 0 ≤ (rows.length : ℝ) * ∑ i, (mean rows i - y i) ^ 2 :=
    mul_nonneg (Nat.cast_nonneg _) (Finset.sum_nonneg fun i _ => sq_nonneg _)
  linarith

/-- The mean is the only point of least spread. -/
theorem spread_mean_lt {rows : List (Row d ℝ)} (h : rows ≠ []) {y : Row d ℝ}
    (hy : mean rows ≠ y) : spread rows (mean rows) < spread rows y := by
  rw [spread_eq h y]
  obtain ⟨i, hi⟩ := Function.ne_iff.mp hy
  have hpos : 0 < ∑ i, (mean rows i - y i) ^ 2 := by
    refine Finset.sum_pos' (fun i _ => sq_nonneg _) ⟨i, Finset.mem_univ i, ?_⟩
    have hne : mean rows i - y i ≠ 0 := sub_ne_zero.mpr hi
    positivity
  have hlength : (0 : ℝ) < rows.length := by
    rw [Nat.cast_pos]
    exact List.length_pos_iff.mpr h
  have := mul_pos hlength hpos
  linarith

/-! ### The cost -/

/-- The sum over all rows of the squared distance to the nearest centroid. -/
noncomputable def cost (data : List (Row d ℝ)) (centroids : Centroids k d ℝ) : ℝ :=
  (data.map fun row => Finset.univ.inf' Finset.univ_nonempty fun j =>
    square (distance row (centroids j))).sum

theorem nearest_le (centroids : Centroids k d ℝ) (row : Row d ℝ) (j : Fin (k + 1)) :
    square (distance row (centroids (nearest centroids row))) ≤
      square (distance row (centroids j)) := by
  refine firstMin_le (fun j => square (distance row (centroids j))) 0 _ j ?_
  rw [List.mem_cons]
  refine (Fin.eq_zero_or_eq_succ j).imp id fun h => ?_
  obtain ⟨i, rfl⟩ := h
  exact List.mem_map_of_mem (List.mem_finRange i)

/-- The cost is the sum of the spreads of the clusters about their centroids. -/
theorem cost_eq (data : List (Row d ℝ)) (centroids : Centroids k d ℝ) :
    cost data centroids = ∑ j, spread (cluster data centroids j) (centroids j) := by
  have hnearest : ∀ row : Row d ℝ, (Finset.univ.inf' Finset.univ_nonempty fun j =>
      square (distance row (centroids j))) =
      square (distance row (centroids (nearest centroids row))) := by
    intro row
    refine le_antisymm (Finset.inf'_le _ (Finset.mem_univ _)) ?_
    exact Finset.le_inf' _ _ fun j _ => nearest_le centroids row j
  unfold cost
  simp only [hnearest]
  rw [sum_map_filter data (nearest centroids)]
  refine Finset.sum_congr rfl fun j _ => ?_
  unfold spread cluster
  refine congrArg List.sum (List.map_congr_left fun row hrow => ?_)
  rw [of_decide_eq_true (List.mem_filter.mp hrow).2]

/-- Other centroids cannot cost more than the spreads about them of any clusters. -/
theorem cost_le (data : List (Row d ℝ)) (centroids centroids' : Centroids k d ℝ) :
    cost data centroids' ≤ ∑ j, spread (cluster data centroids j) (centroids' j) := by
  have hsplit : ∑ j, spread (cluster data centroids j) (centroids' j) =
      (data.map fun row => square (distance row (centroids' (nearest centroids row)))).sum := by
    rw [sum_map_filter data (nearest centroids)]
    refine Finset.sum_congr rfl fun j _ => ?_
    unfold spread cluster
    refine congrArg List.sum (List.map_congr_left fun row hrow => ?_)
    rw [of_decide_eq_true (List.mem_filter.mp hrow).2]
  rw [hsplit]
  refine List.sum_le_sum fun row _ => ?_
  exact Finset.inf'_le _ (Finset.mem_univ _)

/-- The two steps of a pass: the centroids move to the means, the rows to the
nearest of them. -/
theorem cost_means_le {data : List (Row d ℝ)} {centroids : Centroids k d ℝ}
    (h : ∀ j, cluster data centroids j ≠ []) : cost data (means data centroids) ≤
      cost data centroids := by
  rw [cost_eq data centroids]
  refine (cost_le data centroids (means data centroids)).trans ?_
  exact Finset.sum_le_sum fun j _ => spread_mean_le (h j) (centroids j)

theorem cost_means_lt {data : List (Row d ℝ)} {centroids : Centroids k d ℝ}
    (h : ∀ j, cluster data centroids j ≠ []) (hmoves : means data centroids ≠ centroids) :
    cost data (means data centroids) < cost data centroids := by
  rw [cost_eq data centroids]
  refine (cost_le data centroids (means data centroids)).trans_lt ?_
  obtain ⟨j, hj⟩ := Function.ne_iff.mp hmoves
  exact Finset.sum_lt_sum (fun j _ => spread_mean_le (h j) (centroids j))
    ⟨j, Finset.mem_univ j, spread_mean_lt (h j) hj⟩

/-! ### Leaving -/

/-- Every cluster is a sublist of the table, so the means have finitely many values. -/
theorem finite_range_means (data : List (Row d ℝ)) :
    (Set.range (means (k := k) data)).Finite := by
  have hsublists : Finite {l // l ∈ data.sublists} := (List.finite_toSet data.sublists).to_subtype
  refine (Set.finite_range fun S : Fin (k + 1) → {l // l ∈ data.sublists} =>
    fun j => mean (S j).val).subset ?_
  rintro _ ⟨centroids, rfl⟩
  refine ⟨fun j => ⟨cluster data centroids j, ?_⟩, rfl⟩
  exact List.mem_sublists.mpr List.filter_sublist

/-- When no centroid moves the loop leaves. -/
theorem leaves_of_fixed {data : List (Row d ℝ)} {centroids centroids' : Centroids k d ℝ}
    {leaves : Bool} (h : iteration data centroids = some (centroids', leaves))
    (hfixed : means data centroids = centroids) : leaves = true := by
  obtain ⟨hnonempty, rfl⟩ := iteration_some h
  have hupdate : update centroids (cluster data centroids) = centroids := by
    funext j
    unfold update
    rw [if_neg fun hj => hnonempty j (List.isEmpty_iff.mp hj)]
    exact congrFun hfixed j
  obtain ⟨x, hx⟩ := intraclusterDistance_isSome centroids hnonempty
  unfold iteration at h
  dsimp only at h
  rw [hupdate, hx] at h
  have hleaves : decide (fabs (x - x) < ((1 : ℕ) : ℝ) / ((1000 : ℕ) : ℝ)) = leaves :=
    congrArg Prod.snd (Option.some.inj h)
  rw [← hleaves, decide_eq_true_iff, sub_self]
  unfold fabs
  norm_num

/-- A loop that never leaves and never has an empty cluster visits all iterates of
the means. -/
theorem visited_iterate {data : List (Row d ℝ)} {centroids : Centroids k d ℝ}
    (hnonempty : ∀ c, Visited data centroids c → ∀ j, cluster data c j ≠ [])
    (hnever : ¬ ∃ n c', clusterCentroids data n centroids = .left c') (n : ℕ) :
    Visited data centroids ((means data)^[n] centroids) := by
  induction n with
  | zero => exact Relation.ReflTransGen.refl
  | succ n ih =>
    rw [Function.iterate_succ_apply']
    obtain ⟨leaves, hpass⟩ := iteration_of_nonempty (hnonempty _ ih)
    cases leaves with
    | false => exact ih.tail hpass
    | true =>
      obtain ⟨m, hm⟩ := left_of_visited ih hpass
      exact absurd ⟨m, _, hm⟩ hnever

theorem leaves_of_nonempty {data : List (Row d ℝ)} {centroids : Centroids k d ℝ}
    (hnonempty : ∀ c, Visited data centroids c → ∀ j, cluster data c j ≠ []) :
    ∃ n c', clusterCentroids data n centroids = .left c' := by
  by_contra hnever
  have hvisited := visited_iterate hnonempty hnever
  have hcost : ∀ n, means data ((means data)^[n] centroids) ≠ (means data)^[n] centroids →
      cost data (means data ((means data)^[n] centroids)) <
        cost data ((means data)^[n] centroids) :=
    fun n => cost_means_lt (hnonempty _ (hvisited n))
  obtain ⟨n, hn⟩ := exists_iterate_fixed (means data) (cost data) centroids hcost
    (finite_range_means data)
  obtain ⟨leaves, hpass⟩ := iteration_of_nonempty (hnonempty _ (hvisited n))
  rw [leaves_of_fixed hpass hn] at hpass
  obtain ⟨m, hm⟩ := left_of_visited (hvisited n) hpass
  exact hnever ⟨m, _, hm⟩

/-- Every pass of the loop lowers the cost or keeps it, and as long as no cluster
becomes empty the loop leaves. -/
theorem descends_and_leaves (data : List (Row d ℝ)) (centroids : Centroids k d ℝ) :
    (∀ c, Visited data centroids c → ∀ c' leaves, iteration data c = some (c', leaves) →
      cost data c' ≤ cost data c) ∧
    ((∀ c, Visited data centroids c → ∀ j, cluster data c j ≠ []) →
      ∃ n c', clusterCentroids data n centroids = .left c') := by
  refine ⟨fun c _ c' leaves h => ?_, leaves_of_nonempty⟩
  obtain ⟨hnonempty, rfl⟩ := iteration_some h
  exact cost_means_le hnonempty

end Itmo.KMeansTree
