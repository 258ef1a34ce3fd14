import Itmo.KMeansTree.Descent

/-! The initial centroids of `initialize_clusters`. The table has the default index, so a
row is found at its position. Every turn of the loop draws a row whose squared distance to the
centroids moves a running sum past a random part of the whole sum. Over the real numbers a row
that is drawn is none of the centroids, and a turn draws nothing just if every row is one, so
the centroids are as many different rows as the number asked for and the table allow. -/

namespace Itmo.KMeansTree

open Lib

section Definitions

variable {d : ℕ} {K : Type*} [Zero K] [Add K] [Sub K] [Mul K] [LT K] [DecidableLT K] [Sqrt K]

/-- `min` of the distances to the centroids, of which there always is one. -/
def minimum : List K → K
  | [] => 0
  | dist :: rest => firstMin id dist rest

/-- Every row with its least squared distance to a centroid. -/
def rowDistances (data : List (Row d K)) (centroids : List (ℕ × Row d K)) :
    List (Row d K × K) :=
  data.map fun row => (row, minimum (centroids.map fun c => square (distance row c.2)))

/-- The first row at which the running sum exceeds the threshold. -/
def pick {α : Type*} (rnd : K) : K → List (α × K) → Option α
  | _, [] => none
  | tempSum, (row, dist) :: rest =>
    if tempSum + dist > rnd then some row else pick rnd (tempSum + dist) rest

/-- One turn of the loop, with the value of `random()`. -/
def drawCentroid (data : List (Row d K)) (random : K) (i : ℕ) (centroids : List (ℕ × Row d K)) :
    List (ℕ × Row d K) :=
  let distances := rowDistances data centroids
  let sumDist := sum (distances.map Prod.snd)
  match pick (random * sumDist) 0 distances with
  | some row => centroids ++ [(i, row)]
  | none => centroids

/-- The dictionary, in the order of insertion. -/
def initializeClusters (data : List (Row d K)) (first : Row d K) (random : ℕ → K) (k : ℕ) :
    List (ℕ × Row d K) :=
  (List.range' 1 (k - 1)).foldl
    (fun centroids i => drawCentroid data (random i) i centroids) [(0, first)]

end Definitions

/-! ### The threshold -/

section Pick

variable {α : Type*}

/-- What is drawn has moved the running sum. -/
theorem pick_pos {l : List (α × ℝ)} {rnd tempSum : ℝ} {row : α} (htemp : tempSum ≤ rnd)
    (h : pick rnd tempSum l = some row) : ∃ dist, (row, dist) ∈ l ∧ 0 < dist := by
  induction l generalizing tempSum with
  | nil => cases h
  | cons pair rest ih =>
    obtain ⟨row', dist⟩ := pair
    rw [pick] at h
    split_ifs at h with hexceeds
    · cases h
      exact ⟨dist, List.mem_cons_self, by linarith⟩
    · obtain ⟨dist', hmem, hpos⟩ := ih (not_lt.mp hexceeds) h
      exact ⟨dist', List.mem_cons_of_mem _ hmem, hpos⟩

/-- Nothing is drawn only when the whole sum does not exceed the threshold. -/
theorem sum_le_of_pick_eq_none {l : List (α × ℝ)} {rnd tempSum : ℝ} (htemp : tempSum ≤ rnd)
    (h : pick rnd tempSum l = none) : tempSum + (l.map Prod.snd).sum ≤ rnd := by
  induction l generalizing tempSum with
  | nil => simpa using htemp
  | cons pair rest ih =>
    obtain ⟨row, dist⟩ := pair
    rw [pick] at h
    split_ifs at h with hexceeds
    rw [List.map_cons, List.sum_cons, ← add_assoc]
    exact ih (not_lt.mp hexceeds) h

end Pick

/-! ### The distances -/

variable {d : ℕ}

theorem square_distance_eq_zero {a b : Row d ℝ} : square (distance a b) = 0 ↔ a = b := by
  rw [square_distance, Finset.sum_eq_zero_iff_of_nonneg fun i _ => sq_nonneg _]
  constructor
  · intro h
    funext i
    exact sub_eq_zero.mp (pow_eq_zero_iff two_ne_zero |>.mp (h i (Finset.mem_univ i)))
  · rintro rfl i -
    rw [sub_self, zero_pow two_ne_zero]

theorem square_nonneg (x : ℝ) : 0 ≤ square x := mul_self_nonneg x

theorem minimum_spec {l : List ℝ} (hl : l ≠ []) : minimum l ∈ l ∧ ∀ x ∈ l, minimum l ≤ x := by
  cases l with
  | nil => exact absurd rfl hl
  | cons x rest => exact ⟨firstMin_mem id x rest, firstMin_le id x rest⟩

/-- The least distance of a row is zero just for the centroids. -/
theorem minimum_distance {centroids : List (ℕ × Row d ℝ)} (hne : centroids ≠ [])
    (row : Row d ℝ) :
    0 ≤ minimum (centroids.map fun c => square (distance row c.2)) ∧
      (minimum (centroids.map fun c => square (distance row c.2)) = 0 ↔
        row ∈ centroids.map Prod.snd) := by
  obtain ⟨hmem, hle⟩ := minimum_spec (l := centroids.map fun c => square (distance row c.2))
    (fun h => hne (List.map_eq_nil_iff.mp h))
  obtain ⟨c, hc, hminimum⟩ := List.mem_map.mp hmem
  have hnonneg : 0 ≤ minimum (centroids.map fun c => square (distance row c.2)) := by
    rw [← hminimum]
    exact square_nonneg _
  refine ⟨hnonneg, fun hzero => ?_, fun hrow => ?_⟩
  · rw [← hminimum, square_distance_eq_zero] at hzero
    rw [hzero]
    exact List.mem_map_of_mem hc
  · obtain ⟨c', hc', rfl⟩ := List.mem_map.mp hrow
    have h := hle _ (List.mem_map_of_mem hc')
    rw [square_distance_eq_zero.mpr rfl] at h
    exact le_antisymm h hnonneg

/-! ### The loop -/

/-- A turn adds a row that is no centroid, and adds nothing just if there is none. -/
theorem drawCentroid_cases {data : List (Row d ℝ)} {centroids : List (ℕ × Row d ℝ)} {random : ℝ}
    (hrandom : 0 ≤ random ∧ random < 1) (hne : centroids ≠ []) (i : ℕ) :
    (∃ row ∈ data, row ∉ centroids.map Prod.snd ∧
      drawCentroid data random i centroids = centroids ++ [(i, row)]) ∨
    ((∀ row ∈ data, row ∈ centroids.map Prod.snd) ∧
      drawCentroid data random i centroids = centroids) := by
  have hsecond : (rowDistances data centroids).map Prod.snd =
      data.map fun row => minimum (centroids.map fun c => square (distance row c.2)) := by
    rw [rowDistances, List.map_map]
    rfl
  have hnonneg : ∀ x ∈ (rowDistances data centroids).map Prod.snd, 0 ≤ x := by
    intro x hx
    rw [hsecond] at hx
    obtain ⟨row, -, rfl⟩ := List.mem_map.mp hx
    exact (minimum_distance hne row).1
  have hsum : 0 ≤ sum ((rowDistances data centroids).map Prod.snd) := by
    rw [sum_real]
    exact List.sum_nonneg hnonneg
  have hthreshold := mul_nonneg hrandom.1 hsum
  rw [drawCentroid]
  cases hpick : pick (random * sum ((rowDistances data centroids).map Prod.snd)) 0
      (rowDistances data centroids) with
  | some row =>
    obtain ⟨dist, hmem, hpos⟩ := pick_pos hthreshold hpick
    obtain ⟨row', hrow, hpair⟩ := List.mem_map.mp hmem
    cases hpair
    refine Or.inl ⟨row, hrow, fun hcentroid => ?_, rfl⟩
    exact hpos.ne' ((minimum_distance hne row).2.mpr hcentroid)
  | none =>
    -- the whole sum is at most a part of itself, so it is zero
    have hle := sum_le_of_pick_eq_none hthreshold hpick
    rw [zero_add, ← sum_real] at hle
    have hzero : sum ((rowDistances data centroids).map Prod.snd) = 0 := by
      by_contra hne
      have hpos := lt_of_le_of_ne hsum (Ne.symm hne)
      nlinarith [mul_lt_mul_of_pos_right hrandom.2 hpos]
    rw [sum_real] at hzero
    refine Or.inr ⟨fun row hrow => ?_, rfl⟩
    have hmem : minimum (centroids.map fun c => square (distance row c.2)) ∈
        (rowDistances data centroids).map Prod.snd := by
      rw [hsecond]
      exact List.mem_map_of_mem hrow
    exact (minimum_distance hne row).2.mp
      (List.all_zero_of_le_zero_le_of_sum_eq_zero hnonneg hzero hmem)

/-- The dictionary before a turn: its keys are the numbers up to its size, its rows differ,
and it has grown in every turn before unless it has all rows. -/
structure Seeded (data : List (Row d ℝ)) (turn : ℕ) (centroids : List (ℕ × Row d ℝ)) : Prop where
  keys : centroids.map Prod.fst = List.range centroids.length
  distinct : (centroids.map Prod.snd).Nodup
  rows : ∀ row ∈ centroids.map Prod.snd, row ∈ data
  grown : centroids.length = turn ∨
    centroids.length ≤ turn ∧ ∀ row ∈ data, row ∈ centroids.map Prod.snd
  nonempty : centroids ≠ []

theorem Seeded.first {data : List (Row d ℝ)} {first : Row d ℝ} (hfirst : first ∈ data) :
    Seeded data 1 [(0, first)] where
  keys := rfl
  distinct := List.nodup_singleton first
  rows _ hrow := List.mem_singleton.mp hrow ▸ hfirst
  grown := Or.inl rfl
  nonempty := List.cons_ne_nil _ _

theorem Seeded.drawCentroid {data : List (Row d ℝ)} {turn : ℕ} {centroids : List (ℕ × Row d ℝ)}
    {random : ℝ} (h : Seeded data turn centroids) (hrandom : 0 ≤ random ∧ random < 1) :
    Seeded data (turn + 1) (drawCentroid data random turn centroids) := by
  rcases drawCentroid_cases hrandom h.nonempty turn with ⟨row, hrow, hnew, heq⟩ | ⟨hall, heq⟩
  · have hlength : centroids.length = turn :=
      h.grown.resolve_right fun hfull => hnew (hfull.2 row hrow)
    rw [heq]
    exact {
      keys := by
        rw [List.map_append, h.keys, List.length_append, List.length_singleton, List.range_succ,
          hlength]
        rfl
      distinct := by
        rw [List.map_append]
        exact h.distinct.append (List.nodup_singleton row)
          (List.disjoint_singleton.mpr hnew)
      rows := by
        intro row' hrow'
        rw [List.map_append, List.mem_append] at hrow'
        rcases hrow' with hrow' | hrow'
        · exact h.rows row' hrow'
        · exact List.mem_singleton.mp hrow' ▸ hrow
      grown := by
        rw [List.length_append, hlength]
        exact Or.inl rfl
      nonempty := List.append_ne_nil_of_left_ne_nil h.nonempty _ }
  · rw [heq]
    have hlength : centroids.length ≤ turn := by
      rcases h.grown with hlength | hfull
      · exact hlength.le
      · exact hfull.1
    exact { h with grown := Or.inr ⟨hlength.trans turn.le_succ, hall⟩ }

theorem seeded_initializeClusters {data : List (Row d ℝ)} {first : Row d ℝ}
    (hfirst : first ∈ data) {random : ℕ → ℝ} (hrandom : ∀ i, 0 ≤ random i ∧ random i < 1) {k : ℕ}
    (hk : 1 ≤ k) : Seeded data k (initializeClusters data first random k) := by
  obtain ⟨turns, rfl⟩ := Nat.exists_eq_add_of_le hk
  rw [initializeClusters, Nat.add_sub_cancel_left]
  induction turns with
  | zero => exact Seeded.first hfirst
  | succ turns ih =>
    rw [List.range'_1_concat, List.foldl_append, List.foldl_cons, List.foldl_nil]
    exact (ih (Nat.le_add_right 1 turns)).drawCentroid (hrandom _)

theorem Seeded.length_eq {data : List (Row d ℝ)} {k : ℕ} {centroids : List (ℕ × Row d ℝ)}
    (h : Seeded data k centroids) : centroids.length = min k data.toFinset.card := by
  have hcard : (centroids.map Prod.snd).toFinset.card = centroids.length := by
    rw [List.toFinset_card_of_nodup h.distinct, List.length_map]
  have hle : centroids.length ≤ data.toFinset.card := by
    rw [← hcard]
    exact Finset.card_le_card fun row hrow =>
      List.mem_toFinset.mpr (h.rows row (List.mem_toFinset.mp hrow))
  rcases h.grown with hlength | ⟨hlength, hall⟩
  · rw [← hlength, min_eq_left hle]
  · have hge : data.toFinset.card ≤ centroids.length := by
      rw [← hcard]
      exact Finset.card_le_card fun row hrow =>
        List.mem_toFinset.mpr (hall row (List.mem_toFinset.mp hrow))
    rw [le_antisymm hle hge, min_eq_right (hge.trans hlength)]

/-- The centroids are numbered from zero, and they are different rows of the table, as many as
there are up to the number asked for. -/
theorem initializeClusters_distinct {data : List (Row d ℝ)} {first : Row d ℝ}
    (hfirst : first ∈ data) {random : ℕ → ℝ} (hrandom : ∀ i, 0 ≤ random i ∧ random i < 1) {k : ℕ}
    (hk : 1 ≤ k) :
    (initializeClusters data first random k).map Prod.fst =
        List.range (min k data.toFinset.card) ∧
      ((initializeClusters data first random k).map Prod.snd).Nodup ∧
      ∀ row ∈ (initializeClusters data first random k).map Prod.snd, row ∈ data := by
  have h := seeded_initializeClusters hfirst hrandom hk
  exact ⟨h.length_eq ▸ h.keys, h.distinct, h.rows⟩

/-- Two rows, of which one is there twice, and three centroids asked for. -/
theorem initializeClusters_distinct_pair :
    let data : List (Row 1 ℝ) := [![0], ![1], ![0]]
    (initializeClusters data ![0] (fun _ => 1 / 2) 3).map Prod.fst =
        List.range (min 3 data.toFinset.card) ∧
      ((initializeClusters data ![0] (fun _ => 1 / 2) 3).map Prod.snd).Nodup ∧
      ∀ row ∈ (initializeClusters data ![0] (fun _ => 1 / 2) 3).map Prod.snd, row ∈ data :=
  initializeClusters_distinct List.mem_cons_self
    (fun _ => ⟨one_half_pos.le, one_half_lt_one⟩) (Nat.le_add_left 1 2)

end Itmo.KMeansTree
