import Itmo.Lib.Descent
import Mathlib.Logic.Relation

/-! The clustering of `kmeans.py`. A row is a vector of numbers, the centroids are
numbered from zero, and the definitions work over any numbers with the operations
the source uses; the initial centroids, which the source draws at random, are
given. One pass of the loop assigns every row to its nearest centroid and moves
the centroids to the means of their rows; an empty cluster ends it with a division
by zero. Over the real numbers every pass lowers the sum of the squared distances
unless no centroid moves, and then the loop leaves. -/

namespace Itmo.KMeansTree

open Lib

/-- `math.sqrt`. -/
class Sqrt (K : Type*) where
  sqrt : K → K

abbrev Row (d : ℕ) (K : Type*) := Fin d → K

/-- At least one centroid; its number is the key of the dictionary. -/
abbrev Centroids (k d : ℕ) (K : Type*) := Fin (k + 1) → Row d K

section

variable {k d : ℕ} {K : Type*} [Zero K] [Add K] [Sub K] [Mul K] [Div K] [NatCast K] [LT K]
  [DecidableLT K] [Sqrt K]

def sum (l : List K) : K := l.foldl (· + ·) 0

def square (x : K) : K := x * x

def fabs (x : K) : K := if x < 0 then 0 - x else x

def distance (a b : Row d K) : K := Sqrt.sqrt (sum (List.ofFn fun i => square (a i - b i)))

/-- The key of the first centroid of least squared distance. -/
def nearest (centroids : Centroids k d K) (row : Row d K) : Fin (k + 1) :=
  firstMin (fun j => square (distance row (centroids j))) 0 ((List.finRange k).map Fin.succ)

def cluster (data : List (Row d K)) (centroids : Centroids k d K) (j : Fin (k + 1)) :
    List (Row d K) :=
  data.filter (nearest centroids · = j)

/-- `none` is the division by the length of an empty cluster. -/
def intraclusterDistance (centroids : Centroids k d K) (clusters : Fin (k + 1) → List (Row d K)) :
    Option K :=
  if (List.finRange (k + 1)).any fun j => (clusters j).isEmpty then none
  else some (sum (List.ofFn fun j =>
    sum ((clusters j).map fun row => distance row (centroids j)) / ((clusters j).length : K)))

def mean (rows : List (Row d K)) : Row d K :=
  fun i => sum (rows.map fun row => row i) / (rows.length : K)

def update (centroids : Centroids k d K) (clusters : Fin (k + 1) → List (Row d K)) :
    Centroids k d K :=
  fun j => if (clusters j).isEmpty then centroids j else mean (clusters j)

/-- One pass of the loop: the centroids after it, and whether it leaves. -/
def iteration (data : List (Row d K)) (centroids : Centroids k d K) :
    Option (Centroids k d K × Bool) := do
  let clusters := cluster data centroids
  let under ← intraclusterDistance centroids clusters
  let centroids' := update centroids clusters
  let post ← intraclusterDistance centroids' clusters
  return (centroids', decide (fabs (post - under) < ((1 : ℕ) : K) / ((1000 : ℕ) : K)))

inductive Outcome (k d : ℕ) (K : Type*) where
  | running
  | raised
  | left (centroids : Centroids k d K)

/-- The loop of `cluster_centroids`, for a number of passes. -/
def clusterCentroids (data : List (Row d K)) : ℕ → Centroids k d K → Outcome k d K
  | 0, _ => .running
  | n + 1, centroids =>
    match iteration data centroids with
    | none => .raised
    | some (centroids', true) => .left centroids'
    | some (centroids', false) => clusterCentroids data n centroids'

def predict (data : List (Row d K)) (centroids : Centroids k d K) : List (Fin (k + 1)) :=
  data.map (nearest centroids)

/-! ### One pass -/

omit [LT K] [DecidableLT K] in
theorem intraclusterDistance_of_nonempty (centroids : Centroids k d K)
    {clusters : Fin (k + 1) → List (Row d K)} (h : ∀ j, clusters j ≠ []) :
    intraclusterDistance centroids clusters = some (sum (List.ofFn fun j =>
      sum ((clusters j).map fun row => distance row (centroids j)) /
        ((clusters j).length : K))) := by
  unfold intraclusterDistance
  rw [if_neg]
  intro hany
  obtain ⟨j, -, hj⟩ := List.any_eq_true.mp hany
  exact h j (List.isEmpty_iff.mp hj)

omit [LT K] [DecidableLT K] in
theorem intraclusterDistance_isSome (centroids : Centroids k d K)
    {clusters : Fin (k + 1) → List (Row d K)} (h : ∀ j, clusters j ≠ []) :
    ∃ x, intraclusterDistance centroids clusters = some x :=
  ⟨_, intraclusterDistance_of_nonempty centroids h⟩

omit [LT K] [DecidableLT K] in
theorem intraclusterDistance_eq_none {centroids : Centroids k d K}
    {clusters : Fin (k + 1) → List (Row d K)} {j : Fin (k + 1)} (h : clusters j = []) :
    intraclusterDistance centroids clusters = none := by
  unfold intraclusterDistance
  rw [if_pos]
  exact List.any_eq_true.mpr ⟨j, List.mem_finRange j, by rw [h]; rfl⟩

/-- The centroids after a pass without an empty cluster. -/
def means (data : List (Row d K)) (centroids : Centroids k d K) : Centroids k d K :=
  fun j => mean (cluster data centroids j)

theorem iteration_of_nonempty {data : List (Row d K)} {centroids : Centroids k d K}
    (h : ∀ j, cluster data centroids j ≠ []) :
    ∃ leaves, iteration data centroids = some (means data centroids, leaves) := by
  have hupdate : update centroids (cluster data centroids) = means data centroids := by
    funext j
    unfold update means
    rw [if_neg fun hj => h j (List.isEmpty_iff.mp hj)]
  obtain ⟨under, hunder⟩ := intraclusterDistance_isSome centroids h
  obtain ⟨post, hpost⟩ := intraclusterDistance_isSome (means data centroids) h
  unfold iteration
  dsimp only
  rw [hupdate, hunder, hpost]
  exact ⟨_, rfl⟩

/-- An exception is an empty cluster. -/
theorem iteration_eq_none_iff {data : List (Row d K)} {centroids : Centroids k d K} :
    iteration data centroids = none ↔ ∃ j, cluster data centroids j = [] := by
  constructor
  · intro h
    by_contra hnone
    rw [not_exists] at hnone
    obtain ⟨leaves, hsome⟩ := iteration_of_nonempty hnone
    rw [h] at hsome
    cases hsome
  · rintro ⟨j, hj⟩
    unfold iteration
    dsimp only
    rw [intraclusterDistance_eq_none hj]
    rfl

theorem iteration_some {data : List (Row d K)} {centroids centroids' : Centroids k d K}
    {leaves : Bool} (h : iteration data centroids = some (centroids', leaves)) :
    (∀ j, cluster data centroids j ≠ []) ∧ centroids' = means data centroids := by
  have hnonempty : ∀ j, cluster data centroids j ≠ [] := by
    intro j hj
    rw [iteration_eq_none_iff.mpr ⟨j, hj⟩] at h
    cases h
  obtain ⟨leaves', hsome⟩ := iteration_of_nonempty hnonempty
  rw [h] at hsome
  cases hsome
  exact ⟨hnonempty, rfl⟩

/-! ### The loop -/

/-- One pass after which the loop goes on. -/
def Continues (data : List (Row d K)) (c c' : Centroids k d K) : Prop :=
  iteration data c = some (c', false)

/-- The centroids at the start of some pass of the loop. -/
def Visited (data : List (Row d K)) : Centroids k d K → Centroids k d K → Prop :=
  Relation.ReflTransGen (Continues data)

/-- A run from the start is the run from a later pass, after the passes before it. -/
theorem clusterCentroids_of_visited {data : List (Row d K)} {c c₁ : Centroids k d K}
    (h : Visited data c c₁) : ∃ m, (∀ n < m, clusterCentroids data n c = .running) ∧
      ∀ n, clusterCentroids data (m + n) c = clusterCentroids data n c₁ := by
  induction h using Relation.ReflTransGen.head_induction_on with
  | refl => exact ⟨0, fun n hn => absurd hn n.not_lt_zero, fun n => by rw [Nat.zero_add]⟩
  | @head a b hstep _ ih =>
    have hpass : iteration data a = some (b, false) := hstep
    have hsucc : ∀ n, clusterCentroids data (n + 1) a = clusterCentroids data n b := by
      intro n
      conv_lhs => unfold clusterCentroids
      rw [hpass]
    obtain ⟨m, hbefore, hafter⟩ := ih
    refine ⟨m + 1, fun n hn => ?_, fun n => ?_⟩
    · cases n with
      | zero => rfl
      | succ n => exact (hsucc n).trans (hbefore n (Nat.lt_of_succ_lt_succ hn))
    · rw [Nat.add_right_comm, hsucc, hafter]

theorem left_of_visited {data : List (Row d K)} {c c₁ c₂ : Centroids k d K}
    (h : Visited data c c₁) (hleaves : iteration data c₁ = some (c₂, true)) :
    ∃ n, clusterCentroids data n c = .left c₂ := by
  obtain ⟨m, -, hafter⟩ := clusterCentroids_of_visited h
  refine ⟨m + 1, ?_⟩
  rw [hafter]
  unfold clusterCentroids
  rw [hleaves]

/-- The loop raises at a pass with an empty cluster, and so it never leaves. -/
theorem raised_of_visited {data : List (Row d K)} {c c₁ : Centroids k d K}
    (h : Visited data c c₁) (hnone : iteration data c₁ = none) :
    (∃ n, clusterCentroids data n c = .raised) ∧ ∀ n c₂, clusterCentroids data n c ≠ .left c₂ := by
  obtain ⟨m, hbefore, hafter⟩ := clusterCentroids_of_visited h
  have hraised : ∀ n, clusterCentroids data (n + 1) c₁ = .raised := by
    intro n
    unfold clusterCentroids
    rw [hnone]
  refine ⟨⟨m + 1, (hafter 1).trans (hraised 0)⟩, fun n c₂ hleft => ?_⟩
  rcases Nat.lt_or_ge n m with hlt | hge
  · rw [hbefore n hlt] at hleft
    cases hleft
  · obtain ⟨j, rfl⟩ := Nat.exists_eq_add_of_le hge
    rw [hafter] at hleft
    cases j with
    | zero => cases hleft
    | succ j =>
      rw [hraised] at hleft
      cases hleft

end

end Itmo.KMeansTree
